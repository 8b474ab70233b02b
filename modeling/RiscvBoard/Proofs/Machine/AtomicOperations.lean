import RiscvBoard.Proofs.Machine.AllOrNothing
import RiscvBoard.Proofs.Machine.Reservation

/-!
Atomic operations on memory. An operation that completes has replaced the number at its address by
the result of the operation, and the destination register has the number that was there before. An
operation that traps has changed no register, and not the number at its address either.
-/

set_option autoImplicit false

namespace RiscvBoard

open Instr (widen)

private theorem LeafAt.contains {c : CsrFile} {ram : Ram} {i : Nat} (leaf : LeafAt c ram i)
    {addr : UInt64} {w : Width} (aligned : addr.toNat % w.bytes = 0)
    (narrow : w.bytes ≤ c.pagingMode.entryWidth.bytes)
    (covered : Region.Covers ⟨addr, w.bytes⟩ i) : ram.contains addr w.bytes := by
  obtain ⟨vaddr, kind, walk, -, walked, rfl⟩ := leaf
  obtain ⟨place, loaded, -, -⟩ := Walk.leaf_of_run walked
  have inside := Ram.contains_of_load loaded
  have start := Ram.toNat_eq_offset inside
  rw [Ram.contains_iff_toNat] at inside ⊢
  unfold Region.Covers at covered
  generalize c.pagingMode.entryWidth = v at place narrow inside
  have same : addr.toNat = walk.leafAddr.toNat := by
    cases w <;> cases v <;> simp only [Width.bytes] at * <;> omega
  omega

namespace Machine

/-! ### Locating -/

def namedAddr (m : Machine) (rs1 : Reg) : UInt64 :=
  m.xlen.truncate (m.hart.read rs1)

/-- How the search for the address of an atomic access ends. -/
inductive Locates (m : Machine) (pc : UInt64) (rs1 : Reg) (width : AtomicWidth)
    (kind : AccessKind) : EStateM.Result Trap Machine (UInt64 × UInt64) → Prop where
  /-- The address is misaligned, and not translated at all. -/
  | misaligned (odd : (m.namedAddr rs1).toNat % width.width.bytes ≠ 0) :
    Locates m pc rs1 width kind (.error (.ofException (.misaligned kind (m.namedAddr rs1)) pc) m)
  | fault {f : MemFault} {m₁ : Machine}
    (aligned : (m.namedAddr rs1).toNat % width.width.bytes = 0)
    (failed : translate (m.namedAddr rs1) kind m = .error f m₁) :
    Locates m pc rs1 width kind (.error (.ofFault pc f) m₁)
  | located {paddr : UInt64} {m₁ : Machine}
    (aligned : (m.namedAddr rs1).toNat % width.width.bytes = 0)
    (translated : translate (m.namedAddr rs1) kind m = .ok paddr m₁) :
    Locates m pc rs1 width kind (.ok (m.namedAddr rs1, paddr) m₁)

theorem locates (m : Machine) (pc : UInt64) (rs1 : Reg) (width : AtomicWidth) (kind : AccessKind) :
    Locates m pc rs1 width kind (atomicAddr pc rs1 width kind m) := by
  have aligned_iff : m.namedAddr rs1 % width.width.bytes.toUInt64 = 0 ↔
      (m.namedAddr rs1).toNat % width.width.bytes = 0 := by
    rw [← UInt64.toNat_inj, UInt64.toNat_mod]
    cases width <;> rfl
  rw [atomicAddr, bind_get, ← namedAddr]
  by_cases aligned : m.namedAddr rs1 % width.width.bytes.toUInt64 = 0
  · rw [if_neg (not_not_intro aligned)]
    cases translated : translate (m.namedAddr rs1) kind m with
    | error f m₁ =>
      rw [bind_of_error (at_of_error translated pc)]
      exact .fault (aligned_iff.1 aligned) translated
    | ok paddr m₁ =>
      rw [bind_of_ok (at_of_ok translated pc)]
      exact .located (aligned_iff.1 aligned) translated
  · rw [if_pos aligned]
    exact .misaligned (mt aligned_iff.2 aligned)

private theorem atomicAddr_of_misaligned {m : Machine} {rs1 : Reg} {width : AtomicWidth}
    (odd : (m.namedAddr rs1).toNat % width.width.bytes ≠ 0) (pc : UInt64) (kind : AccessKind) :
    atomicAddr pc rs1 width kind m =
      .error (.ofException (.misaligned kind (m.namedAddr rs1)) pc) m := by
  have ends := locates m pc rs1 width kind
  generalize atomicAddr pc rs1 width kind m = result at ends
  cases ends with
  | misaligned odd => rfl
  | fault aligned failed => exact absurd aligned odd
  | located aligned translated => exact absurd aligned odd

private theorem translate_bus_of_fault {m m₁ : Machine} {vaddr : UInt64} {kind : AccessKind}
    {f : MemFault} (failed : translate vaddr kind m = .error f m₁) : m₁.bus = m.bus := by
  unfold translate at failed
  dsimp only at failed
  split at failed
  next => contradiction
  next planned =>
    rw [← (EStateM.Result.error.inj failed).2, Mmu.updateLeaf_of_fault planned]

section Located

variable {m m₁ : Machine} {rs1 : Reg} {width : AtomicWidth} {vaddr paddr : UInt64}

private theorem unlocated_bus {kind : AccessKind} {t : Trap}
    (failed : atomicAddr m.hart.pc rs1 width kind m = .error t m₁) : m₁.bus = m.bus := by
  have ends := locates m m.hart.pc rs1 width kind
  rw [failed] at ends
  cases ends with
  | misaligned odd => rfl
  | fault aligned failed => exact translate_bus_of_fault failed

private theorem located_aligned {kind : AccessKind}
    (located : atomicAddr m.hart.pc rs1 width kind m = .ok (vaddr, paddr) m₁) :
    paddr.toNat % width.width.bytes = 0 := by
  have ends := locates m m.hart.pc rs1 width kind
  rw [located] at ends
  cases ends with
  | located aligned translated =>
    have place := toNat_translate_mod translated
    rw [namedAddr, Xlen.truncate_truncate] at place
    rw [namedAddr] at aligned
    cases width <;> simp only [AtomicWidth.width, Width.bytes] at aligned ⊢ <;> omega

theorem located_undisturbed
    (located : atomicAddr m.hart.pc rs1 width .store m = .ok (vaddr, paddr) m₁) :
    Undisturbed m m₁ ∧ SameDevices m m₁ :=
  ⟨((ends_atomicAddr m rs1 width (by decide)).of_ok located).1,
    (frames_atomicAddr m.hart.pc rs1 width .store m).of_ok located⟩

end Located

/-! ### The instruction -/

def operated (m : Machine) (op : AmoOp) (width : AtomicWidth) (rd rs2 : Reg)
    (paddr loaded : UInt64) : Machine :=
  let old := width.extend loaded
  (m.stored paddr width.width (op.eval width old (m.hart.read rs2))).setReg rd old

/-- How an atomic operation of `len` bytes ends. -/
inductive Operates (m : Machine) (op : AmoOp) (width : AtomicWidth) (rd rs1 rs2 : Reg)
    (len : UInt64) : EStateM.Result Trap Machine Unit → Prop where
  /-- The address is misaligned, or its translation fails. -/
  | unlocated {t : Trap} {m₁ : Machine}
    (failed : atomicAddr m.hart.pc rs1 width .store m = .error t m₁) :
    Operates m op width rd rs1 rs2 len (.error t m₁)
  /-- The board does not take the store, and then the load has not done anything either. -/
  | refused {vaddr paddr : UInt64} {m₁ : Machine}
    (located : atomicAddr m.hart.pc rs1 width .store m = .ok (vaddr, paddr) m₁)
    (refused : m₁.bus.acceptsStore paddr width.width = false) :
    Operates m op width rd rs1 rs2 len (.error (.ofFault m.hart.pc (.access .store vaddr)) m₁)
  | performed {vaddr paddr loaded : UInt64} {m₁ : Machine}
    (located : atomicAddr m.hart.pc rs1 width .store m = .ok (vaddr, paddr) m₁)
    (accepted : m₁.bus.acceptsStore paddr width.width = true)
    (loads : Bus.load paddr width.width m₁.bus =
      .ok loaded (m₁.bus.afterRead paddr width.width)) :
    Operates m op width rd rs1 rs2 len (.ok ()
      (({ m₁ with bus := m₁.bus.afterRead paddr width.width }.operated op width rd rs2 paddr
        loaded).setPc (m.hart.pc + len)))

private theorem execute_amo_of_unlocated {m m₁ : Machine} {width : AtomicWidth} {rs1 : Reg}
    {t : Trap}
    (failed : atomicAddr m.hart.pc rs1 width .store m = .error t m₁) (op : AmoOp) (rd rs2 : Reg)
    (raw : UInt32) (len : UInt64) :
    execute (.amo op width rd rs1 rs2) raw len m = .error t m₁ := by
  have run : executeAmo m.hart.pc op width rd rs1 rs2 m = .error t m₁ := bind_of_error failed _
  exact bind_of_error run _

theorem operates (m : Machine) (op : AmoOp) (width : AtomicWidth) (rd rs1 rs2 : Reg) (raw : UInt32)
    (len : UInt64) :
    Operates m op width rd rs1 rs2 len (execute (.amo op width rd rs1 rs2) raw len m) := by
  cases located : atomicAddr m.hart.pc rs1 width .store m with
  | error t m₁ =>
    rw [execute_amo_of_unlocated located]
    exact .unlocated located
  | ok addrs m₁ =>
    obtain ⟨vaddr, paddr⟩ := addrs
    cases accepted : m₁.bus.acceptsStore paddr width.width with
    | false =>
      have run : executeAmo m.hart.pc op width rd rs1 rs2 m =
          .error (.ofFault m.hart.pc (.access .store vaddr)) m₁ := by
        refine (bind_of_ok located _).trans ?_
        cases answered : m₁.bus.answers paddr width.width with
        | false => exact bind_of_error (at_of_error (loadPhys_of_not_answers answered _ _) _) _
        | true =>
          obtain ⟨loaded, loads⟩ := loadPhys_of_answers answered vaddr .store
          rw [Bus.afterRead_of_not_accepts accepted] at loads
          refine (bind_of_ok (at_of_ok loads _) _).trans ?_
          exact bind_of_error (at_of_error (storePhys_of_not_accepts accepted _ _) _) _
      have fails : execute (.amo op width rd rs1 rs2) raw len m = _ := bind_of_error run _
      rw [fails]
      exact .refused located accepted
    | true =>
      obtain ⟨loaded, loads⟩ := Bus.load_of_answers (Bus.answers_of_acceptsStore accepted)
      have read : loadPhys paddr vaddr width.width .store m₁ =
          .ok loaded { m₁ with bus := m₁.bus.afterRead paddr width.width } := by
        rw [loadPhys, loads]
      have kept : { m₁ with bus := m₁.bus.afterRead paddr width.width }.bus.acceptsStore paddr
          width.width = true := by
        obtain ⟨plic, uart, same⟩ := m₁.bus.afterRead_eq paddr width.width
        rw [same]
        exact accepted
      have stores := storePhys_of_accepts kept vaddr
        (op.eval width (width.extend loaded) (m₁.hart.read rs2))
      have run : executeAmo m.hart.pc op width rd rs1 rs2 m = _ :=
        (bind_of_ok located _).trans
          ((bind_of_ok (at_of_ok read _) _).trans (bind_of_ok (at_of_ok stores _) _))
      have completes : execute (.amo op width rd rs1 rs2) raw len m = _ := bind_of_ok run _
      rw [completes]
      exact .performed located accepted loads

/-! ### Its effect -/

/-- An atomic operation was performed on a number in memory. Memory `before` is the one that it
found, in which nothing but marks had been set. -/
structure Performed (m : Machine) (op : AmoOp) (width : AtomicWidth) (rd rs2 : Reg) (paddr : UInt64)
    (before : Ram) (m' : Machine) : Prop where
  marks : OnlyMarks m.hart.csrs m.bus.ram before
  outside : SameOutside (Region.Covers ⟨paddr, width.width.bytes⟩) before.bytes m'.bus.ram.bytes
  result : low width.bits (m'.bus.ram.read paddr width.width) =
    op.value (low width.bits (before.read paddr width.width)) (low width.bits (m.hart.read rs2))
  regs : ∀ r, m'.hart.read r =
    if r = rd ∧ rd ≠ 0 then widen (low width.bits (before.read paddr width.width))
    else m.hart.read r
  devices : m'.bus = { m.bus with ram := m'.bus.ram }

/-- An atomic operation was not performed. If its address was translated, the number there is the
one from before. -/
structure Unperformed (m : Machine) (width : AtomicWidth) (rs1 : Reg) (m' : Machine) : Prop where
  hart : m'.hart = m.hart
  marks : OnlyMarks m.hart.csrs m.bus.ram m'.bus.ram
  target : ∀ paddr, m.physicalAddr? rs1 width .store = some paddr →
    ∀ i, Region.Covers ⟨paddr, width.width.bytes⟩ i → m'.bus.ram.byteAt i = m.bus.ram.byteAt i
  untranslated : m.physicalAddr? rs1 width .store = none → m'.bus.ram = m.bus.ram
  devices : m'.bus = { m.bus with ram := m'.bus.ram }

section Effect

variable {m m₁ : Machine} {op : AmoOp} {width : AtomicWidth} {rd rs1 rs2 : Reg}
  {vaddr paddr : UInt64}

private theorem operated_hart (m : Machine) (op : AmoOp) (width : AtomicWidth) (rd rs2 : Reg)
    (paddr loaded : UInt64) : (m.operated op width rd rs2 paddr loaded).hart =
      m.hart.write rd (width.extend loaded) := by
  have kept : ∀ value, (m.stored paddr width.width value).hart = m.hart :=
    fun _ => (checkTohost_sameHart _ _ _).1
  show (m.stored paddr width.width _).hart.write rd _ = _
  rw [kept]

private theorem operated_bus (op : AmoOp) (rd rs2 : Reg) (loaded : UInt64)
    (inside : m.bus.ram.contains paddr width.width.bytes) :
    (m.operated op width rd rs2 paddr loaded).bus = { m.bus with
      ram := m.bus.ram.write paddr width.width (width.width.truncate
        (op.eval width (width.extend loaded) (m.hart.read rs2))) } := by
  show (m.stored paddr width.width _).bus = _
  rw [stored, checkTohost_bus, Bus.write, if_pos inside]

private theorem low_truncate (width : AtomicWidth) (value : UInt64) :
    low width.bits (width.width.truncate value) = low width.bits value := by
  have bits : 8 * width.width.bytes = width.bits := by cases width <;> rfl
  apply BitVec.eq_of_toNat_eq
  rw [toNat_low, toNat_low, Width.toNat_truncate, bits, Nat.mod_mod]

private theorem width_of_validFor {c : CsrFile}
    (valid : (Instr.amo op width rd rs1 rs2).validFor c.xlen) :
    width.bits ≤ c.xlen.bits ∧ width.width.bytes ≤ c.pagingMode.entryWidth.bytes := by
  cases width with
  | word => exact ⟨by cases c.xlen <;> decide, by cases c.pagingMode <;> decide⟩
  | double =>
    cases wide : c.xlen with
    | rv32 =>
      rw [wide] at valid
      contradiction
    | rv64 =>
      refine ⟨by decide, ?_⟩
      unfold CsrFile.pagingMode
      rw [wide]
      dsimp only
      split
      · decide
      · split <;> decide

private theorem performed_of_contains (fits : width.bits ≤ m.hart.xlen.bits)
    (undisturbed : Undisturbed m m₁) (devices : SameDevices m m₁)
    (inside : m₁.bus.ram.contains paddr width.width.bytes) (pc : UInt64) :
    Performed m op width rd rs2 paddr m₁.bus.ram
      ((m₁.operated op width rd rs2 paddr (m₁.bus.ram.read paddr width.width)).setPc pc) := by
  have bus := operated_bus op rd rs2 (m₁.bus.ram.read paddr width.width) inside
  have hart := m₁.operated_hart op width rd rs2 paddr (m₁.bus.ram.read paddr width.width)
  rw [undisturbed.hart] at bus hart
  generalize m₁.operated op width rd rs2 paddr _ = m₂ at bus hart
  constructor
  case marks => exact undisturbed.ram
  case outside =>
    show SameOutside _ _ m₂.bus.ram.bytes
    rw [bus]
    exact Ram.sameOutside_write inside _
  case result =>
    show low _ (m₂.bus.ram.read _ _) = _
    rw [bus]
    dsimp only
    rw [Ram.read_write_truncate inside, low_truncate, AmoOp.low_eval, width.low_extend]
  case regs =>
    intro r
    show m₂.hart.read r = _
    rw [hart, Hart.read_write, AtomicWidth.canonical_extend fits]
  case devices =>
    show m₂.bus = { m.bus with ram := m₂.bus.ram }
    rw [bus, devices.bus]

private theorem refused_target
    (narrow : width.width.bytes ≤ m.hart.csrs.pagingMode.entryWidth.bytes)
    (located : atomicAddr m.hart.pc rs1 width .store m = .ok (vaddr, paddr) m₁)
    (refused : m₁.bus.acceptsStore paddr width.width = false) {i : Nat}
    (covered : Region.Covers ⟨paddr, width.width.bytes⟩ i) :
    m₁.bus.ram.byteAt i = m.bus.ram.byteAt i := by
  have only := (located_undisturbed located).1.ram
  obtain same | ⟨leaf, -⟩ := only.byteAt i
  · exact same
  · have inside := leaf.contains (located_aligned located) narrow covered
    rw [← Ram.contains_of_size only.size] at inside
    rw [Bus.acceptsStore, inside, Bool.true_or] at refused
    contradiction

private theorem busLoad_of_contains {b : Bus} {w : Width} {loaded : UInt64}
    (inside : b.ram.contains paddr w.bytes)
    (loads : Bus.load paddr w b = .ok loaded (b.afterRead paddr w)) :
    loaded = b.ram.read paddr w ∧ b.afterRead paddr w = b := by
  rw [Bus.load, if_pos inside] at loads
  obtain ⟨value, same⟩ := EStateM.Result.ok.inj loads
  exact ⟨value.symm, same.symm⟩

/-- An atomic operation is performed, if its address is in memory, or it traps and is not. -/
private theorem ends_execute_amo (valid : (Instr.amo op width rd rs1 rs2).validFor m.xlen)
    (raw : UInt32) (len : UInt64) :
    Ends (execute (.amo op width rd rs1 rs2) raw len) m
      (fun _ m' => ∃ paddr, m.physicalAddr? rs1 width .store = some paddr ∧
        (m.bus.ram.contains paddr width.width.bytes →
          ∃ before, Performed m op width rd rs2 paddr before m'))
      (fun _ m' => Unperformed m width rs1 m') := by
  obtain ⟨fits, narrow⟩ := width_of_validFor (c := m.hart.csrs) valid
  have ends := operates m op width rd rs1 rs2 raw len
  unfold Ends
  generalize execute (.amo op width rd rs1 rs2) raw len m = result at ends
  cases ends with
  | @unlocated t m₁ failed =>
    have lost := physicalAddr?_of_failed failed
    have aborted := (ends_atomicAddr m rs1 width (by decide)).of_error failed
    have devices := (frames_atomicAddr m.hart.pc rs1 width .store m).of_error failed
    exact {
      hart := aborted.undisturbed.hart
      marks := aborted.undisturbed.ram
      target := fun _ found => nomatch found.symm.trans lost
      untranslated := fun _ => congrArg Bus.ram (unlocated_bus failed)
      devices := devices.bus }
  | @refused vaddr paddr m₁ located refused =>
    have found := physicalAddr?_of_located located
    obtain ⟨undisturbed, devices⟩ := located_undisturbed located
    refine ⟨undisturbed.hart, undisturbed.ram, ?_, ?_, devices.bus⟩
    · intro addr named i covered
      obtain rfl := Option.some.inj (named.symm.trans found)
      exact refused_target narrow located refused covered
    · exact fun lost => nomatch found.symm.trans lost
  | @performed vaddr paddr loaded m₁ located accepted loads =>
    obtain ⟨undisturbed, devices⟩ := located_undisturbed located
    refine ⟨paddr, physicalAddr?_of_located located, fun inside => ⟨m₁.bus.ram, ?_⟩⟩
    rw [← Ram.contains_of_size undisturbed.ram.size] at inside
    obtain ⟨rfl, same⟩ := busLoad_of_contains inside loads
    rw [same]
    exact performed_of_contains fits undisturbed devices inside _

private theorem execute_amo_of_contains (found : m.physicalAddr? rs1 width .store = some paddr)
    (inside : m.bus.ram.contains paddr width.width.bytes) (op : AmoOp) (rd rs2 : Reg)
    (raw : UInt32) (len : UInt64) :
    ∃ m', execute (.amo op width rd rs1 rs2) raw len m = .ok () m' := by
  have ends := operates m op width rd rs1 rs2 raw len
  generalize execute (.amo op width rd rs1 rs2) raw len m = result at ends
  cases ends with
  | unlocated failed => exact nomatch found.symm.trans (physicalAddr?_of_failed failed)
  | refused located refused =>
    obtain rfl := Option.some.inj (found.symm.trans (physicalAddr?_of_located located))
    rw [← Ram.contains_of_size (located_undisturbed located).1.ram.size] at inside
    rw [Bus.acceptsStore, inside, Bool.true_or] at refused
    contradiction
  | performed located accepted loads => exact ⟨_, rfl⟩

end Effect

/-- An atomic operation that completes on a number in memory has replaced its low bits by the result
of the operation, and its destination register has the old number, sign-extended. It has touched no
other byte of memory but for marks, and no other register. On an address in memory it does complete.
If it traps, no register and no byte at its address has changed. A misaligned address traps before
it is translated, and the machine stays as it is. -/
theorem execute_amo (m : Machine) {op : AmoOp} {width : AtomicWidth} {rd rs1 rs2 : Reg}
    (valid : (Instr.amo op width rd rs1 rs2).validFor m.xlen) (raw : UInt32) (len : UInt64) :
    Ends (execute (.amo op width rd rs1 rs2) raw len) m
      (fun _ m' => ∃ paddr, m.physicalAddr? rs1 width .store = some paddr ∧
        (m.bus.ram.contains paddr width.width.bytes →
          ∃ before, Performed m op width rd rs2 paddr before m'))
      (fun _ m' => Unperformed m width rs1 m') ∧
    (∀ paddr, m.physicalAddr? rs1 width .store = some paddr →
      m.bus.ram.contains paddr width.width.bytes →
      ∃ m', execute (.amo op width rd rs1 rs2) raw len m = .ok () m') ∧
    ((m.namedAddr rs1).toNat % width.width.bytes ≠ 0 →
      execute (.amo op width rd rs1 rs2) raw len m =
        .error (.ofException (.misaligned .store (m.namedAddr rs1)) m.hart.pc) m) := by
  refine ⟨ends_execute_amo valid raw len, ?_, ?_⟩
  · intro paddr found inside
    exact execute_amo_of_contains found inside op rd rs2 raw len
  · intro odd
    exact execute_amo_of_unlocated (atomicAddr_of_misaligned odd m.hart.pc .store) op rd rs2 raw len

def withCounter : Machine :=
  ((withCode #[0xff, 0xff, 0xff, 0xff, 0, 0, 0, 0]).setReg 10 Ram.base).setReg 11 1

/-- The minimum replaces the number, and the old number replaces the address. -/
theorem execute_amo_counter :
    ∃ before m', execute (.amo .minu .word 10 10 11) 0 4 withCounter = .ok () m' ∧
      Performed withCounter .minu .word 10 11 Ram.base before m' := by
  have valid : (Instr.amo .minu .word 10 10 11).validFor withCounter.xlen := rfl
  have found : withCounter.physicalAddr? 10 .word .store = some Ram.base := by decide +kernel
  have inside : withCounter.bus.ram.contains Ram.base AtomicWidth.word.width.bytes := by decide
  obtain ⟨effect, completes, -⟩ := execute_amo withCounter valid 0 4
  obtain ⟨m', done⟩ := completes _ found inside
  obtain ⟨paddr, located, performed⟩ := effect.of_ok done
  obtain rfl := Option.some.inj (found.symm.trans located)
  obtain ⟨before, performed⟩ := performed inside
  exact ⟨before, m', done, performed⟩

end Machine

end RiscvBoard
