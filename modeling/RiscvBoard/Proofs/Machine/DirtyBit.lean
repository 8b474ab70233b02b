import RiscvBoard.Proofs.Machine.AtomicOperations

/-!
When the dirty bit of a page table entry is set. The translation of a store sets it, before the
store is tried: a store whose second page faults, or that the board does not accept, has set it in
vain. In every other step that ends in a trap, no dirty bit is set.
-/

set_option autoImplicit false

namespace RiscvBoard

/-- Whether the entry whose first byte is at a position of memory has its dirty bit. -/
def Ram.isDirty (r : Ram) (i : Nat) : Bool :=
  r.byteAt i &&& 0x80 != 0

namespace Mmu

def StoreLeaf (c : CsrFile) (ram : Ram) (vaddr : UInt64) (i : Nat) : Prop :=
  ∃ w, isTranslated c .store ∧
    Walk.run ram c (c.xlen.truncate vaddr) .store (c.effectivePrivilege .store) = .ok w ∧
    Ram.offset w.leafAddr = i

section

variable {c : CsrFile} {r s : Ram} {u : Mmu} {vaddr : UInt64} {kind : AccessKind} {i : Nat}

private theorem StoreLeaf.of_onlyMarks (only : OnlyMarks c r s) (leaf : StoreLeaf c s vaddr i) :
    StoreLeaf c r vaddr i := by
  obtain ⟨w, translated, walked, rfl⟩ := leaf
  obtain ⟨v, before, same⟩ := Walk.run_marking_leafAddr only.marking walked
  exact ⟨v, translated, before, by rw [same]⟩

private theorem isDirty_accessed (b : UInt8) :
    ((b ||| 0x40) &&& 0x80 != 0) = (b &&& 0x80 != 0) := by
  have apart : (b ||| 0x40) &&& 0x80 = b &&& 0x80 := by
    apply UInt8.toBitVec_inj.1
    rw [UInt8.toBitVec_and, UInt8.toBitVec_or, UInt8.toBitVec_and, BitVec.and_or_distrib_right]
    exact BitVec.or_zero
  rw [apart]

private theorem isDirty_updateLeaf (dirty : (updateLeaf r c (u.plan r c vaddr kind)).isDirty i) :
    r.isDirty i ∨ kind = .store ∧ StoreLeaf c r vaddr i := by
  by_cases translated : isTranslated c kind
  swap
  · simp only [plan, if_neg translated] at dirty
    exact .inl dirty
  simp only [plan, if_pos translated] at dirty
  cases cached : u.cached? c (c.xlen.truncate vaddr) kind with
  | some entry =>
    rw [cached] at dirty
    exact .inl dirty
  | none =>
    cases walked : Walk.run r c (c.xlen.truncate vaddr) kind (c.effectivePrivilege kind) with
    | error f =>
      rw [cached, walked] at dirty
      exact .inl dirty
    | ok w =>
      simp only [cached, walked] at dirty
      obtain same | ⟨place, marked⟩ := updateLeaf_byteAt walked i
      · rw [Ram.isDirty, same] at dirty
        exact .inl dirty
      · rw [Ram.isDirty, marked] at dirty
        cases kind with
        | store => exact .inr ⟨rfl, w, translated, walked, place⟩
        | load | fetch => exact .inl ((isDirty_accessed _).symm.trans dirty)

end

end Mmu

namespace Machine

/-- The translation of a store to an address uses the leaf whose first byte is at a position. -/
def StoreLeaf (m : Machine) (vaddr : UInt64) (i : Nat) : Prop :=
  Mmu.StoreLeaf m.hart.csrs m.bus.ram vaddr i

def DirtiesAmong (among : Nat → Prop) (m m' : Machine) : Prop :=
  ∀ i, m'.bus.ram.isDirty i → m.bus.ram.isDirty i ∨ among i

def NoneDirtied (m m' : Machine) : Prop :=
  ∀ i, m'.bus.ram.isDirty i → m.bus.ram.isDirty i

section Dirtied

variable {m m₁ m₂ : Machine} {among wider : Nat → Prop}

private theorem NoneDirtied.of_ram (same : m₁.bus.ram = m.bus.ram) : NoneDirtied m m₁ := by
  intro i dirty
  rwa [same] at dirty

private theorem NoneDirtied.trans (first : NoneDirtied m m₁) (second : NoneDirtied m₁ m₂) :
    NoneDirtied m m₂ :=
  fun i dirty => first i (second i dirty)

private theorem NoneDirtied.dirtiesAmong (none : NoneDirtied m m₁) : DirtiesAmong among m m₁ :=
  fun i dirty => .inl (none i dirty)

private theorem DirtiesAmong.then (first : DirtiesAmong among m m₁) (rest : NoneDirtied m₁ m₂) :
    DirtiesAmong among m m₂ :=
  fun i dirty => first i (rest i dirty)

private theorem DirtiesAmong.mono (dirties : DirtiesAmong among m m₁)
    (inside : ∀ i, among i → wider i) : DirtiesAmong wider m m₁ :=
  fun i dirty => (dirties i dirty).imp_right (inside i)

private theorem StoreLeaf.of_undisturbed (same : Undisturbed m m₁) {vaddr : UInt64} {i : Nat}
    (leaf : m₁.StoreLeaf vaddr i) : m.StoreLeaf vaddr i := by
  unfold StoreLeaf at leaf
  rw [same.hart] at leaf
  exact Mmu.StoreLeaf.of_onlyMarks same.ram leaf

end Dirtied

/-! ### What reads -/

private theorem translate_noneDirtied (vaddr : UInt64) (kind : AccessKind) (reads : kind ≠ .store) :
    Frames NoneDirtied (translate vaddr kind) := by
  intro m
  have none (i : Nat)
      (dirty : (Mmu.updateLeaf m.bus.ram m.hart.csrs
        (m.mmu.plan m.bus.ram m.hart.csrs vaddr kind)).isDirty i) : m.bus.ram.isDirty i :=
    (Mmu.isDirty_updateLeaf dirty).resolve_right fun stores => reads stores.1
  cases result : (m.mmu.plan m.bus.ram m.hart.csrs vaddr kind).result <;>
    simp only [Ends, translate, result] <;> exact none

private theorem loadPhys_noneDirtied (paddr vaddr : UInt64) (w : Width) (kind : AccessKind) :
    Frames NoneDirtied (loadPhys paddr vaddr w kind) := by
  intro m
  unfold Ends
  cases answered : m.bus.answers paddr w with
  | true =>
    obtain ⟨value, loaded⟩ := loadPhys_of_answers answered vaddr kind
    obtain ⟨plic, uart, read⟩ := m.bus.afterRead_eq paddr w
    rw [loaded, read]
    exact .of_ram rfl
  | false =>
    rw [loadPhys_of_not_answers answered]
    exact .of_ram rfl

private theorem isQuietFrame_noneDirtied : IsQuietFrame NoneDirtied where
  refl _ := .of_ram rfl
  trans := NoneDirtied.trans
  unchanged _ _ _ := .of_ram rfl
  translate := translate_noneDirtied
  loadPhys := loadPhys_noneDirtied

/-! ### Stores -/

/-- The translation of a store makes its own leaf dirty, unless it fails. -/
private theorem translate_dirties (vaddr : UInt64) (m : Machine) :
    Ends (translate vaddr .store) m (fun _ => DirtiesAmong (m.StoreLeaf vaddr) m)
      (fun _ => NoneDirtied m) := by
  cases planned : (m.mmu.plan m.bus.ram m.hart.csrs vaddr .store).result with
  | ok p =>
    simp only [Ends, translate, planned]
    intro i dirty
    exact (Mmu.isDirty_updateLeaf dirty).imp_right And.right
  | error f =>
    simp only [Ends, translate, planned, Mmu.updateLeaf_of_fault planned]
    exact .of_ram rfl

/-- How a store that is translated, at an address or in its first page at least, is not performed
after all: with a fault, and in vain for the leaf whose first byte is at a position. -/
inductive StoreInVain (m : Machine) (addr : UInt64) (w : Width) : MemFault → Nat → Prop where
  /-- The store crosses into the next page, which faults. -/
  | nextPage {p : UInt64} {f : MemFault} {m₁ m₂ : Machine} {i : Nat}
    (first : translate addr .store m = .ok p m₁)
    (crosses : ¬ (pageOffset addr).toNat + w.bytes ≤ pageSize)
    (second : translate (nextPage m.xlen addr) .store m₁ = .error f m₂)
    (leaf : m.StoreLeaf addr i) : StoreInVain m addr w f i
  /-- The board does not accept each byte. -/
  | refused {span : Span} {m₁ : Machine} {k i : Nat}
    (translated : translateSpan addr w .store m = .ok span m₁)
    (short : k < w.bytes) (refused : m₁.bus.acceptsStore (span.byteAddr k) .byte = false)
    (leaf : m.StoreLeaf addr i ∨ span.next.isSome ∧ m.StoreLeaf (nextPage m.xlen addr) i) :
    StoreInVain m addr w (.access .store addr) i

private theorem translateSpan_dirties {m m₁ : Machine} {addr : UInt64} {w : Width} {span : Span}
    (translated : translateSpan addr w .store m = .ok span m₁) :
    DirtiesAmong (fun i => m.StoreLeaf addr i ∨
      span.next.isSome ∧ m.StoreLeaf (nextPage m.xlen addr) i) m m₁ := by
  have ends := translatesSpan m addr w .store
  rw [translated] at ends
  cases ends with
  | whole first inside => exact ((translate_dirties addr m).of_ok first).mono fun i => .inl
  | @split p q m₂ _ first crosses second =>
    have same := (ends_translate addr .store m).of_ok first
    intro i dirty
    obtain before | leaf := (translate_dirties _ m₂).of_ok second i dirty
    · exact ((translate_dirties addr m).of_ok first i before).imp_right .inl
    · exact .inr (.inr ⟨rfl, leaf.of_undisturbed same⟩)

private theorem store_dirties (vaddr : UInt64) (w : Width) (value : UInt64) (m : Machine) :
    Ends (store vaddr w value) m (fun _ _ => True)
      (fun f => DirtiesAmong (StoreInVain m (m.xlen.truncate vaddr) w f) m) := by
  have ends := translatesSpan m (m.xlen.truncate vaddr) w .store
  unfold Ends
  cases translated : translateSpan (m.xlen.truncate vaddr) w .store m with
  | error f m₂ =>
    rw [store_of_fault value translated]
    rw [translated] at ends
    cases ends with
    | firstFault first => exact ((translate_dirties _ m).of_error first).dirtiesAmong
    | nextFault first crosses second =>
      have dirties := (translate_dirties _ m).of_ok first
      have rest := (translate_dirties _ _).of_error second
      exact (dirties.then rest).mono fun i => .nextPage first crosses second
  | ok span m₁ =>
    obtain ⟨-, m', done⟩ | ⟨missed, failed⟩ := store_cases translated value
    · rw [done]
      trivial
    · rw [failed]
      obtain ⟨k, short, refused⟩ := exists_refused translated missed
      exact (translateSpan_dirties translated).mono fun i => .refused translated short refused

/-! ### Instructions -/

/-- The instructions that can make a leaf dirty in vain, with the trap that they raise then. -/
inductive DirtiedInVain (m : Machine) : Instr → Trap → Nat → Prop where
  /-- A store is translated in its first page at least, and not performed. -/
  | store {width : Width} {rs1 rs2 : Reg} {off : BitVec 12} {f : MemFault} {i : Nat}
    (vain : StoreInVain m (m.xlen.truncate (m.hart.read rs1 + Instr.widen off)) width f i) :
    DirtiedInVain m (.store width rs1 rs2 off) (.ofFault m.hart.pc f) i
  /-- A store-conditional holds its reservation, on an address that does not accept the store. -/
  | conditional {width : AtomicWidth} {rd rs1 rs2 : Reg} {vaddr paddr : UInt64} {m₁ : Machine}
    {i : Nat} (located : atomicAddr m.hart.pc rs1 width .store m = .ok (vaddr, paddr) m₁)
    (held : m₁.reservation = some paddr)
    (refused : m₁.bus.acceptsStore paddr width.width = false) (leaf : m.StoreLeaf vaddr i) :
    DirtiedInVain m (.sc width rd rs1 rs2) (.ofFault m.hart.pc (.access .store vaddr)) i
  /-- An atomic operation is on an address that does not accept its store. -/
  | operation {op : AmoOp} {width : AtomicWidth} {rd rs1 rs2 : Reg} {vaddr paddr : UInt64}
    {m₁ : Machine} {i : Nat}
    (located : atomicAddr m.hart.pc rs1 width .store m = .ok (vaddr, paddr) m₁)
    (refused : m₁.bus.acceptsStore paddr width.width = false) (leaf : m.StoreLeaf vaddr i) :
    DirtiedInVain m (.amo op width rd rs1 rs2) (.ofFault m.hart.pc (.access .store vaddr)) i

private theorem atomicAddr_dirties (pc : UInt64) (rs1 : Reg) (width : AtomicWidth) (m : Machine) :
    Ends (atomicAddr pc rs1 width .store) m
      (fun addrs => DirtiesAmong (m.StoreLeaf addrs.1) m) (fun _ => NoneDirtied m) := by
  have ends := locates m pc rs1 width .store
  unfold Ends
  generalize atomicAddr pc rs1 width .store m = result at ends
  cases ends with
  | misaligned odd => exact .of_ram rfl
  | fault aligned failed => exact (translate_dirties _ m).of_error failed
  | located aligned translated => exact (translate_dirties _ m).of_ok translated

section Atomic

variable (m : Machine) (width : AtomicWidth) (rd rs1 rs2 : Reg) (raw : UInt32) (len : UInt64)

private theorem execute_sc_dirties :
    Ends (execute (.sc width rd rs1 rs2) raw len) m (fun _ _ => True)
      (fun t => DirtiesAmong (DirtiedInVain m (.sc width rd rs1 rs2) t) m) := by
  have dirties := atomicAddr_dirties m.hart.pc rs1 width m
  have ends := storesConditionally m width rd rs1 rs2 raw len
  unfold Ends
  generalize execute (.sc width rd rs1 rs2) raw len m = result at ends
  cases ends with
  | unlocated failed => exact (dirties.of_error failed).dirtiesAmong
  | refused located held refused =>
    exact (dirties.of_ok located).mono fun i => .conditional located held refused
  | lost located lost => trivial
  | stored located held accepted => trivial

private theorem execute_amo_dirties (op : AmoOp) :
    Ends (execute (.amo op width rd rs1 rs2) raw len) m (fun _ _ => True)
      (fun t => DirtiesAmong (DirtiedInVain m (.amo op width rd rs1 rs2) t) m) := by
  have dirties := atomicAddr_dirties m.hart.pc rs1 width m
  have ends := operates m op width rd rs1 rs2 raw len
  unfold Ends
  generalize execute (.amo op width rd rs1 rs2) raw len m = result at ends
  cases ends with
  | unlocated failed => exact (dirties.of_error failed).dirtiesAmong
  | refused located refused =>
    exact (dirties.of_ok located).mono fun i => .operation located refused
  | performed located accepted loads => trivial

end Atomic

private theorem execute_dirties (i : Instr) (raw : UInt32) (len : UInt64) (m : Machine) :
    Ends (execute i raw len) m (fun _ _ => True) (fun t => DirtiesAmong (DirtiedInVain m i t) m) := by
  have quiet := isQuietFrame_noneDirtied
  have frames (accesses : AccessFrames NoneDirtied i) : Ends (execute i raw len) m
      (fun _ _ => True) (fun t => DirtiesAmong (DirtiedInVain m i t) m) :=
    (quiet.execute accesses raw len m).mono (fun _ _ _ => trivial) fun _ _ =>
      NoneDirtied.dirtiesAmong
  cases i with
  | store width rs1 rs2 off =>
    have stored := store_dirties (m.hart.read rs1 + Instr.widen off) width (m.hart.read rs2) m
    have ran : Ends ((store (m.hart.read rs1 + Instr.widen off) width (m.hart.read rs2)).at
        m.hart.pc) m (fun _ _ => True)
        (fun t => DirtiesAmong (DirtiedInVain m (.store width rs1 rs2 off) t) m) := by
      unfold Ends
      cases done : store (m.hart.read rs1 + Instr.widen off) width (m.hart.read rs2) m with
      | ok _ m₁ =>
        rw [at_of_ok done]
        trivial
      | error f m₁ =>
        rw [at_of_error done]
        exact (stored.of_error done).mono fun i => .store
    exact ran.bind fun _ _ _ => trivial
  | sc width rd rs1 rs2 => exact execute_sc_dirties m width rd rs1 rs2 raw len
  | amo op width rd rs1 rs2 =>
    exact execute_amo_dirties m width rd rs1 rs2 raw len op
  | lr width rd rs1 =>
    exact frames fun pc => quiet.executeLr (fun _ _ => .of_ram rfl) pc width rd rs1
  | _ => exact frames trivial

/-! ### Steps -/

/-- A step that ends in a trap makes a leaf dirty only if its instruction is a store, a
store-conditional or an atomic operation that was translated through this leaf and not performed,
and the trap is its fault. Interrupts, and the traps of all other instructions, make no leaf
dirty. -/
private theorem trapped_dirties {m m' : Machine} {t : Trap} (stepped : step m = .ok (.trapped t) m')
    {i : Nat} (clean : m.begun.bus.ram.isDirty i = false) (dirty : m'.bus.ram.isDirty i = true) :
    ∃ instr fetched m₁, m.executing? = some (instr, fetched, m₁) ∧ DirtiedInVain m₁ instr t i := by
  have frame := isQuietFrame_noneDirtied.toIsTranslationFrame
  have taken {t₁ : Trap} {m₂ : Machine} (ends : step m = trapped t₁ m₂) :
      t₁ = t ∧ m₂.bus.ram.isDirty i := by
    obtain entered | ⟨fatal, failed⟩ := trapped_cases t₁ m₂
    · rw [ends, entered] at stepped
      obtain ⟨same, rfl⟩ := EStateM.Result.ok.inj stepped
      exact ⟨StepOutcome.trapped.inj same, dirty⟩
    · rw [ends, failed] at stepped
      contradiction
  have impossible {m₁ : Machine} (none : NoneDirtied m.begun m₁) : ¬ m₁.bus.ram.isDirty i :=
    fun before => Bool.false_ne_true (clean.symm.trans (none i before))
  cases executes : m.executing? with
  | none =>
    obtain ⟨reason, halted⟩ | ⟨t₁, m₁, none, ends⟩ := step_of_idle frame executes
    · rw [halted] at stepped
      exact nomatch (EStateM.Result.ok.inj stepped).1
    · exact absurd (taken ends).2 (impossible none)
  | some found =>
    obtain ⟨instr, fetched, m₁⟩ := found
    have start := executing_frames frame executes
    have changes := execute_dirties instr fetched.raw fetched.length m₁
    cases ran : execute instr fetched.raw fetched.length m₁ with
    | ok _ m₂ =>
      obtain ⟨outcome, completed, untrapped⟩ := step_of_completed executes ran
      rw [stepped] at completed
      exact absurd (EStateM.Result.ok.inj completed).1.symm (untrapped t)
    | error t₁ m₂ =>
      obtain ⟨rfl, after⟩ := taken (step_of_failed executes ran)
      obtain before | vain := changes.of_error ran i after
      · exact absurd before (impossible start)
      · exact ⟨instr, fetched, m₁, rfl, vain⟩

/-- The dirty bit is set by the translation of a store, and by no other one. A step that ends in a
trap sets it only in vain: its instruction is a store, a store-conditional or an atomic operation
that was translated through the leaf and then not performed. -/
theorem dirtied_by_stores (m : Machine) :
    (∀ vaddr kind, Ends (translate vaddr kind) m
      (fun _ => DirtiesAmong (fun i => kind = .store ∧ m.StoreLeaf vaddr i) m)
      (fun _ => NoneDirtied m)) ∧
    ∀ m' t i, step m = .ok (.trapped t) m' → m.begun.bus.ram.isDirty i = false →
      m'.bus.ram.isDirty i = true →
      ∃ instr fetched m₁, m.executing? = some (instr, fetched, m₁) ∧
        DirtiedInVain m₁ instr t i := by
  constructor
  · intro vaddr kind
    by_cases stores : kind = .store
    · subst stores
      exact (translate_dirties vaddr m).imp fun _ _ dirties => dirties.mono fun _ leaf => ⟨rfl, leaf⟩
    · exact (translate_noneDirtied vaddr kind stores m).imp fun _ _ => NoneDirtied.dirtiesAmong
  · intro m' t i stepped clean dirty
    exact trapped_dirties stepped clean dirty

/-- A machine whose table of pages is its own next level, and whose program stores across the end of
the page that holds the table; the next page is not mapped. -/
def withCrossingStore : Machine :=
  let m := withCode #[0x01, 0, 0, 0x20, 0, 0, 0, 0, 0x07, 0, 0, 0x20, 0, 0, 0, 0,
    0, 0, 0, 0, 0, 0, 0, 0, 0x23, 0xaf, 0x00, 0xfe]
  let c := { m.hart.csrs with satp := 0x8000000000080000, mstatus := 0x20800, mtvec := 0x80000000 }
  ((m.setCsrs c).setReg 1 0x2000).setPc 0x80000018

private theorem step_withCrossingStore : step withCrossingStore =
    .ok (.trapped (.ofException (.pageFault .store 0x2000) 0x80000018))
      withCrossingStore.afterStep :=
  step_of_outcome? (by decide +kernel)

/-- The page fault of the second page finds the leaf of the first one dirty. -/
theorem dirtied_by_stores_crossing :
    ∃ t fetched m₁, step withCrossingStore = .ok (.trapped t) withCrossingStore.afterStep ∧
      withCrossingStore.executing? = some (.store .word 1 0 0xffe, fetched, m₁) ∧
      DirtiedInVain m₁ (.store .word 1 0 0xffe) t 8 := by
  have stores : withCrossingStore.executing?.map Prod.fst = some (.store .word 1 0 0xffe) := by
    decide +kernel
  obtain ⟨⟨_, fetched, m₁⟩, executes, rfl⟩ := Option.map_eq_some_iff.1 stores
  obtain ⟨instr, fetched', m₁', same, vain⟩ := (dirtied_by_stores withCrossingStore).2 _ _ 8
    step_withCrossingStore (by decide +kernel) (by decide +kernel)
  rw [executes] at same
  cases same
  exact ⟨_, fetched, m₁, step_withCrossingStore, executes, vain⟩

/-- Not only stores that are performed set the dirty bit. -/
theorem dirtied_by_faulting_store :
    ¬ ∀ (m m' : Machine) (t : Trap) (i : Nat), step m = .ok (.trapped t) m' →
      LeafAt m.begun.hart.csrs m.begun.bus.ram i → m.begun.bus.ram.isDirty i = false →
      m'.bus.ram.isDirty i = false := by
  intro claim
  have leaf : LeafAt withCrossingStore.begun.hart.csrs withCrossingStore.begun.bus.ram 8 :=
    ⟨0x1ffe, .store, ⟨0x80000ffe, 0x20000007, 0x80000008, some 0x200000c7⟩, by decide +kernel,
      by decide +kernel, rfl⟩
  have kept := claim _ _ _ 8 step_withCrossingStore leaf (by decide +kernel)
  have dirty : withCrossingStore.afterStep.bus.ram.isDirty 8 = true := by decide +kernel
  rw [kept] at dirty
  contradiction

end Machine

end RiscvBoard
