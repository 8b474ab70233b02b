import RiscvBoard.Machine.Step
import RiscvBoard.Proofs.Csr.Access
import RiscvBoard.Proofs.Machine.Memory

/-!
What one instruction does. An instruction that completes changes the hart in one of five ways; an
instruction that traps disturbs nothing, and its trap is an exception at the program counter.
-/

set_option autoImplicit false

namespace RiscvBoard

private theorem IsEven.widen {n : Nat} (off : BitVec n) :
    IsEven (Instr.widen (Instr.byteOffset off)) := by
  have bit : ((Instr.byteOffset off).signExtend 64).getLsbD 0 = false := by
    rw [BitVec.getLsbD_signExtend, Instr.byteOffset, BitVec.getLsbD_append]
    simp
  have parity := Nat.testBit_zero (Instr.widen (Instr.byteOffset off)).toNat
  rw [show (Instr.widen (Instr.byteOffset off)).toNat.testBit 0 = false from bit] at parity
  have odd := of_decide_eq_false parity.symm
  rw [isEven_iff]
  omega

/-! ### Traps -/

/-- What is known of an exception that an instruction raises: its value has the width of a register,
and the instruction itself is not misaligned. -/
def Exception.Sound (xlen : Xlen) (pc : UInt64) (e : Exception) : Prop :=
  (xlen.Fits pc → xlen.Fits (e.value pc)) ∧ (IsEven pc → ∀ addr, e ≠ .misaligned .fetch addr)

namespace Machine

/-- How an instruction traps: it disturbs nothing and raises an exception at the program counter. -/
structure Aborted (m : Machine) (t : Trap) (m' : Machine) : Prop where
  undisturbed : Undisturbed m m'
  exception : ∃ e : Exception, t = .ofException e m.hart.pc ∧ e.Sound m.xlen m.hart.pc

namespace Aborted

variable {m m₁ m₂ : Machine} {t : Trap}

private theorem after (same : Undisturbed m m₁) (aborted : Aborted m₁ t m₂) : Aborted m t m₂ := by
  obtain ⟨rest, e, rfl, sound⟩ := aborted
  rw [same.xlen, same.hart] at sound
  exact ⟨same.trans rest, e, by rw [same.hart], sound⟩

private theorem of_failed {f : MemFault} (failed : Failed m f m₁) :
    Aborted m (.ofFault m.hart.pc f) m₁ := by
  obtain ⟨same, fits⟩ := failed
  refine ⟨same, .ofFault f, rfl, fun _ => ?_, fun _ addr => ?_⟩
  · cases f <;> exact fits
  · cases f <;> exact nofun

private theorem illegal (raw : UInt32) (m : Machine) :
    Aborted m (.ofException (.illegalInstruction raw) m.hart.pc) m := by
  refine ⟨.refl m, _, rfl, fun _ => ?_, fun _ _ => nofun⟩
  apply Xlen.fits_of_within
  apply Within.of_and_eq
  rw [← UInt64.toNat_inj, UInt64.toNat_and]
  exact (Nat.and_two_pow_sub_one_eq_mod _ 32).trans (Nat.mod_eq_of_lt raw.toNat_lt)

end Aborted

private theorem ends_after {α : Type} {x : Exec α} {m m₁ : Machine} {done : α → Machine → Prop}
    (same : Undisturbed m m₁) (ends : Ends x m₁ done (Aborted m₁)) : Ends x m₁ done (Aborted m) :=
  ends.mono (fun _ _ done => done) (fun _ _ aborted => aborted.after same)

private theorem ends_at {α : Type} {x : Access α} {m : Machine} {done : α → Machine → Prop}
    (ends : Ends x m done (Failed m)) : Ends (x.at m.hart.pc) m done (Aborted m) := by
  unfold Ends Access.at at *
  cases result : x m with
  | ok a m₁ =>
    rw [result] at ends
    exact ends
  | error f m₁ =>
    rw [result] at ends
    exact .of_failed ends

/-! ### Groups of instructions -/

def Wrote (m m' : Machine) : Prop :=
  ∃ rd value, m'.hart = m.hart.write rd value

private theorem Wrote.of_same {m m' : Machine} (same : m'.hart = m.hart) : Wrote m m' :=
  ⟨0, 0, same⟩

private theorem ends_writeReg {m m₁ : Machine} (same : m₁.hart = m.hart) (rd : Reg)
    (value : UInt64) : Ends (writeReg rd value) m₁ (fun _ m' => Wrote m m') (Aborted m) :=
  ⟨rd, value, by rw [← same]; rfl⟩

theorem ends_atomicAddr (m : Machine) (rs1 : Reg) (width : AtomicWidth) {kind : AccessKind}
    (data : kind ≠ .fetch) :
    Ends (atomicAddr m.hart.pc rs1 width kind) m
      (fun addrs m' => Undisturbed m m' ∧ m.xlen.Fits addrs.1) (Aborted m) := by
  have fits := m.xlen.fits_truncate (m.hart.read rs1)
  unfold atomicAddr
  rw [ends_bind, ends_get]
  dsimp only
  split
  · refine ⟨.refl m, _, rfl, fun _ => fits, fun _ addr same => data ?_⟩
    exact (Exception.misaligned.inj same).1
  · refine (ends_at (ends_translate _ kind m)).bind ?_
    intro paddr m₁ same
    exact ⟨same, fits⟩

private theorem ends_at_after {α : Type} {x : Access α} {m m₁ : Machine} {done : α → Machine → Prop}
    (same : Undisturbed m m₁) (ends : Ends x m₁ done (Failed m₁)) :
    Ends (x.at m.hart.pc) m₁ done (Aborted m) := by
  rw [← same.hart]
  exact ends_after same (ends_at ends)

private theorem ends_executeLr (m : Machine) (width : AtomicWidth) (rd rs1 : Reg) :
    Ends (executeLr m.hart.pc width rd rs1) m (fun _ m' => Wrote m m') (Aborted m) := by
  unfold executeLr
  refine (ends_atomicAddr m rs1 width (by decide)).bind ?_
  rintro ⟨vaddr, paddr⟩ m₁ ⟨same, fits⟩
  have fits : m₁.xlen.Fits vaddr := by rwa [same.xlen]
  refine (ends_at_after same (ends_loadPhys fits width.width .load)).bind ?_
  intro value m₂ loaded
  rw [ends_bind, ends_modify]
  exact ends_writeReg (loaded.hart.trans same.hart) rd _

private theorem ends_executeSc (m : Machine) (width : AtomicWidth) (rd rs1 rs2 : Reg) :
    Ends (executeSc m.hart.pc width rd rs1 rs2) m (fun _ m' => Wrote m m') (Aborted m) := by
  unfold executeSc
  refine (ends_atomicAddr m rs1 width (by decide)).bind ?_
  rintro ⟨vaddr, paddr⟩ m₁ ⟨same, fits⟩
  rw [ends_bind, takeReservation, ends_modifyGet]
  have same : Undisturbed m { m₁ with reservation := none } := ⟨same.1, same.2, same.3, same.4⟩
  generalize { m₁ with reservation := none } = m₂ at same
  have fits : m₂.xlen.Fits vaddr := by rwa [same.xlen]
  split
  · rw [ends_bind, readReg, ends_bind, ends_get, ends_pure, ends_bind]
    refine (ends_at_after same (ends_storePhys fits width.width _)).imp ?_
    intro _ m₃ stored
    exact ends_writeReg (stored.1.trans same.hart) rd _
  · exact ends_writeReg same.hart rd _

private theorem ends_executeAmo (m : Machine) (op : AmoOp) (width : AtomicWidth)
    (rd rs1 rs2 : Reg) :
    Ends (executeAmo m.hart.pc op width rd rs1 rs2) m (fun _ m' => Wrote m m') (Aborted m) := by
  unfold executeAmo
  refine (ends_atomicAddr m rs1 width (by decide)).bind ?_
  rintro ⟨vaddr, paddr⟩ m₁ ⟨same, fits⟩
  have fits₁ : m₁.xlen.Fits vaddr := by rwa [same.xlen]
  refine (ends_at_after same (ends_loadPhys fits₁ width.width .store)).bind ?_
  intro value m₂ loaded
  have same := same.trans loaded
  have fits₂ : m₂.xlen.Fits vaddr := by rwa [same.xlen]
  rw [ends_bind, readReg, ends_bind, ends_get, ends_pure, ends_bind]
  refine (ends_at_after same (ends_storePhys fits₂ width.width _)).imp ?_
  intro _ m₃ stored
  exact ends_writeReg (stored.1.trans same.hart) rd _

end Machine

/-! ### Control registers -/

def CsrOperand.value (h : Hart) : CsrOperand → UInt64
  | reg rs1 => h.read rs1
  | imm value => UInt64.ofNat value.toNat

def CsrOperand.writes : CsrOperand → Bool
  | reg rs1 => rs1 != 0
  | imm value => value != 0

def CsrOp.change (op : CsrOp) (number : UInt16) (operand : CsrOperand) (h : Hart) :
    Except CsrError CsrFile :=
  match op with
  | .write => h.csrs.write number (operand.value h)
  | .set => if operand.writes then h.csrs.setBits number (operand.value h) else .ok h.csrs
  | .clear => if operand.writes then h.csrs.clearBits number (operand.value h) else .ok h.csrs

/-- What a control register instruction that completes does to the hart, up to the program
counter. -/
inductive Hart.Controls (op : CsrOp) (rd : Reg) (number : UInt16) (operand : CsrOperand)
    (h : Hart) : Hart → Prop where
  /-- A plain write for register 0 does not read. -/
  | unread (c : CsrFile) (plain : op = .write) (dropped : rd = 0)
    (changed : op.change number operand h = .ok c) :
    Controls op rd number operand h { h with csrs := c }
  | read (c : CsrFile) (old : UInt64) (shown : h.csrs.read number = .ok old)
    (changed : op.change number operand h = .ok c) :
    Controls op rd number operand h (Hart.write { h with csrs := c } rd old)

def CsrOp.combine : CsrOp → UInt64 → UInt64 → UInt64
  | write, _, value => value
  | set, old, value => old ||| value
  | clear, old, value => old &&& ~~~value

def CsrOp.Writes (op : CsrOp) (operand : CsrOperand) : Prop :=
  op = .write ∨ operand.writes

theorem CsrOp.change_eq_ok {op : CsrOp} {number : UInt16} {operand : CsrOperand} {h : Hart}
    {c : CsrFile} (changed : op.change number operand h = .ok c) :
    ¬ op.Writes operand ∧ c = h.csrs ∨
    op.Writes operand ∧ ∃ csr, h.csrs.Grants number csr ∧
      h.csrs.write number (op.combine (h.csrs.get csr) (operand.value h)) = .ok c := by
  cases op with
  | write =>
    obtain ⟨csr, granted, -⟩ := CsrFile.write_eq_ok_iff.1 changed
    exact .inr ⟨.inl rfl, csr, granted, changed⟩
  | set =>
    simp only [change] at changed
    split at changed
    next some =>
      have written := CsrFile.write_read_eq_ok (f := (· ||| operand.value h)) changed
      exact .inr ⟨.inr some, written⟩
    next none => exact .inl ⟨by simp [Writes, none], (Except.ok.inj changed).symm⟩
  | clear =>
    simp only [change] at changed
    split at changed
    next some =>
      have written := CsrFile.write_read_eq_ok (f := (· &&& ~~~operand.value h)) changed
      exact .inr ⟨.inr some, written⟩
    next none => exact .inl ⟨by simp [Writes, none], (Except.ok.inj changed).symm⟩

namespace Machine

private theorem ends_readCsr {m m₁ : Machine} {illegal : Trap} (aborted : Aborted m illegal m₁)
    (number : UInt16) :
    Ends (readCsr illegal number) m₁
      (fun old m' => m₁.hart.csrs.read number = .ok old ∧ m' = m₁) (Aborted m) := by
  unfold readCsr
  rw [ends_bind, ends_get]
  cases m₁.hart.csrs.read number with
  | ok value => exact ⟨rfl, rfl⟩
  | error e => exact aborted

private theorem ends_updateCsr {m : Machine} {illegal : Trap} (aborted : Aborted m illegal m)
    (number : UInt16) (change : CsrFile → Except CsrError CsrFile) :
    Ends (updateCsr illegal number change) m
      (fun _ m' => ∃ c, change m.hart.csrs = .ok c ∧ m'.hart = { m.hart with csrs := c })
      (Aborted m) := by
  unfold updateCsr
  rw [ends_bind, ends_get, ends_bind]
  cases changed : change m.hart.csrs with
  | error e => exact aborted
  | ok c =>
    rw [ofCsrResult, ends_pure, ends_bind, ends_modify]
    split
    · exact ⟨c, rfl, rfl⟩
    · exact ⟨c, rfl, rfl⟩

private theorem ends_change {m : Machine} {illegal : Trap} (aborted : Aborted m illegal m)
    {op : CsrOp} {rd : Reg} {number : UInt16} {operand : CsrOperand} {old : UInt64}
    (shown : m.hart.csrs.read number = .ok old) {change : CsrFile → Except CsrError CsrFile}
    (same : op.change number operand m.hart = change m.hart.csrs) :
    Ends (updateCsr illegal number change >>= fun _ => writeReg rd old) m
      (fun _ m' => Hart.Controls op rd number operand m.hart m'.hart) (Aborted m) := by
  refine (ends_updateCsr aborted number change).bind ?_
  rintro _ m' ⟨c, changed, hart⟩
  have done : Hart.Controls op rd number operand m.hart
      (Hart.write { m.hart with csrs := c } rd old) := .read c old shown (same.trans changed)
  rw [← hart] at done
  exact done

private theorem ends_executeCsr (m : Machine) (raw : UInt32) (op : CsrOp) (rd : Reg)
    (number : UInt16) (operand : CsrOperand) :
    Ends (executeCsr (.ofException (.illegalInstruction raw) m.hart.pc) op rd number operand) m
      (fun _ m' => Hart.Controls op rd number operand m.hart m'.hart) (Aborted m) := by
  have aborted := Aborted.illegal raw m
  generalize Trap.ofException (.illegalInstruction raw) m.hart.pc = illegal at aborted
  unfold executeCsr
  extract_lets body
  have ends : Ends (body (operand.value m.hart, operand.writes)) m
      (fun _ m' => Hart.Controls op rd number operand m.hart m'.hart) (Aborted m) := by
    cases op with
    | write =>
      simp only [body]
      split
      next dropped =>
        refine (ends_updateCsr aborted number _).imp ?_
        rintro _ m' ⟨c, changed, hart⟩
        rw [hart]
        exact .unread c rfl dropped changed
      · refine (ends_readCsr aborted number).bind ?_
        rintro old _ ⟨shown, rfl⟩
        exact ends_change aborted shown rfl
    | set =>
      simp only [body]
      refine (ends_readCsr aborted number).bind ?_
      rintro old _ ⟨shown, rfl⟩
      split
      next some => exact ends_change aborted shown (if_pos some)
      next none => exact .read _ old shown (if_neg none)
    | clear =>
      simp only [body]
      refine (ends_readCsr aborted number).bind ?_
      rintro old _ ⟨shown, rfl⟩
      split
      next some => exact ends_change aborted shown (if_pos some)
      next none => exact .read _ old shown (if_neg none)
  clear_value body
  cases operand with
  | reg rs1 =>
    simp only [readReg, ends_bind, ends_get, ends_pure]
    exact ends
  | imm value =>
    simp only [ends_bind, ends_pure]
    exact ends

end Machine

/-! ### One instruction -/

inductive Hart.PlainEffect (len : UInt64) (h : Hart) : Hart → Prop where
  /-- A register is written, and the next instruction follows. -/
  | compute (rd : Reg) (value : UInt64) :
    PlainEffect len h { h.write rd value with pc := h.pc + len }
  /-- The program counter jumps, and a register may keep the way back. -/
  | jump (link : Reg) (target : UInt64)
    (even : IsEven h.pc → IsEven len → IsEven target) :
    PlainEffect len h { h.write link (h.pc + len) with pc := target }
  /-- Machine mode returns from a trap. -/
  | machineReturn (mode : h.csrs.privilege = .machine) : PlainEffect len h h.machineReturn
  /-- Supervisor mode, or machine mode in its place, returns from a trap. -/
  | supervisorReturn (granted : Machine.refusesSupervisor h.csrs Status.tsr = false) :
    PlainEffect len h h.supervisorReturn

/-- What an instruction of `len` bytes that completes does to the hart. -/
inductive Hart.Effect (len : UInt64) (h : Hart) : Hart → Prop where
  | plain (h' : Hart) (effect : PlainEffect len h h') : Effect len h h'
  /-- A control register is written, and another register may keep its old value. -/
  | control (c : CsrFile) (rd : Reg) (value : UInt64) (number : UInt16) (operand : UInt64)
    (written : h.csrs.write number operand = .ok c) :
    Effect len h { Hart.write { h with csrs := c } rd value with pc := h.pc + len }

private theorem Hart.Controls.effect {op : CsrOp} {rd : Reg} {number : UInt16}
    {operand : CsrOperand}
    {h h' : Hart} (controls : Hart.Controls op rd number operand h h') (len : UInt64) :
    Hart.Effect len h { h' with pc := h.pc + len } := by
  cases controls with
  | unread c plain dropped changed =>
    subst plain
    exact .control c 0 0 number _ changed
  | read c old shown changed =>
    rcases CsrOp.change_eq_ok changed with ⟨-, rfl⟩ | ⟨-, csr, -, written⟩
    · exact .plain _ (.compute rd old)
    · exact .control c rd old number _ written

namespace Machine

private theorem Wrote.effect {m m' : Machine} (wrote : Wrote m m') (len : UInt64) :
    Hart.PlainEffect len m.hart { m'.hart with pc := m.hart.pc + len } := by
  obtain ⟨rd, value, hart⟩ := wrote
  rw [hart]
  exact .compute rd value

private theorem jump?_isEven {h : Hart} {next : UInt64} {i : Instr} {target : UInt64} {link : Reg}
    (jumped : jump? h next i = some (target, link)) (pc : IsEven h.pc) (following : IsEven next) :
    IsEven target := by
  cases i with
  | branch op rs1 rs2 off =>
    simp only [jump?] at jumped
    split at jumped
    · obtain ⟨rfl, -⟩ := Prod.mk.inj (Option.some.inj jumped)
      exact pc.add (.widen off)
    · obtain ⟨rfl, -⟩ := Prod.mk.inj (Option.some.inj jumped)
      exact following
  | jal rd off =>
    obtain ⟨rfl, -⟩ := Prod.mk.inj (Option.some.inj jumped)
    exact pc.add (.widen off)
  | jalr rd rs1 off =>
    obtain ⟨rfl, -⟩ := Prod.mk.inj (Option.some.inj jumped)
    exact .clear _
  | _ => contradiction

theorem ends_execute_plain {i : Instr}
    (plain : ∀ op rd number operand, i ≠ .csr op rd number operand) (raw : UInt32) (len : UInt64)
    (m : Machine) :
    Ends (execute i raw len) m (fun _ m' => Hart.PlainEffect len m.hart m'.hart) (Aborted m) := by
  have illegal := Aborted.illegal raw m
  unfold execute
  rw [ends_bind, ends_get]
  extract_lets h pc next refused goOn
  have proceed {m' : Machine} (wrote : Wrote m m') :
      Ends goOn m' (fun _ m' => Hart.PlainEffect len m.hart m'.hart) (Aborted m) := wrote.effect len
  cases compute? h i with
  | some result =>
    obtain ⟨rd, value⟩ := result
    exact .compute rd value
  | none =>
    cases jumped : jump? h next i with
    | some result =>
      obtain ⟨target, link⟩ := result
      exact .jump link target fun even short => jump?_isEven jumped even (even.add short)
    | none =>
      cases i with
      | load op rd rs1 off =>
        simp only [dataAddr, readReg, ends_bind, ends_get, ends_pure]
        refine (ends_at (ends_load _ op.width m)).imp ?_
        intro value m₁ loaded
        exact (ends_writeReg loaded.hart rd _).imp fun _ _ => proceed
      | store width rs1 rs2 off =>
        simp only [dataAddr, readReg, ends_bind, ends_get, ends_pure]
        refine (ends_at (ends_store _ width _ m)).imp ?_
        intro _ m₁ stored
        exact proceed (.of_same stored.1)
      | lr width rd rs1 =>
        exact (ends_executeLr m width rd rs1).bind fun _ _ => proceed
      | sc width rd rs1 rs2 =>
        exact (ends_executeSc m width rd rs1 rs2).bind fun _ _ => proceed
      | amo op width rd rs1 rs2 =>
        exact (ends_executeAmo m op width rd rs1 rs2).bind fun _ _ => proceed
      | csr op rd number operand => exact absurd rfl (plain op rd number operand)
      | ecall =>
        exact ⟨.refl m, .environmentCall _, rfl, fun _ => (Xlen.fits_of_within (.zero _) _),
          fun _ _ => nofun⟩
      | ebreak => exact ⟨.refl m, .breakpoint, rfl, id, fun _ _ => nofun⟩
      | mret =>
        simp only
        split
        · exact illegal
        · next mode => exact .machineReturn (Decidable.not_not.1 mode)
      | sret =>
        simp only
        split
        · exact illegal
        · next granted => exact .supervisorReturn (Bool.eq_false_iff.2 granted)
      | wfi =>
        simp only
        split
        · exact illegal
        · exact proceed (.of_same rfl)
      | sfenceVma rs1 rs2 =>
        simp only
        split
        · exact illegal
        · exact proceed (.of_same rfl)
      | _ => exact proceed (.of_same rfl)

theorem ends_execute_csr (op : CsrOp) (rd : Reg) (number : BitVec 12) (operand : CsrOperand)
    (raw : UInt32) (len : UInt64) (m : Machine) :
    Ends (execute (.csr op rd number operand) raw len) m
      (fun _ m' => ∃ h, Hart.Controls op rd ⟨number.setWidth 16⟩ operand m.hart h ∧
        m'.hart = { h with pc := m.hart.pc + len })
      (Aborted m) :=
  (ends_executeCsr m raw op rd ⟨number.setWidth 16⟩ operand).bind fun _ m' done =>
    ⟨m'.hart, done, rfl⟩

/-- An instruction completes with one of its effects on the hart, or it is aborted. -/
theorem ends_execute (i : Instr) (raw : UInt32) (len : UInt64) (m : Machine) :
    Ends (execute i raw len) m (fun _ m' => Hart.Effect len m.hart m'.hart) (Aborted m) := by
  by_cases control : ∃ op rd number operand, i = .csr op rd number operand
  · obtain ⟨op, rd, number, operand, rfl⟩ := control
    refine (ends_execute_csr op rd number operand raw len m).imp ?_
    rintro _ m' ⟨h, done, hart⟩
    rw [hart]
    exact done.effect len
  · have plain (op : CsrOp) (rd : Reg) (number : BitVec 12) (operand : CsrOperand) :
        i ≠ .csr op rd number operand := fun same => control ⟨op, rd, number, operand, same⟩
    exact (ends_execute_plain plain raw len m).imp fun _ m' effect => .plain _ effect

/-! ### Fetch and decode -/

private theorem ends_fetchHalf {m m₁ : Machine} (same : Undisturbed m m₁) {vaddr : UInt64}
    (fits : m.xlen.Fits m.hart.pc → m.xlen.Fits vaddr) :
    Ends (fetchHalf m.hart.pc vaddr) m₁ (fun _ m' => Undisturbed m m') (Aborted m) := by
  unfold fetchHalf
  refine (ends_at_after same (ends_translate vaddr .fetch m₁)).bind ?_
  intro paddr m₂ translated
  have same := same.trans translated
  rw [ends_bind, ends_get]
  cases m₂.bus.peek paddr .half with
  | ok half => exact same
  | error f => exact ⟨same, .accessFault .fetch vaddr, rfl, fits, fun _ _ => nofun⟩

private theorem ends_fetch (m : Machine) :
    Ends (fetch m.hart.pc) m (fun _ m' => Undisturbed m m') (Aborted m) := by
  unfold fetch
  split
  next odd =>
    exact ⟨.refl m, .misaligned .fetch m.hart.pc, rfl, id, fun even => absurd even odd⟩
  next even =>
    refine (ends_fetchHalf (.refl m) id).bind ?_
    intro low m₁ same
    split
    · exact same
    · rw [ends_bind, ends_get, ends_bind]
      refine (ends_fetchHalf same fun _ => ?_).imp ?_
      · rw [same.xlen]
        exact m.xlen.fits_truncate _
      · exact fun _ _ same => same

theorem ends_fetchDecode (m : Machine) :
    Ends fetchDecode m (fun _ m' => Undisturbed m m') (Aborted m) := by
  unfold fetchDecode
  rw [ends_bind, ends_get, ends_bind]
  refine (ends_fetch m).imp ?_
  intro fetched m₁ same
  rw [ends_bind, ends_get]
  cases fetched.decode m₁.xlen with
  | ok i => exact same
  | error e =>
    have aborted := (Aborted.illegal e.inst m₁).after same
    rw [same.hart] at aborted
    exact aborted

private theorem length_isEven (f : Fetched) : IsEven f.length := by
  unfold Fetched.length
  split <;> decide

theorem ends_executeNext (m : Machine) :
    Ends executeNext m (fun _ m' => ∃ len, IsEven len ∧ Hart.Effect len m.hart m'.hart)
      (Aborted m) := by
  unfold executeNext
  refine (ends_fetchDecode m).bind ?_
  rintro ⟨i, fetched⟩ m₁ same
  refine (ends_after same (ends_execute i fetched.raw fetched.length m₁)).imp ?_
  intro _ m₂ effect
  rw [same.hart] at effect
  exact ⟨fetched.length, length_isEven fetched, effect⟩

end Machine

end RiscvBoard
