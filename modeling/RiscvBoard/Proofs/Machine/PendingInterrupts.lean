import RiscvBoard.Proofs.Machine.ControlRegisters
import RiscvBoard.Proofs.Machine.InterruptSelection

/-!
Interrupts that software makes pending. The software and timer interrupts of the supervisor stay
pending until software clears them, whatever the devices do. The external interrupt of the supervisor
does not: each step replaces its bit by the line of the interrupt controller.
-/

set_option autoImplicit false

namespace RiscvBoard

/-! ### Bits under writes -/

namespace Interrupt

variable (i : Interrupt) (a b : UInt64)

private theorem isIn_or : i.isIn (a ||| b) ↔ i.isIn a ∨ i.isIn b := by
  simp only [isIn_iff_testBit, UInt64.toNat_or, Nat.testBit_or, Bool.or_eq_true]

private theorem isIn_bit : i.isIn i.bit := by
  cases i <;> decide

private theorem isIn_truncate (xlen : Xlen) : i.isIn (xlen.truncate a) ↔ i.isIn a := by
  have low : i.isIn 0xffffffff := by cases i <;> decide
  cases xlen with
  | rv32 => simp only [Xlen.truncate, isIn_and, low, and_true]
  | rv64 => rfl

private theorem isIn_merge (mask : UInt64) :
    i.isIn (CsrFile.merge mask a b) ↔ if i.isIn mask then i.isIn b else i.isIn a := by
  simp only [CsrFile.merge, isIn_or, isIn_and, isIn_not]
  split
  next inside => simp [inside]
  next outside => simp [outside]

variable {i} {a b}

private theorem isIn_of_agree {mask : UInt64} (agree : AgreeOutside mask a b)
    (outside : ¬ i.isIn mask) : i.isIn a ↔ i.isIn b := by
  have disjoint : mask &&& i.bit = 0 := by simpa [isIn] using outside
  simp only [isIn, agree.and_eq disjoint]

end Interrupt

namespace CsrFile

variable (c : CsrFile) (i : Interrupt)

/-- The pending bits that software reaches through a register: those of the supervisor, and through
the supervisor's own view the software interrupt if it is delegated. -/
def softwareBits : Csr → UInt64
  | .mip => Interrupt.supervisorBits
  | .sip => Interrupt.supervisorSoftware.bit &&& c.mideleg
  | _ => 0

private theorem set_mip (value : UInt64) (csr : Csr) :
    (c.set value csr).mip = merge (c.softwareBits csr) c.mip value := by
  have kept : c.mip = merge 0 c.mip value := by
    rw [merge_of_and_eq (UInt64.and_zero.trans UInt64.and_zero.symm)]
  cases csr with
  | mip | sip => rfl
  | satp =>
    simp only [set]
    split <;> exact kept
  | _ => exact kept

variable {c i}

private theorem isIn_write {d : CsrFile} {number : UInt16} {csr : Csr} {value : UInt64}
    (granted : c.Grants number csr) (written : c.write number value = .ok d) :
    i.isIn d.mip ↔ if i.isIn (c.softwareBits csr) then i.isIn value else i.isIn c.mip := by
  rw [granted.eq_set written, set_mip, i.isIn_merge]
  split
  · exact i.isIn_truncate _ _
  · rfl

private theorem isIn_get {csr : Csr} (reached : i.isIn (c.softwareBits csr)) :
    i.isIn (c.get csr) ↔ i.isIn c.mip := by
  have none : ¬ i.isIn 0 := by cases i <;> decide
  cases csr with
  | mip => rfl
  | sip =>
    obtain ⟨software, delegated⟩ := (i.isIn_and _ _).1 reached
    have supervisor : i.isIn Interrupt.supervisorBits := by
      revert software
      cases i <;> decide
    simp only [get, Interrupt.isIn_and, delegated, supervisor, and_true]
  | _ => exact absurd reached none

private theorem isIn_setPending (on : Bool) : i.isIn (c.setPending i.bit on).mip ↔ on := by
  cases on with
  | false => simp [setPending, Interrupt.isIn_and, Interrupt.isIn_not, i.isIn_bit]
  | true => simp [setPending, Interrupt.isIn_or, i.isIn_bit]

end CsrFile

/-! ### Instructions -/

def CsrOp.Clears (op : CsrOp) (i : Interrupt) (value : UInt64) : Prop :=
  op = .write ∧ ¬ i.isIn value ∨ op = .clear ∧ i.isIn value

def CsrOp.Sets (op : CsrOp) (i : Interrupt) (value : UInt64) : Prop :=
  (op = .write ∨ op = .set) ∧ i.isIn value

section Change

variable {op : CsrOp} {number : UInt16} {operand : CsrOperand} {h : Hart} {c : CsrFile}
  {i : Interrupt}

private theorem isIn_combine_of_sets {value : UInt64} (sets : op.Sets i value) (old : UInt64) :
    i.isIn (op.combine old value) := by
  obtain ⟨rfl | rfl, set⟩ := sets
  · exact set
  · exact (i.isIn_or _ _).2 (.inr set)

private theorem isIn_combine_of_kept {old value : UInt64} (pending : i.isIn old)
    (kept : ¬ op.Clears i value) : i.isIn (op.combine old value) := by
  cases op with
  | write => exact Decidable.not_not.1 fun absent => kept (.inl ⟨rfl, absent⟩)
  | set => exact (i.isIn_or _ _).2 (.inl pending)
  | clear =>
    have absent : ¬ i.isIn value := fun set => kept (.inr ⟨rfl, set⟩)
    exact (i.isIn_and _ _).2 ⟨pending, (i.isIn_not _).2 absent⟩

private theorem isIn_change (changed : op.change number operand h = .ok c)
    (pending : i.isIn h.csrs.mip)
    (kept : ∀ csr, Csr.ofNumber? number = some csr → i.isIn (h.csrs.softwareBits csr) →
      op.Writes operand → ¬ op.Clears i (operand.value h)) : i.isIn c.mip := by
  obtain ⟨-, rfl⟩ | ⟨writes, csr, granted, written⟩ := CsrOp.change_eq_ok changed
  · exact pending
  · rw [CsrFile.isIn_write granted written]
    split
    next reached =>
      have shown := (CsrFile.isIn_get reached).2 pending
      exact isIn_combine_of_kept shown (kept csr granted.found reached writes)
    next => exact pending

private theorem isIn_change_of_sets (changed : op.change number operand h = .ok c)
    (found : Csr.ofNumber? number = some .mip) (supervisor : i.isIn Interrupt.supervisorBits)
    (writes : op.Writes operand) (sets : op.Sets i (operand.value h)) : i.isIn c.mip := by
  obtain ⟨reads, -⟩ | ⟨-, csr, granted, written⟩ := CsrOp.change_eq_ok changed
  · exact absurd writes reads
  · obtain rfl : csr = .mip := Option.some.inj (granted.found.symm.trans found)
    rw [CsrFile.isIn_write granted written, CsrFile.softwareBits, if_pos supervisor]
    exact isIn_combine_of_sets sets _

end Change

private theorem Hart.enter_mip (h : Hart) (t : Trap) (route : TrapRoute) :
    (h.enter t route).csrs.mip = h.csrs.mip := by
  unfold enter
  cases route.target with
  | supervisor => rfl
  | machine | user => rfl

private theorem Hart.PlainEffect.mip {len : UInt64} {h h' : Hart} (effect : PlainEffect len h h') :
    h'.csrs.mip = h.csrs.mip := by
  cases effect with
  | compute rd value => exact congrArg CsrFile.mip (h.write_csrs rd value)
  | jump link target even => exact congrArg CsrFile.mip (h.write_csrs link _)
  | machineReturn mode => rw [h.machineReturn_eq]
  | supervisorReturn granted => rw [h.supervisorReturn_eq]

/-! ### Steps -/

namespace Machine

/-- The next step completes an instruction that sets the bit of an interrupt in the register of
pending interrupts. -/
inductive SetsPending (m : Machine) (i : Interrupt) (after : Machine) : Prop where
  | intro (op : CsrOp) (rd : Reg) (number : BitVec 12) (operand : CsrOperand) (before : Machine)
    (completes : m.Completes (.csr op rd number operand) before after)
    (found : Csr.ofNumber? ⟨number.setWidth 16⟩ = some .mip) (writes : op.Writes operand)
    (sets : op.Sets i (operand.value before.hart))

/-- The next step completes an instruction that clears the bit of an interrupt through a register
through which software reaches it. -/
inductive ClearsPending (m : Machine) (i : Interrupt) : Prop where
  | intro (op : CsrOp) (rd : Reg) (number : BitVec 12) (operand : CsrOperand) (csr : Csr)
    (before after : Machine) (completes : m.Completes (.csr op rd number operand) before after)
    (found : Csr.ofNumber? ⟨number.setWidth 16⟩ = some csr)
    (reached : i.isIn (before.hart.csrs.softwareBits csr)) (writes : op.Writes operand)
    (clears : op.Clears i (operand.value before.hart))

section Steps

variable {m m' : Machine} {i : Interrupt}

private theorem isIn_begun (undriven : ¬ i.isIn Interrupt.drivenBits) :
    i.isIn m.begun.hart.csrs.mip ↔ i.isIn m.hart.csrs.mip := by
  obtain ⟨mip, time, cycle, agree, hart⟩ := m.begun_hart
  rw [hart]
  exact Interrupt.isIn_of_agree agree undriven

private theorem isIn_begun_supervisorExternal (m : Machine) :
    Interrupt.supervisorExternal.isIn m.begun.hart.csrs.mip ↔
      m.bus.tick.plic.contextPending .supervisor := by
  have mip : m.begun.hart.csrs.mip = (m.bus.tick.drive m.hart.csrs).mip := by
    unfold begun countCycle
    dsimp only
    split <;> rfl
  rw [mip]
  exact CsrFile.isIn_setPending _

private theorem Completes.controls_mip {op : CsrOp} {rd : Reg} {number : BitVec 12}
    {operand : CsrOperand}
    {m₁ : Machine} (completes : m.Completes (.csr op rd number operand) m₁ m') :
    ∃ c, op.change ⟨number.setWidth 16⟩ operand m₁.hart = .ok c ∧ m'.hart.csrs.mip = c.mip := by
  obtain ⟨h, controls, csrs, -⟩ := completes.controls
  exact ⟨h.csrs, controls.changed, by rw [csrs]⟩

private theorem Completes.isIn {instr : Instr} {m₁ : Machine} (completes : m.Completes instr m₁ m')
    (pending : i.isIn m.begun.hart.csrs.mip) (kept : ¬ m.ClearsPending i) :
    i.isIn m'.hart.csrs.mip := by
  rw [← completes.start] at pending
  by_cases control : ∃ op rd number operand, instr = .csr op rd number operand
  · obtain ⟨op, rd, number, operand, rfl⟩ := control
    obtain ⟨c, changed, mip⟩ := completes.controls_mip
    rw [mip]
    refine isIn_change changed pending fun csr found reached writes clears => kept ?_
    exact .intro op rd number operand csr m₁ m' completes found reached writes clears
  · obtain ⟨len, h, effect, csrs⟩ := completes.plain fun op rd number operand same =>
      control ⟨op, rd, number, operand, same⟩
    rw [csrs]
    exact effect.mip ▸ pending

private theorem SetsPending.isIn (sets : m.SetsPending i m')
    (supervisor : i.isIn Interrupt.supervisorBits) : i.isIn m'.hart.csrs.mip := by
  obtain ⟨op, rd, number, operand, before, completes, found, writes, sets⟩ := sets
  obtain ⟨c, changed, mip⟩ := completes.controls_mip
  rw [mip]
  exact isIn_change_of_sets changed found supervisor writes sets

/-- A step leaves an interrupt pending that no device drives, unless software clears it. -/
private theorem isIn_afterStep (undriven : ¬ i.isIn Interrupt.drivenBits)
    (pending : i.isIn m.hart.csrs.mip) (kept : ¬ m.ClearsPending i) :
    i.isIn m.afterStep.hart.csrs.mip := by
  have begun := (isIn_begun undriven).2 pending
  unfold afterStep
  cases stepped : step m with
  | error f m' =>
    dsimp only
    rw [(step_fatal stepped).undisturbed.hart]
    exact begun
  | ok outcome m' =>
    by_cases trapped : ∃ t, outcome = .trapped t
    · obtain ⟨t, rfl⟩ := trapped
      cases step_effect stepped with
      | retired _ len m₂ even effect untrapped => exact absurd rfl (untrapped t)
      | trapped _ m₂ trapping =>
        dsimp only
        rw [entered, Hart.enter_mip, trapping.undisturbed.hart]
        exact begun
    · obtain rfl | ⟨instr, m₁, completes⟩ :=
        completes_of_untrapped stepped fun t same => trapped ⟨t, same⟩
      · exact pending
      · exact completes.isIn begun kept

end Steps

/-! ### Runs -/

/-- The runs in which software does not clear a pending interrupt. The host may type at any time,
and a run may go on after a fatal trap. -/
inductive Unclearing (i : Interrupt) (m : Machine) : Machine → Prop where
  | start : Unclearing i m m
  | receive (m' : Machine) (bytes : List UInt8) (run : Unclearing i m m') :
    Unclearing i m (m'.receive bytes)
  | step (m' : Machine) (run : Unclearing i m m') (kept : ¬ m'.ClearsPending i) :
    Unclearing i m m'.afterStep

private theorem Unclearing.isIn {m m' : Machine} {i : Interrupt} (run : Unclearing i m m')
    (undriven : ¬ i.isIn Interrupt.drivenBits) (pending : i.isIn m.hart.csrs.mip) :
    i.isIn m'.hart.csrs.mip := by
  induction run with
  | start => exact pending
  | receive m' bytes run ih => exact ih
  | step m' run kept ih => exact isIn_afterStep undriven ih kept

/-- A supervisor interrupt that software sets in the register of pending interrupts is pending after
the instruction. A software or timer interrupt stays pending, also as the devices are shown to the
hart in each step, until software clears it. The external interrupt shows the line of the interrupt
controller from the next step on. -/
theorem pending_until_cleared {m after : Machine} {i : Interrupt}
    (supervisor : i.isIn Interrupt.supervisorBits) (sets : m.SetsPending i after) :
    i.isIn after.hart.csrs.mip ∧
    (i ≠ .supervisorExternal → ∀ m', Unclearing i after m' →
      i.isIn m'.hart.csrs.mip ∧ i.isIn m'.begun.hart.csrs.mip) ∧
    (i = .supervisorExternal → ∀ m', Unclearing i after m' →
      (i.isIn m'.begun.hart.csrs.mip ↔ m'.bus.tick.plic.contextPending .supervisor)) := by
  have pending := sets.isIn supervisor
  refine ⟨pending, fun other m' run => ?_, ?_⟩
  · have undriven : ¬ i.isIn Interrupt.drivenBits := by
      revert supervisor other
      cases i <;> decide
    have still := run.isIn undriven pending
    exact ⟨still, (isIn_begun undriven).2 still⟩
  · rintro rfl m' -
    exact m'.isIn_begun_supervisorExternal

def withTimerSet : Machine :=
  withCode #[0x93, 0x00, 0x00, 0x02, 0x73, 0xa0, 0x40, 0x34, 0x73, 0x70, 0x41, 0x34]

/-- The timer interrupt of the program is still pending when the other interrupt was cleared. -/
theorem pending_until_cleared_timer :
    ∃ m after m' : Machine, Interrupt.supervisorTimer.isIn Interrupt.supervisorBits ∧
      m.SetsPending .supervisorTimer after ∧ Unclearing .supervisorTimer after m' ∧
      Interrupt.supervisorTimer.isIn m'.hart.csrs.mip ∧
      Interrupt.supervisorTimer.isIn m'.begun.hart.csrs.mip := by
  let m := withTimerSet.afterStep
  obtain ⟨before, completes⟩ : ∃ before, m.Completes (.csr .set 0 0x344 (.reg 1)) before _ :=
    completes_of_continued (by decide +kernel) (by decide +kernel)
  have value : Interrupt.supervisorTimer.isIn (before.hart.read 1) := by
    rw [completes.start, begun_read]
    decide +kernel
  have sets : m.SetsPending .supervisorTimer m.afterStep :=
    .intro _ _ _ _ before completes rfl (.inr rfl) ⟨.inr rfl, value⟩
  have next : (m.afterStep.receive [0x41]).executing?.map Prod.fst =
      some (.csr .clear 0 0x344 (.imm 2)) := by decide +kernel
  have kept : ¬ (m.afterStep.receive [0x41]).ClearsPending .supervisorTimer := by
    rintro ⟨op, rd, number, operand, csr, before, after, ⟨⟨fetched, executes⟩, -⟩, -, -, -, clears⟩
    rw [executes] at next
    cases Option.some.inj next
    obtain ⟨plain, -⟩ | ⟨-, other⟩ := clears
    · contradiction
    · exact absurd other (show ¬ Interrupt.supervisorTimer.isIn 2 by decide)
  have run : Unclearing .supervisorTimer m.afterStep (m.afterStep.receive [0x41]).afterStep :=
    .step _ (.receive _ [0x41] .start) kept
  obtain ⟨-, still, -⟩ := pending_until_cleared (by decide) sets
  obtain ⟨pending, shown⟩ := still (by decide) _ run
  exact ⟨m, m.afterStep, _, by decide, sets, run, pending, shown⟩

def withExternalSet : Machine :=
  withCode #[0x93, 0x00, 0x00, 0x20, 0x73, 0x90, 0x40, 0x34, 0x73, 0x21, 0x40, 0x34]

/-- Not every supervisor interrupt that software sets stays pending until it is cleared: the
external interrupt is gone when the next instruction of the program begins, since no device
interrupts. -/
theorem external_does_not_stay_pending :
    ¬ ∀ (m after m' : Machine) (i : Interrupt), m.hart.csrs.privilege = .machine →
      i.isIn Interrupt.supervisorBits → m.SetsPending i after → Unclearing i after m' →
      i.isIn m'.begun.hart.csrs.mip := by
  intro claim
  let m := withExternalSet.afterStep
  obtain ⟨before, completes⟩ : ∃ before, m.Completes (.csr .write 0 0x344 (.reg 1)) before _ :=
    completes_of_continued (by decide +kernel) (by decide +kernel)
  have value : Interrupt.supervisorExternal.isIn (before.hart.read 1) := by
    rw [completes.start, begun_read]
    decide +kernel
  have sets : m.SetsPending .supervisorExternal m.afterStep :=
    .intro _ _ _ _ before completes rfl (.inl rfl) ⟨.inl rfl, value⟩
  have mode : m.hart.csrs.privilege = .machine := by decide +kernel
  have shown := claim m m.afterStep m.afterStep _ mode (by decide) sets .start
  have gone : ¬ Interrupt.supervisorExternal.isIn m.afterStep.begun.hart.csrs.mip := by
    decide +kernel
  exact gone shown

end Machine

end RiscvBoard
