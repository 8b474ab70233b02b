import RiscvBoard.Proofs.Csr.WriteBack
import RiscvBoard.Proofs.Machine.WellFormed

/-!
The control states that a hart comes to after reset, through register writes, traps and their
returns, and the passing of time. In all of them a value that was read can be written back without
any effect, and a write that is refused has none.
-/

set_option autoImplicit false

namespace RiscvBoard

namespace CsrFile

/-- One change of the control state. A trap is taken at an address that the program counter can
hold, and its value has the register width. -/
inductive Changes : CsrFile → CsrFile → Prop where
  | write {c d : CsrFile} (number : UInt16) (value : UInt64)
    (written : c.write number value = .ok d) : Changes c d
  | enter (h : Hart) (t : Trap) (route : TrapRoute) (even : IsEven t.pc) (pc : h.xlen.Fits t.pc)
    (value : h.xlen.Fits t.value) : Changes h.csrs (h.enter t route).csrs
  | machineReturn (h : Hart) : Changes h.csrs h.machineReturn.csrs
  | supervisorReturn (h : Hart) : Changes h.csrs h.supervisorReturn.csrs
  | tick (b : Bus) (c : CsrFile) : Changes c (b.drive c)
  | count (c : CsrFile) (cycle instret : UInt64) :
    Changes c { c with cycle := cycle, instret := instret }

/-- The control states that come about after reset. -/
inductive Reached (xlen : Xlen) : CsrFile → Prop where
  | reset : Reached xlen (.reset xlen)
  | change {c d : CsrFile} (reached : Reached xlen c) (changes : Changes c d) : Reached xlen d

private theorem Settled.drive {c : CsrFile} (settled : c.Settled) (b : Bus) :
    (b.drive c).Settled := by
  have pending : Within Interrupt.allBits (b.drive c).mip :=
    Eq.trans ((Machine.drive_mip b c).mono (by decide)) settled.mip
  have fits := Xlen.fits_of_within (pending.mono (by decide)) c.xlen
  rw [Machine.drive_eq]
  exact { settled with mip := pending, narrow := { settled.narrow with mip := fits } }

private theorem Changes.settled {c d : CsrFile} (changes : Changes c d) (settled : c.Settled) :
    d.Settled := by
  obtain ⟨wf, user, supervisor, inhibit⟩ := settled
  cases changes with
  | write number value written => exact Settled.write ⟨wf, user, supervisor, inhibit⟩ written
  | enter h t route even pc value =>
    have legal := wf.enter even pc value route
    unfold Hart.enter at legal ⊢
    revert legal
    cases route.target with
    | supervisor => exact fun legal => ⟨legal, user, supervisor, inhibit⟩
    | machine | user => exact fun legal => ⟨legal, user, supervisor, inhibit⟩
  | machineReturn h =>
    have legal := wf.machineReturn
    rw [h.machineReturn_eq] at legal ⊢
    exact ⟨legal, user, supervisor, inhibit⟩
  | supervisorReturn h =>
    have legal := wf.supervisorReturn
    rw [h.supervisorReturn_eq] at legal ⊢
    exact ⟨legal, user, supervisor, inhibit⟩
  | tick b c => exact Settled.drive ⟨wf, user, supervisor, inhibit⟩ b
  | count c cycle instret =>
    exact ⟨{ wf with narrow := { wf.narrow with } }, user, supervisor, inhibit⟩

private theorem Reached.settled {xlen : Xlen} {c : CsrFile} (reached : Reached xlen c) :
    c.Settled := by
  induction reached with
  | reset => exact reset_settled xlen
  | change reached changes ih => exact changes.settled ih

end CsrFile

namespace Machine

/-! ### Runs -/

private theorem begun_reached {xlen : Xlen} {m : Machine}
    (reached : CsrFile.Reached xlen m.hart.csrs) : CsrFile.Reached xlen m.begun.hart.csrs := by
  have ticked := reached.change (.tick m.bus.tick _)
  unfold begun countCycle
  dsimp only
  split
  · exact ticked.change (.count _ _ _)
  · exact ticked

private theorem retire_reached {xlen : Xlen} {m : Machine}
    (reached : CsrFile.Reached xlen m.hart.csrs) : CsrFile.Reached xlen m.retire.hart.csrs := by
  obtain ⟨instret, hart⟩ := m.retire_hart
  rw [hart]
  exact reached.change (.count _ _ instret)

end Machine

private theorem Hart.Effect.reached {xlen : Xlen} {len : UInt64} {h h' : Hart}
    (effect : Hart.Effect len h h') (reached : CsrFile.Reached xlen h.csrs) :
    CsrFile.Reached xlen h'.csrs := by
  cases effect with
  | control c rd value number operand written =>
    rw [Hart.write_csrs]
    exact reached.change (.write number operand written)
  | plain _ effect =>
    cases effect with
    | compute rd value =>
      rw [h.write_csrs]
      exact reached
    | jump link target even =>
      rw [h.write_csrs]
      exact reached
    | machineReturn mode => exact reached.change (.machineReturn h)
    | supervisorReturn granted => exact reached.change (.supervisorReturn h)

namespace Machine

/-- A step changes the control state of a well-formed hart in a row of these changes. -/
private theorem StepEffect.reached {xlen : Xlen} {m m' : Machine} {outcome : StepOutcome}
    (effect : StepEffect m outcome m') (wf : m.hart.WellFormed)
    (reached : CsrFile.Reached xlen m.hart.csrs) : CsrFile.Reached xlen m'.hart.csrs := by
  have begun := begun_reached reached
  cases effect with
  | halted reason exit => exact reached
  | retired _ len m₂ even effect untrapped => exact retire_reached (effect.reached begun)
  | trapped t m₂ trapping =>
    have legal := begun_wellFormed wf
    have value := trapping.value_fits legal.pc
    have even : IsEven t.pc := trapping.pc ▸ legal.even
    have pc : m.begun.hart.xlen.Fits t.pc := trapping.pc ▸ legal.pc
    unfold entered
    rw [trapping.undisturbed.hart]
    exact begun.change (.enter _ t _ even pc value)

theorem Reaches.csrs {xlen : Xlen} {m : Machine} (reaches : Reaches xlen m) :
    CsrFile.Reached xlen m.hart.csrs := by
  induction reaches with
  | start m reset =>
    rw [reset]
    exact .reset
  | receive m bytes reached ih => exact ih
  | step m m' outcome reached stepped ih =>
    exact (step_effect stepped).reached (reaches_invariant reached).2 ih
  | fatal m m' fatal reached stepped ih =>
    rw [(step_fatal stepped).undisturbed.hart]
    exact begun_reached ih

private theorem updateCsr_of_refused {m : Machine} {change : CsrFile → Except CsrError CsrFile}
    {e : CsrError} (refused : change m.hart.csrs = .error e) (illegal : Trap) (number : UInt16) :
    updateCsr illegal number change m = .error illegal m := by
  simp only [updateCsr, bind_get, refused]
  rfl

end Machine

namespace CsrFile

/-- In a control state that comes about, writing back what was read changes nothing, or is refused
because the number is read-only; and so does setting or clearing no bits. What a register shows
after a write can be written again without an effect. A write that is refused changes nothing. -/
theorem written_back {xlen : Xlen} {c : CsrFile} (reached : Reached xlen c) (number : UInt16) :
    (∀ value, c.read number = .ok value →
      c.write number value = c.writtenBack number ∧
        c.setBits number 0 = c.writtenBack number ∧ c.clearBits number 0 = c.writtenBack number) ∧
    (∀ value d, c.write number value = .ok d →
      ∃ shown, d.read number = .ok shown ∧ d.write number shown = .ok d) ∧
    ∀ value e, c.write number value = .error e → ∀ (m : Machine) (illegal : Trap),
      m.hart.csrs = c →
        Machine.updateCsr illegal number (fun c => c.write number value) m = .error illegal m := by
  have settled := reached.settled
  refine ⟨fun value shown => ?_, fun value d written => ?_, fun value e refused m illegal same => ?_⟩
  · have back := settled.write_of_read shown
    refine ⟨back, ?_, ?_⟩
    · rw [setBits_of_read shown, UInt64.or_zero, back]
    · rw [clearBits_of_read shown, UInt64.not_zero, UInt64.and_neg_one, back]
  · obtain ⟨csr, -, writable, -, shown⟩ := read_of_write written
    refine ⟨d.get csr, shown, ?_⟩
    rw [(settled.write written).write_of_read shown, writtenBack, writable]
    rfl
  · exact Machine.updateCsr_of_refused (same ▸ refused) illegal number

/-- A supervisor software interrupt, pending and delegated, as the supervisor's view shows it: it is
written back, it is cleared, and the hart's own number cannot be written. -/
theorem written_back_softwareInterrupt :
    ∃ c d : CsrFile, Reached .rv32 c ∧ c.read 0x144 = .ok 2 ∧ c.write 0x144 2 = .ok c ∧
      c.setBits 0x144 0 = .ok c ∧ c.clearBits 0x144 0 = .ok c ∧ c.write 0x144 0 = .ok d ∧
      (∃ shown, d.read 0x144 = .ok shown ∧ d.write 0x144 shown = .ok d) ∧
      ∀ m illegal, m.hart.csrs = c →
        Machine.updateCsr illegal 0xf14 (fun c => c.write 0xf14 1) m = .error illegal m := by
  have delegated : (reset .rv32).write 0x303 2 = .ok { reset .rv32 with mideleg := 2 } := rfl
  have pending : CsrFile.write { reset .rv32 with mideleg := 2 } 0x344 2 =
      .ok { reset .rv32 with mideleg := 2, mip := 2 } := rfl
  have reached : Reached .rv32 { reset .rv32 with mideleg := 2, mip := 2 } :=
    (Reached.reset.change (.write _ _ delegated)).change (.write _ _ pending)
  have shown : CsrFile.read { reset .rv32 with mideleg := 2, mip := 2 } 0x144 = .ok 2 := rfl
  have cleared : CsrFile.write { reset .rv32 with mideleg := 2, mip := 2 } 0x144 0 =
      .ok { reset .rv32 with mideleg := 2, mip := 0 } := rfl
  obtain ⟨back, legal, -⟩ := written_back reached 0x144
  obtain ⟨same, set, clear⟩ := back 2 shown
  obtain ⟨-, -, refused⟩ := written_back reached 0xf14
  exact ⟨_, _, reached, shown, same, set, clear, cleared, legal 0 _ cleared, refused 1 _ rfl⟩

end CsrFile

end RiscvBoard
