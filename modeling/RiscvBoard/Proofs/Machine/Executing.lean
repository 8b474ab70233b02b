import RiscvBoard.Proofs.Machine.Frames
import RiscvBoard.Proofs.Machine.Step

/-!
The instruction of a step. A step executes at most one instruction; how the step ends is how the
instruction ends, followed by its retirement or by a trap.
-/

set_option autoImplicit false

namespace RiscvBoard.Machine

/-- The instruction that the next step executes, with the machine in which it starts; nothing if the
step takes an interrupt, does not get an instruction, or does nothing. -/
def executing? (m : Machine) : Option (Instr × Fetched × Machine) :=
  match m.haltReason? with
  | some _ => none
  | none =>
    match m.begun.hart.csrs.pendingInterrupt? with
    | some _ => none
    | none =>
      match fetchDecode m.begun with
      | .ok (i, fetched) m₁ => some (i, fetched, m₁)
      | .error _ _ => none

theorem trapped_eq (t : Trap) (m : Machine) :
    trapped t m =
      if m.isFatal t (m.hart.csrs.route t) then .error ⟨t, (m.hart.csrs.route t).handler⟩ m
      else .ok (.trapped t) (m.entered t) := by
  by_cases fatal : m.isFatal t (m.hart.csrs.route t)
  · simp only [trapped, takeTrap, bind, EStateM.bind, if_pos fatal]
  · simp only [trapped, takeTrap, bind, EStateM.bind, if_neg fatal]
    rfl

theorem trapped_cases (t : Trap) (m : Machine) :
    trapped t m = .ok (.trapped t) (m.entered t) ∨ ∃ fatal, trapped t m = .error fatal m := by
  rw [trapped_eq]
  split
  · exact .inr ⟨_, rfl⟩
  · exact .inl rfl

def conclude : EStateM.Result Trap Machine Unit → EStateM.Result FatalTrap Machine StepOutcome
  | .ok _ m =>
    match m.retire.haltReason? with
    | some reason => .ok (.halted reason) m.retire
    | none => .ok .continued m.retire
  | .error t m => trapped t m

theorem stepInstruction_eq (m : Machine) : stepInstruction m = conclude (executeNext m) := rfl

/-- A step without an instruction does nothing, or ends in a trap, before which it has done what
fetching does. -/
theorem step_of_idle {m : Machine} {R : Machine → Machine → Prop} (frame : IsTranslationFrame R)
    (idle : m.executing? = none) :
    (∃ reason, step m = .ok (.halted reason) m) ∨
    ∃ t m₁, R m.begun m₁ ∧ step m = trapped t m₁ := by
  unfold executing? at idle
  cases exit : m.haltReason? with
  | some reason =>
    refine .inl ⟨reason, ?_⟩
    simp only [step, exit]
  | none =>
    simp only [exit] at idle
    have stepped : step m = match m.begun.hart.csrs.pendingInterrupt? with
      | some i => trapped (.ofInterrupt i m.begun.hart.pc) m.begun
      | none => stepInstruction m.begun := by
      simp only [step, exit]
      rfl
    refine .inr ?_
    cases pending : m.begun.hart.csrs.pendingInterrupt? with
    | some i =>
      simp only [pending] at stepped
      exact ⟨_, m.begun, frame.refl m.begun, stepped⟩
    | none =>
      simp only [pending] at stepped idle
      cases fetched : fetchDecode m.begun with
      | ok result m₁ =>
        rw [fetched] at idle
        contradiction
      | error t m₁ =>
        have same := (frame.fetchDecode m.begun).of_error fetched
        have executed : executeNext m.begun = .error t m₁ := bind_of_error fetched _
        refine ⟨t, m₁, same, ?_⟩
        rw [stepped, stepInstruction_eq, executed, conclude]

section Executing

variable {m m₁ m₂ : Machine} {i : Instr} {fetched : Fetched}

private theorem executing?_eq_some (executes : m.executing? = some (i, fetched, m₁)) :
    m.haltReason? = none ∧ m.begun.hart.csrs.pendingInterrupt? = none ∧
      fetchDecode m.begun = .ok (i, fetched) m₁ := by
  unfold executing? at executes
  split at executes
  · contradiction
  next exit =>
  split at executes
  · contradiction
  next pending =>
  split at executes
  · next got =>
    cases executes
    exact ⟨exit, pending, got⟩
  · contradiction

theorem executing_frames {R : Machine → Machine → Prop} (frame : IsTranslationFrame R)
    (executes : m.executing? = some (i, fetched, m₁)) : R m.begun m₁ := by
  rcases executing?_eq_some executes with ⟨-, -, got⟩
  exact (frame.fetchDecode m.begun).of_ok got

theorem executing_same (executes : m.executing? = some (i, fetched, m₁)) :
    Undisturbed m.begun m₁ ∧ SameDevices m.begun m₁ := by
  rcases executing?_eq_some executes with ⟨-, -, got⟩
  exact ⟨(ends_fetchDecode m.begun).of_ok got,
    executing_frames isTranslationFrame_sameDevices executes⟩

/-- A step ends as its instruction ends. -/
theorem step_of_executing (executes : m.executing? = some (i, fetched, m₁)) :
    step m = conclude (execute i fetched.raw fetched.length m₁) := by
  rcases executing?_eq_some executes with ⟨exit, pending, got⟩
  have begins : m.tickDevices.countCycle = m.begun := rfl
  have executed : executeNext m.begun = execute i fetched.raw fetched.length m₁ :=
    bind_of_ok got _
  simp only [step, exit, begins, pending, stepInstruction_eq, executed]

theorem step_of_completed (executes : m.executing? = some (i, fetched, m₁))
    (ran : execute i fetched.raw fetched.length m₁ = .ok () m₂) :
    ∃ outcome, step m = .ok outcome m₂.retire ∧ ∀ t, outcome ≠ .trapped t := by
  rw [step_of_executing executes, ran, conclude]
  cases m₂.retire.haltReason? with
  | some reason => exact ⟨_, rfl, fun _ => nofun⟩
  | none => exact ⟨_, rfl, fun _ => nofun⟩

theorem step_of_failed {t : Trap} (executes : m.executing? = some (i, fetched, m₁))
    (ran : execute i fetched.raw fetched.length m₁ = .error t m₂) : step m = trapped t m₂ := by
  rw [step_of_executing executes, ran, conclude]

theorem completed_of_step {m' : Machine} {outcome : StepOutcome}
    (executes : m.executing? = some (i, fetched, m₁))
    (stepped : step m = .ok outcome m') (untrapped : ∀ t, outcome ≠ .trapped t) :
    ∃ m₂, execute i fetched.raw fetched.length m₁ = .ok () m₂ ∧ m' = m₂.retire := by
  cases ran : execute i fetched.raw fetched.length m₁ with
  | ok _ m₂ =>
    rcases step_of_completed executes ran with ⟨_, same, _⟩
    rw [stepped] at same
    exact ⟨m₂, rfl, (EStateM.Result.ok.inj same).2⟩
  | error t m₂ =>
    have fails := step_of_failed executes ran
    rw [stepped] at fails
    rcases trapped_cases t m₂ with taken | ⟨f, failed⟩
    · rw [taken] at fails
      exact absurd (EStateM.Result.ok.inj fails).1 (untrapped t)
    · rw [failed] at fails
      contradiction

end Executing

end RiscvBoard.Machine
