import RiscvBoard.Machine.Run
import RiscvBoard.Proofs.Machine.Executing

/-!
Runs with a budget. A run that used up its budget can be resumed, and then goes on as a run with the
larger budget does; a run that stopped earlier does not depend on its budget. A run with breakpoints
stops after the first step that leaves the program counter on one of them. A machine that has halted
stays as it is, and says why it halted as often as it is asked.
-/

set_option autoImplicit false

namespace RiscvBoard.Machine

/-! ### Steps in a row -/

def Continues (m m' : Machine) : Prop :=
  ∃ outcome, step m = .ok outcome m' ∧ ∀ reason, outcome ≠ .halted reason

/-- The first `n` steps all complete without halting. -/
inductive StepsTo : Nat → Machine → Machine → Prop where
  | none (m : Machine) : StepsTo 0 m m
  | step {n : Nat} {m m₁ m₂ : Machine} (first : Continues m m₁) (rest : StepsTo n m₁ m₂) :
    StepsTo (n + 1) m m₂

theorem step_ends (m : Machine) :
    (∃ m', Continues m m') ∨ (∃ reason m', step m = .ok (.halted reason) m') ∨
      ∃ fatal m', step m = .error fatal m' := by
  cases stepped : step m with
  | error fatal m' => exact .inr (.inr ⟨fatal, m', rfl⟩)
  | ok outcome m' =>
    cases outcome with
    | halted reason => exact .inr (.inl ⟨reason, m', rfl⟩)
    | continued | trapped t => exact .inl ⟨m', _, stepped, fun _ => nofun⟩

section FirstStep

variable {m m₁ : Machine} {breakpoints : List UInt64}

theorem run_of_continues (first : Continues m m₁) (n : Nat) : run (n + 1) m = run n m₁ := by
  rcases first with ⟨outcome, stepped, running⟩
  rw [run, bind_of_ok stepped]
  cases outcome with
  | halted reason => exact absurd rfl (running reason)
  | continued | trapped t => rfl

theorem run_of_halted {reason : HaltReason} (stepped : step m = .ok (.halted reason) m₁)
    (n : Nat) : run (n + 1) m = .ok (some reason) m₁ := by
  rw [run, bind_of_ok stepped]
  rfl

theorem run_of_fatal {fatal : FatalTrap} (stepped : step m = .error fatal m₁) (n : Nat) :
    run (n + 1) m = .error fatal m₁ := by
  rw [run, bind_of_error stepped]

private theorem runUntil_of_continues (first : Continues m m₁) (n : Nat) :
    runUntil breakpoints (n + 1) m =
      if m₁.hart.pc ∈ breakpoints then .ok (.breakpoint m₁.hart.pc) m₁
      else runUntil breakpoints n m₁ := by
  rcases first with ⟨outcome, stepped, running⟩
  rw [runUntil, bind_of_ok stepped]
  cases outcome with
  | halted reason => exact absurd rfl (running reason)
  | continued | trapped t =>
    simp only [bind_get, List.contains_iff_mem]
    split <;> rfl

private theorem runUntil_of_halted {reason : HaltReason}
    (stepped : step m = .ok (.halted reason) m₁)
    (n : Nat) : runUntil breakpoints (n + 1) m = .ok (.halted reason) m₁ := by
  rw [runUntil, bind_of_ok stepped]
  rfl

private theorem runUntil_of_fatal {fatal : FatalTrap} (stepped : step m = .error fatal m₁)
    (n : Nat) : runUntil breakpoints (n + 1) m = .error fatal m₁ := by
  rw [runUntil, bind_of_error stepped]

end FirstStep

private theorem Continues.unique {m m₁ m₂ : Machine} (first : Continues m m₁)
    (second : Continues m m₂) : m₁ = m₂ := by
  rcases first with ⟨one, stepped, -⟩
  rcases second with ⟨two, again, -⟩
  rw [stepped] at again
  exact (EStateM.Result.ok.inj again).2

private theorem run_eq_none_iff {n : Nat} {m m' : Machine} :
    run n m = .ok none m' ↔ StepsTo n m m' := by
  induction n generalizing m with
  | zero =>
    constructor
    · intro ran
      obtain rfl := (EStateM.Result.ok.inj ran).2
      exact .none m
    · intro steps
      cases steps
      rfl
  | succ n ih =>
    constructor
    · intro ran
      rcases step_ends m with ⟨m₁, first⟩ | ⟨reason, m₁, stepped⟩ | ⟨fatal, m₁, stepped⟩
      · rw [run_of_continues first] at ran
        exact .step first (ih.1 ran)
      · rw [run_of_halted stepped] at ran
        cases ran
      · rw [run_of_fatal stepped] at ran
        cases ran
    · intro steps
      cases steps with
      | step first rest =>
        rw [run_of_continues first]
        exact ih.2 rest

/-- A run ends with the first step that halts. -/
theorem run_eq_some_iff {n : Nat} {reason : HaltReason} {m m' : Machine} :
    run n m = .ok (some reason) m' ↔
      ∃ k < n, ∃ m₁, StepsTo k m m₁ ∧ step m₁ = .ok (.halted reason) m' := by
  induction n generalizing m with
  | zero =>
    constructor
    · intro ran
      cases ran
    · rintro ⟨k, below, -⟩
      omega
  | succ n ih =>
    constructor
    · intro ran
      rcases step_ends m with ⟨m₁, first⟩ | ⟨other, m₁, stepped⟩ | ⟨fatal, m₁, stepped⟩
      · rw [run_of_continues first] at ran
        obtain ⟨k, below, m₂, steps, halted⟩ := ih.1 ran
        exact ⟨k + 1, by omega, m₂, .step first steps, halted⟩
      · rw [run_of_halted stepped] at ran
        cases ran
        exact ⟨0, by omega, m, .none m, stepped⟩
      · rw [run_of_fatal stepped] at ran
        cases ran
    · rintro ⟨k, below, m₁, steps, halted⟩
      cases steps with
      | none => exact run_of_halted halted n
      | @step k _ m₂ _ first rest =>
        rw [run_of_continues first]
        exact ih.2 ⟨k, by omega, m₁, rest, halted⟩

/-! ### Resuming -/

/-- Goes on with a run that used up its budget; a run that ended otherwise stays ended. -/
def resume (budget : Nat) : EStateM.Result FatalTrap Machine (Option HaltReason) →
    EStateM.Result FatalTrap Machine (Option HaltReason)
  | .ok none m => run budget m
  | .ok (some reason) m => .ok (some reason) m
  | .error fatal m => .error fatal m

def resumeUntil (breakpoints : List UInt64) (budget : Nat) :
    EStateM.Result FatalTrap Machine RunStop → EStateM.Result FatalTrap Machine RunStop
  | .ok .exhausted m => runUntil breakpoints budget m
  | .ok (.breakpoint addr) m => .ok (.breakpoint addr) m
  | .ok (.halted reason) m => .ok (.halted reason) m
  | .error fatal m => .error fatal m

private theorem run_add (n k : Nat) (m : Machine) : run (n + k) m = resume k (run n m) := by
  induction n generalizing m with
  | zero =>
    rw [Nat.zero_add]
    rfl
  | succ n ih =>
    rw [Nat.succ_add]
    rcases step_ends m with ⟨m₁, first⟩ | ⟨reason, m₁, stepped⟩ | ⟨fatal, m₁, stepped⟩
    · rw [run_of_continues first, run_of_continues first]
      exact ih m₁
    · rw [run_of_halted stepped, run_of_halted stepped]
      rfl
    · rw [run_of_fatal stepped, run_of_fatal stepped]
      rfl

private theorem runUntil_add (breakpoints : List UInt64) (n k : Nat) (m : Machine) :
    runUntil breakpoints (n + k) m = resumeUntil breakpoints k (runUntil breakpoints n m) := by
  induction n generalizing m with
  | zero =>
    rw [Nat.zero_add]
    rfl
  | succ n ih =>
    rw [Nat.succ_add]
    rcases step_ends m with ⟨m₁, first⟩ | ⟨reason, m₁, stepped⟩ | ⟨fatal, m₁, stepped⟩
    · rw [runUntil_of_continues first, runUntil_of_continues first]
      by_cases lands : m₁.hart.pc ∈ breakpoints
      · rw [if_pos lands, if_pos lands]
        rfl
      · rw [if_neg lands, if_neg lands]
        exact ih m₁
    · rw [runUntil_of_halted stepped, runUntil_of_halted stepped]
      rfl
    · rw [runUntil_of_fatal stepped, runUntil_of_fatal stepped]
      rfl

/-! ### Breakpoints -/

/-- The `j`-th step is the first one that leaves the program counter on a breakpoint, and it and all
steps before it complete without halting. -/
structure FirstHit (breakpoints : List UInt64) (j : Nat) (m m' : Machine) : Prop where
  positive : 1 ≤ j
  steps : StepsTo j m m'
  lands : m'.hart.pc ∈ breakpoints
  least : ∀ i m₁, 1 ≤ i → i < j → StepsTo i m m₁ → m₁.hart.pc ∉ breakpoints

namespace FirstHit

variable {breakpoints : List UInt64} {j : Nat} {m m₁ m₂ : Machine}

private theorem now (first : Continues m m₁) (lands : m₁.hart.pc ∈ breakpoints) :
    FirstHit breakpoints 1 m m₁ := by
  refine ⟨le_rfl, .step first (.none m₁), lands, ?_⟩
  intro i m₂ some below
  omega

private theorem later (first : Continues m m₁) (misses : m₁.hart.pc ∉ breakpoints)
    (hit : FirstHit breakpoints j m₁ m₂) : FirstHit breakpoints (j + 1) m m₂ := by
  refine ⟨Nat.succ_le_succ (Nat.zero_le j), .step first hit.steps, hit.lands, ?_⟩
  intro i m' some below steps
  cases steps with
  | none => omega
  | @step i _ m₃ _ other rest =>
    obtain rfl := first.unique other
    cases i with
    | zero =>
      cases rest
      exact misses
    | succ i => exact hit.least (i + 1) m' (by omega) (by omega) rest

private theorem cases (first : Continues m m₁) (hit : FirstHit breakpoints j m m₂) :
    (j = 1 ∧ m₂ = m₁ ∧ m₁.hart.pc ∈ breakpoints) ∨
      ∃ i, j = i + 1 ∧ m₁.hart.pc ∉ breakpoints ∧ FirstHit breakpoints i m₁ m₂ := by
  rcases hit with ⟨positive, steps, lands, least⟩
  cases steps with
  | none => omega
  | @step i _ m₃ _ other rest =>
    obtain rfl := first.unique other
    rcases Nat.eq_zero_or_pos i with rfl | some
    · cases rest
      exact .inl ⟨rfl, rfl, lands⟩
    · have misses := least 1 m₁ le_rfl (by omega) (.step first (.none m₁))
      refine .inr ⟨i, rfl, misses, some, rest, lands, ?_⟩
      intro k m' positive below steps
      exact least (k + 1) m' (by omega) (by omega) (.step first steps)

private theorem continues (hit : FirstHit breakpoints j m m₂) : ∃ m₁, Continues m m₁ := by
  rcases hit with ⟨positive, steps, -, -⟩
  cases steps with
  | none => omega
  | step first rest => exact ⟨_, first⟩

end FirstHit

/-- A run with breakpoints reports a breakpoint exactly if the first hit is within its budget. -/
private theorem runUntil_eq_breakpoint_iff {breakpoints : List UInt64} {n : Nat} {a : UInt64}
    {m m' : Machine} :
    runUntil breakpoints n m = .ok (.breakpoint a) m' ↔
      ∃ j ≤ n, FirstHit breakpoints j m m' ∧ m'.hart.pc = a := by
  induction n generalizing m with
  | zero =>
    constructor
    · intro ran
      cases ran
    · rintro ⟨j, below, hit, -⟩
      have positive := hit.positive
      omega
  | succ n ih =>
    rcases step_ends m with ⟨m₁, first⟩ | ⟨reason, m₁, stepped⟩ | ⟨fatal, m₁, stepped⟩
    · rw [runUntil_of_continues first]
      by_cases lands : m₁.hart.pc ∈ breakpoints
      · rw [if_pos lands]
        constructor
        · intro ran
          cases ran
          exact ⟨1, by omega, .now first lands, rfl⟩
        · rintro ⟨j, below, hit, rfl⟩
          rcases hit.cases first with ⟨-, rfl, -⟩ | ⟨i, -, misses, -⟩
          · rfl
          · contradiction
      · rw [if_neg lands, ih]
        constructor
        · rintro ⟨j, below, hit, at_a⟩
          exact ⟨j + 1, by omega, hit.later first lands, at_a⟩
        · rintro ⟨j, below, hit, at_a⟩
          rcases hit.cases first with ⟨-, -, now⟩ | ⟨i, rfl, -, rest⟩
          · contradiction
          · exact ⟨i, by omega, rest, at_a⟩
    · rw [runUntil_of_halted stepped]
      constructor
      · intro ran
        cases ran
      · rintro ⟨j, -, hit, -⟩
        rcases hit.continues with ⟨m₂, outcome, again, running⟩
        rw [stepped] at again
        cases again
        exact absurd rfl (running reason)
    · rw [runUntil_of_fatal stepped]
      constructor
      · intro ran
        cases ran
      · rintro ⟨j, -, hit, -⟩
        rcases hit.continues with ⟨m₂, outcome, again, -⟩
        rw [stepped] at again
        cases again

/-! ### Halting -/

theorem step_of_haltReason? {m : Machine} {reason : HaltReason}
    (exit : m.haltReason? = some reason) : step m = .ok (.halted reason) m := by
  simp only [step, exit]

private theorem trapped_ne_halted {t : Trap} {m m' : Machine} {reason : HaltReason} :
    trapped t m ≠ .ok (.halted reason) m' := by
  intro halted
  rcases trapped_cases t m with taken | ⟨fatal, failed⟩
  · rw [taken] at halted
    cases halted
  · rw [failed] at halted
    cases halted

theorem haltReason?_of_halted {m m' : Machine} {reason : HaltReason}
    (stepped : step m = .ok (.halted reason) m') : m'.haltReason? = some reason := by
  cases exit : m.haltReason? with
  | some earlier =>
    rw [step_of_haltReason? exit] at stepped
    cases stepped
    exact exit
  | none =>
    simp only [step, exit] at stepped
    split at stepped
    · exact absurd stepped trapped_ne_halted
    rw [stepInstruction_eq] at stepped
    cases ran : executeNext m.tickDevices.countCycle with
    | error t m₁ =>
      rw [ran] at stepped
      exact absurd stepped trapped_ne_halted
    | ok _ m₁ =>
      rw [ran, conclude] at stepped
      split at stepped
      next now =>
        cases stepped
        exact now
      next => cases stepped

/-- A machine that has halted stays as it is, whatever is asked of it, and reports its reason in
every run that has a budget. -/
private theorem runs_of_haltReason? {m : Machine} {reason : HaltReason}
    (exit : m.haltReason? = some reason) (breakpoints : List UInt64) (budget : Nat) :
    run budget m = .ok (if budget = 0 then none else some reason) m ∧
      runUntil breakpoints budget m =
        .ok (if budget = 0 then .exhausted else .halted reason) m := by
  have stepped := step_of_haltReason? exit
  cases budget with
  | zero => exact ⟨rfl, rfl⟩
  | succ n => exact ⟨run_of_halted stepped n, runUntil_of_halted stepped n⟩

/-- A run with a budget of `n + k` is a run with a budget of `n`, resumed with `k` if the `n` were
used up; an earlier end does not depend on the budget. A breakpoint is reported exactly if there is
a least number of steps in the budget, all completed without halting, that leave the program counter
on a breakpoint; the machine is then the one after that many steps. A machine whose step reported a
halt does not change any more and reports the same reason again. -/
theorem bounded_runs (breakpoints : List UInt64) (n k : Nat) (m : Machine) :
    run (n + k) m = resume k (run n m) ∧
    runUntil breakpoints (n + k) m = resumeUntil breakpoints k (runUntil breakpoints n m) ∧
    (∀ a m', runUntil breakpoints n m = .ok (.breakpoint a) m' ↔
      ∃ j ≤ n, FirstHit breakpoints j m m' ∧ m'.hart.pc = a ∧ run j m = .ok none m') ∧
    ∀ reason m', step m = .ok (.halted reason) m' →
      step m' = .ok (.halted reason) m' ∧
      run k m' = .ok (if k = 0 then none else some reason) m' ∧
      runUntil breakpoints k m' = .ok (if k = 0 then .exhausted else .halted reason) m' := by
  refine ⟨run_add n k m, runUntil_add breakpoints n k m, ?_, ?_⟩
  · intro a m'
    rw [runUntil_eq_breakpoint_iff]
    constructor
    · rintro ⟨j, below, hit, at_a⟩
      exact ⟨j, below, hit, at_a, run_eq_none_iff.2 hit.steps⟩
    · rintro ⟨j, below, hit, at_a, -⟩
      exact ⟨j, below, hit, at_a⟩
  · intro reason m' stepped
    have exit := haltReason?_of_halted stepped
    exact ⟨step_of_haltReason? exit, runs_of_haltReason? exit breakpoints k⟩

def withExit : Machine :=
  { withCode #[0x97, 0x00, 0x00, 0x00, 0x13, 0x01, 0x10, 0x00, 0x23, 0xa0, 0x20, 0x00] with
    tohost := some Ram.base }

/-- The program is stopped after two steps and resumed; it halts at once, and for good. -/
theorem bounded_runs_untilExit :
    ∃ m m', run 2 withExit = .ok none m ∧ step m = .ok (.halted ⟨1⟩) m' ∧
      run 7 withExit = .ok (some ⟨1⟩) m' ∧ run 5 m' = .ok (some ⟨1⟩) m' ∧
      runUntil [Ram.base] 5 m' = .ok (.halted ⟨1⟩) m' := by
  have halts : (match run 2 withExit with
      | .ok none m =>
        match step m with
        | .ok (.halted reason) _ => reason == ⟨1⟩
        | .ok .continued _ | .ok (.trapped _) _ | .error _ _ => false
      | .ok (some _) _ | .error _ _ => false) = true := by decide +kernel
  cases ran : run 2 withExit with
  | error fatal m =>
    rw [ran] at halts
    exact absurd halts Bool.false_ne_true
  | ok stop m =>
    rw [ran] at halts
    cases stop with
    | some reason => exact absurd halts Bool.false_ne_true
    | none =>
      dsimp only at halts
      cases stepped : step m with
      | error fatal m' =>
        rw [stepped] at halts
        exact absurd halts Bool.false_ne_true
      | ok outcome m' =>
        rw [stepped] at halts
        cases outcome with
        | continued | trapped t => exact absurd halts Bool.false_ne_true
        | halted reason =>
          obtain rfl : reason = ⟨1⟩ := eq_of_beq halts
          rcases bounded_runs [Ram.base] 2 5 withExit with ⟨resumed, -, -, -⟩
          rcases bounded_runs [Ram.base] 2 5 m with ⟨-, -, -, after⟩
          rcases after _ _ stepped with ⟨-, again, untilAgain⟩
          rw [ran, resume, run_of_halted stepped] at resumed
          exact ⟨m, m', rfl, stepped, resumed, again, untilAgain⟩

end RiscvBoard.Machine
