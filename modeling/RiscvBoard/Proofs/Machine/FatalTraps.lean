import RiscvBoard.Proofs.Machine.Executing

/-!
Fatal traps. A step fails exactly if it raises a trap in machine mode that goes to machine mode, and
whose handler is the instruction that raised it or lies outside memory. A step that fails has
changed nothing that a program could see but what the devices show.
-/

set_option autoImplicit false

namespace RiscvBoard

private theorem Trap.isInterrupt_eq_false_iff {t : Trap} :
    t.isInterrupt = false ↔ ∃ e, t.cause = .exception e := by
  unfold isInterrupt
  cases t.cause with
  | exception e => exact iff_of_true rfl ⟨e, rfl⟩
  | interrupt i => exact iff_of_false nofun nofun

namespace Machine

/-- The next step raises a trap, and leaves the machine so: a pending interrupt at the beginning, or
else an exception of the instruction. -/
inductive RaisesIn (m : Machine) : Trap → Machine → Prop where
  | interrupt (i : Interrupt) (pending : m.begun.hart.csrs.pendingInterrupt? = some i) :
    RaisesIn m (.ofInterrupt i m.hart.pc) m.begun
  | exception (t : Trap) (m₁ : Machine) (quiet : m.begun.hart.csrs.pendingInterrupt? = none)
    (failed : executeNext m.begun = .error t m₁) : RaisesIn m t m₁

/-- Machine mode raised the trap and is to handle it, but its handler is the instruction that raised
it, or lies outside memory. -/
structure Unrecoverable (m : Machine) (t : Trap) (handler : UInt64) : Prop where
  mode : m.hart.csrs.privilege = .machine
  route : m.hart.csrs.route t = ⟨.machine, handler⟩
  stuck : (∃ e, t.cause = .exception e) ∧ handler = t.pc ∨ ¬ m.bus.tick.ram.contains handler 2

/-- Nothing that a program can see differs but what the devices did and what they show. -/
structure Unaltered (m m' : Machine) : Prop where
  regs : m'.hart.regs = m.hart.regs
  pc : m'.hart.pc = m.hart.pc
  csrs : ∃ mip time cycle, AgreeOutside Interrupt.drivenBits mip m.hart.csrs.mip ∧
    m'.hart.csrs = { m.hart.csrs with mip := mip, time := time, cycle := cycle }
  exitCode : m'.exitCode = m.exitCode
  ram : OnlyMarks m.begun.hart.csrs m.bus.tick.ram m'.bus.ram

section Raising

variable {m m₁ m' : Machine} {t : Trap}

private theorem RaisesIn.undisturbed (raises : m.RaisesIn t m₁) : Undisturbed m.begun m₁ := by
  cases raises with
  | interrupt i pending => exact .refl m.begun
  | exception t m₁ quiet failed =>
    exact ((ends_executeNext m.begun).of_error failed).undisturbed

private theorem step_of_raises (running : m.haltReason? = none) (raises : m.RaisesIn t m₁) :
    step m = trapped t m₁ := by
  have begins : m.tickDevices.countCycle = m.begun := rfl
  cases raises with
  | interrupt i pending => simp only [step, running, begins, pending, begun_pc]
  | exception t m₁ quiet failed =>
    simp only [step, running, begins, quiet, stepInstruction_eq, failed, conclude]

private theorem raises_of_fatal {f : FatalTrap} (stepped : step m = .error f m') :
    m.haltReason? = none ∧ ∃ t m₁, m.RaisesIn t m₁ ∧ trapped t m₁ = .error f m' := by
  have begins : m.tickDevices.countCycle = m.begun := rfl
  cases running : m.haltReason? with
  | some reason =>
    simp only [step, running] at stepped
    contradiction
  | none =>
    refine ⟨rfl, ?_⟩
    cases pending : m.begun.hart.csrs.pendingInterrupt? with
    | some i =>
      have raises := RaisesIn.interrupt i pending
      exact ⟨_, _, raises, (step_of_raises running raises).symm.trans stepped⟩
    | none =>
      cases ran : executeNext m.begun with
      | error t m₁ =>
        have raises := RaisesIn.exception t m₁ pending ran
        exact ⟨t, m₁, raises, (step_of_raises running raises).symm.trans stepped⟩
      | ok _ m₁ =>
        simp only [step, running, begins, pending, stepInstruction_eq, ran, conclude] at stepped
        split at stepped <;> contradiction

private theorem begun_route (m : Machine) (t : Trap) :
    m.begun.hart.csrs.route t = m.hart.csrs.route t := by
  obtain ⟨mip, time, cycle, -, hart⟩ := m.begun_hart
  rw [hart]
  rfl

private theorem isFatal_iff {route : TrapRoute} : m.isFatal t route ↔
    m.hart.csrs.privilege = .machine ∧ route.target = .machine ∧
      ((∃ e, t.cause = .exception e) ∧ route.handler = t.pc ∨
        ¬ m.bus.ram.contains route.handler 2) := by
  rw [← Trap.isInterrupt_eq_false_iff]
  simp only [isFatal, Bool.and_eq_true, Bool.or_eq_true, Bool.not_eq_true', beq_iff_eq, and_assoc,
    Bool.not_eq_true]

/-- A raised trap is fatal exactly if it is unrecoverable. -/
private theorem RaisesIn.trapped_iff (raises : m.RaisesIn t m₁) (handler : UInt64) :
    trapped t m₁ = .error ⟨t, handler⟩ m₁ ↔ m.Unrecoverable t handler := by
  have same := raises.undisturbed
  have route : m₁.hart.csrs.route t = m.hart.csrs.route t := by rw [same.hart, begun_route]
  have mode : m₁.hart.csrs.privilege = m.hart.csrs.privilege := by rw [same.hart, begun_privilege]
  have memory : m₁.bus.ram.contains (m.hart.csrs.route t).handler 2 =
      m.bus.tick.ram.contains (m.hart.csrs.route t).handler 2 := by
    rw [Ram.contains_of_size same.ram.size, begun_bus]
  have fatal : m₁.isFatal t (m.hart.csrs.route t) ↔
      m.Unrecoverable t (m.hart.csrs.route t).handler := by
    rw [isFatal_iff, mode, memory]
    constructor
    · rintro ⟨machine, target, stuck⟩
      exact ⟨machine, by rw [← target], stuck⟩
    · rintro ⟨machine, target, stuck⟩
      exact ⟨machine, congrArg TrapRoute.target target, stuck⟩
  rw [trapped_eq, route]
  constructor
  · intro failed
    split at failed
    next found =>
      obtain rfl : _ = handler := congrArg FatalTrap.handler (EStateM.Result.error.inj failed).1
      exact fatal.1 found
    next => contradiction
  · intro stuck
    have same : (m.hart.csrs.route t).handler = handler := by rw [stuck.route]
    subst same
    rw [if_pos (fatal.2 stuck)]

end Raising

private theorem RaisesIn.unaltered {m m₁ : Machine} {t : Trap} (raises : m.RaisesIn t m₁) :
    m.Unaltered m₁ := by
  have same := raises.undisturbed
  obtain ⟨mip, time, cycle, agree, begun⟩ := m.begun_hart
  have hart := same.hart.trans begun
  have ram := same.ram
  rw [begun_bus] at ram
  exact {
    regs := by rw [hart]
    pc := by rw [hart]
    csrs := ⟨mip, time, cycle, agree, by rw [hart]⟩
    exitCode := same.exitCode.trans m.begun_exitCode
    ram := ram }

/-- A step fails with a trap and a handler exactly if the machine runs, and raises the trap, and the
trap is unrecoverable with that handler. Nothing that a program can see is altered then. -/
theorem step_fatal_iff (m : Machine) (t : Trap) (handler : UInt64) :
    ((∃ m', step m = .error ⟨t, handler⟩ m') ↔
      m.haltReason? = none ∧ (∃ m', m.RaisesIn t m') ∧ m.Unrecoverable t handler) ∧
    ∀ m', step m = .error ⟨t, handler⟩ m' → m.Unaltered m' := by
  have raised {m' : Machine} (stepped : step m = .error ⟨t, handler⟩ m') :
      m.haltReason? = none ∧ m.RaisesIn t m' ∧ m.Unrecoverable t handler := by
    obtain ⟨running, t', m₁, raises, failed⟩ := raises_of_fatal stepped
    have ends := trapped_eq t' m₁
    rw [failed] at ends
    split at ends
    · obtain ⟨same, rfl⟩ := EStateM.Result.error.inj ends
      obtain ⟨rfl, rfl⟩ := FatalTrap.mk.inj same
      exact ⟨running, raises, (raises.trapped_iff _).1 failed⟩
    · contradiction
  constructor
  · constructor
    · rintro ⟨m', stepped⟩
      obtain ⟨running, raises, stuck⟩ := raised stepped
      exact ⟨running, ⟨m', raises⟩, stuck⟩
    · rintro ⟨running, ⟨m', raises⟩, stuck⟩
      exact ⟨m', (step_of_raises running raises).trans ((raises.trapped_iff handler).2 stuck)⟩
  · intro m' stepped
    exact (raised stepped).2.1.unaltered

def withOwnHandler : Machine :=
  (withCode #[0x73, 0, 0, 0]).setCsrs { CsrFile.reset .rv64 with mtvec := Ram.base }

def fatalTrap? (m : Machine) : Option FatalTrap :=
  match step m with
  | .ok _ _ => none
  | .error f _ => some f

/-- The call is fatal, since its handler is the call itself. -/
theorem step_fatal_iff_ownHandler :
    ∃ m', step withOwnHandler =
        .error ⟨.ofException (.environmentCall .machine) Ram.base, Ram.base⟩ m' ∧
      withOwnHandler.Unaltered m' := by
  have fails : withOwnHandler.fatalTrap? =
      some ⟨.ofException (.environmentCall .machine) Ram.base, Ram.base⟩ := by decide +kernel
  unfold fatalTrap? at fails
  cases stepped : step withOwnHandler with
  | ok outcome m' =>
    rw [stepped] at fails
    contradiction
  | error f m' =>
    rw [stepped] at fails
    obtain rfl := Option.some.inj fails
    exact ⟨m', rfl, (step_fatal_iff _ _ _).2 m' stepped⟩

end Machine

end RiscvBoard
