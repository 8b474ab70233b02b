import RiscvBoard.Proofs.Machine.Execute
import RiscvBoard.Proofs.Machine.Hart

/-!
What one step of the machine can do. A machine that has halted stays as it is; otherwise time
passes, and then an instruction retires, a trap is entered, or a trap turns out to be fatal.
-/

set_option autoImplicit false

namespace RiscvBoard

/-- The bits of pending interrupts that show the lines of the devices. -/
def Interrupt.drivenBits : UInt64 :=
  machineTimer.bit ||| machineSoftware.bit ||| machineExternal.bit ||| supervisorExternal.bit

namespace Machine

def withoutMemory (mode : Privilege) : Machine :=
  { reset 0 .rv64 with
    hart := { Hart.reset .rv64 with csrs := { CsrFile.reset .rv64 with privilege := mode } }
    bus := { Bus.reset 0 with ram := ⟨.empty⟩ } }

/-- A 64-bit machine after reset that has some code in memory and nothing else. -/
def withCode (code : Array UInt8) : Machine :=
  { reset 0 .rv64 with bus := { Bus.reset 0 with ram := ⟨⟨code⟩⟩ } }

/-- The machine after the next step, also if its trap is fatal. -/
def afterStep (m : Machine) : Machine :=
  match step m with
  | .ok _ m' => m'
  | .error _ m' => m'

def outcome? (m : Machine) : Option StepOutcome :=
  match step m with
  | .ok outcome _ => some outcome
  | .error _ _ => none

theorem step_of_outcome? {m : Machine} {outcome : StepOutcome} (ends : m.outcome? = some outcome) :
    step m = .ok outcome m.afterStep := by
  unfold outcome? at ends
  cases stepped : step m with
  | ok outcome' m' =>
    rw [stepped] at ends
    rw [Option.some.inj ends, afterStep, stepped]
  | error t m' =>
    rw [stepped] at ends
    contradiction

/-- The machine after time has passed, at the beginning of an instruction or of an interrupt. -/
def begun (m : Machine) : Machine :=
  m.tickDevices.countCycle

theorem drive_eq (b : Bus) (c : CsrFile) :
    b.drive c = { c with time := b.clint.mtime, mip := (b.drive c).mip } := by
  dsimp only [Bus.drive, CsrFile.setPending]

theorem drive_mip (b : Bus) (c : CsrFile) :
    AgreeOutside Interrupt.drivenBits (b.drive c).mip c.mip :=
  (AgreeOutside.setPending (by decide) _ _).trans
    ((AgreeOutside.setPending (by decide) _ _).trans
      ((AgreeOutside.setPending (by decide) _ _).trans (.setPending (by decide) _ _)))

private theorem countCycle_eq (m : Machine) :
    ∃ cycle, m.countCycle = m.setCsrs { m.hart.csrs with cycle := cycle } := by
  unfold countCycle
  dsimp only
  split
  · exact ⟨_, rfl⟩
  · exact ⟨m.hart.csrs.cycle, rfl⟩

private theorem tickDevices_eq (m : Machine) :
    m.tickDevices = { m with
      bus := m.bus.tick
      hart := { m.hart with csrs := m.bus.tick.drive m.hart.csrs } } := by
  dsimp only [tickDevices, setCsrs]

theorem begun_hart (m : Machine) :
    ∃ mip time cycle, AgreeOutside Interrupt.drivenBits mip m.hart.csrs.mip ∧
      m.begun.hart = { m.hart with
        csrs := { m.hart.csrs with mip := mip, time := time, cycle := cycle } } := by
  have agree := drive_mip m.bus.tick m.hart.csrs
  obtain ⟨cycle, counted⟩ := countCycle_eq m.tickDevices
  refine ⟨(m.bus.tick.drive m.hart.csrs).mip, m.bus.tick.clint.mtime, cycle, agree, ?_⟩
  rw [begun, counted, tickDevices_eq, drive_eq]
  dsimp only [setCsrs]

theorem begun_regs (m : Machine) : m.begun.hart.regs = m.hart.regs := by
  obtain ⟨mip, time, cycle, -, hart⟩ := m.begun_hart
  rw [hart]

theorem begun_pc (m : Machine) : m.begun.hart.pc = m.hart.pc := by
  obtain ⟨mip, time, cycle, -, hart⟩ := m.begun_hart
  rw [hart]

theorem begun_privilege (m : Machine) : m.begun.hart.csrs.privilege = m.hart.csrs.privilege := by
  obtain ⟨mip, time, cycle, -, hart⟩ := m.begun_hart
  rw [hart]

theorem begun_instret (m : Machine) : m.begun.hart.csrs.instret = m.hart.csrs.instret := by
  obtain ⟨mip, time, cycle, -, hart⟩ := m.begun_hart
  rw [hart]

theorem begun_exitCode (m : Machine) : m.begun.exitCode = m.exitCode := by
  obtain ⟨cycle, counted⟩ := countCycle_eq m.tickDevices
  rw [begun, counted, tickDevices_eq]
  dsimp only [setCsrs]

theorem begun_tohost (m : Machine) : m.begun.tohost = m.tohost := by
  obtain ⟨cycle, counted⟩ := countCycle_eq m.tickDevices
  rw [begun, counted, tickDevices_eq]
  dsimp only [setCsrs]

theorem begun_bus (m : Machine) : m.begun.bus = m.bus.tick := by
  obtain ⟨cycle, counted⟩ := countCycle_eq m.tickDevices
  rw [begun, counted, tickDevices_eq]
  dsimp only [setCsrs]

theorem begun_reservation (m : Machine) : m.begun.reservation = m.reservation := by
  obtain ⟨cycle, counted⟩ := countCycle_eq m.tickDevices
  rw [begun, counted, tickDevices_eq]
  dsimp only [setCsrs]

theorem begun_read (m : Machine) (r : Reg) : m.begun.hart.read r = m.hart.read r := by
  simp only [Hart.read, m.begun_regs]

theorem retire_hart (m : Machine) :
    ∃ instret, m.retire.hart = { m.hart with
      pc := m.xlen.truncate m.hart.pc, csrs := { m.hart.csrs with instret := instret } } := by
  unfold retire countInstruction
  dsimp only
  split
  · exact ⟨m.hart.csrs.instret + 1, rfl⟩
  · exact ⟨m.hart.csrs.instret, rfl⟩

theorem retire_privilege (m : Machine) : m.retire.hart.csrs.privilege = m.hart.csrs.privilege := by
  obtain ⟨instret, hart⟩ := m.retire_hart
  rw [hart]

theorem retire_read (m : Machine) (r : Reg) : m.retire.hart.read r = m.hart.read r := by
  obtain ⟨instret, hart⟩ := m.retire_hart
  rw [hart]
  rfl

theorem retire_reservation (m : Machine) : m.retire.reservation = m.reservation := by
  simp only [retire, countInstruction]
  split <;> rfl

theorem retire_bus (m : Machine) : m.retire.bus = m.bus := by
  simp only [retire, countInstruction]
  split <;> rfl

theorem retire_exitCode (m : Machine) : m.retire.exitCode = m.exitCode := by
  simp only [retire, countInstruction]
  split <;> rfl

theorem retire_tohost (m : Machine) : m.retire.tohost = m.tohost := by
  simp only [retire, countInstruction]
  split <;> rfl

/-- A trap that is about to be taken in place of an instruction: nothing was disturbed, and the trap
is an interrupt or a sound exception at the program counter. -/
structure Trapping (m : Machine) (t : Trap) (m' : Machine) : Prop where
  undisturbed : Undisturbed m m'
  pc : t.pc = m.hart.pc
  cause : (∃ i, t.cause = .interrupt i) ∨
    ∃ e : Exception, t.cause = .exception e ∧ e.Sound m.xlen m.hart.pc

private theorem Trapping.of_aborted {m m' : Machine} {t : Trap} (aborted : Aborted m t m') :
    Trapping m t m' := by
  obtain ⟨same, e, rfl, sound⟩ := aborted
  exact ⟨same, rfl, .inr ⟨e, rfl, sound⟩⟩

private theorem Trapping.interrupt (m : Machine) (i : Interrupt) :
    Trapping m (.ofInterrupt i m.hart.pc) m :=
  ⟨.refl m, rfl, .inl ⟨i, rfl⟩⟩

def entered (m : Machine) (t : Trap) : Machine :=
  { m with reservation := none, hart := m.hart.enter t (m.hart.csrs.route t) }

/-- What a step does when it is not stopped by a fatal trap. -/
inductive StepEffect (m : Machine) : StepOutcome → Machine → Prop where
  /-- The machine had halted. -/
  | halted (reason : HaltReason) (exit : m.haltReason? = some reason) :
    StepEffect m (.halted reason) m
  /-- An instruction of `len` bytes retired. -/
  | retired (outcome : StepOutcome) (len : UInt64) (m₂ : Machine) (even : IsEven len)
    (effect : Hart.Effect len m.begun.hart m₂.hart) (untrapped : ∀ t, outcome ≠ .trapped t) :
    StepEffect m outcome m₂.retire
  /-- A trap was entered. -/
  | trapped (t : Trap) (m₂ : Machine) (trapping : Trapping m.begun t m₂) :
    StepEffect m (.trapped t) (m₂.entered t)

private theorem ends_takeTrap (t : Trap) (m : Machine) :
    Ends (takeTrap t) m (fun _ m' => m' = m.entered t) (fun f m' => f.trap = t ∧ m' = m) := by
  unfold Ends takeTrap
  by_cases fatal : m.isFatal t (m.hart.csrs.route t)
  · simp only [if_pos fatal]
    exact ⟨trivial, trivial⟩
  · simp only [if_neg fatal]
    rfl

private theorem ends_trapped {m m₂ : Machine} {t : Trap} (trapping : Trapping m.begun t m₂) :
    Ends (trapped t) m₂ (StepEffect m) (fun f m' => Trapping m.begun f.trap m') := by
  have taken : Ends (takeTrap t) m₂ (fun _ m' => m' = m₂.entered t)
      (fun f m' => Trapping m.begun f.trap m') := by
    refine (ends_takeTrap t m₂).mono (fun _ _ entered => entered) ?_
    rintro f _ ⟨rfl, rfl⟩
    exact trapping
  refine taken.bind ?_
  rintro _ _ rfl
  exact .trapped t m₂ trapping

private theorem ends_stepInstruction (m : Machine) :
    Ends stepInstruction m.begun (StepEffect m) (fun f m' => Trapping m.begun f.trap m') := by
  have executed := ends_executeNext m.begun
  unfold Ends stepInstruction
  unfold Ends at executed
  cases ran : executeNext m.begun with
  | ok result m₂ =>
    rw [ran] at executed
    obtain ⟨len, even, effect⟩ := executed
    dsimp only
    cases m₂.retire.haltReason? with
    | none => exact .retired _ len m₂ even effect fun _ => nofun
    | some reason => exact .retired _ len m₂ even effect fun _ => nofun
  | error t m₂ =>
    rw [ran] at executed
    exact ends_trapped (.of_aborted executed)

/-- A step has one of its effects, or a fatal trap stops it before it enters a handler. -/
private theorem ends_step (m : Machine) :
    Ends step m (StepEffect m) (fun f m' => Trapping m.begun f.trap m') := by
  have begins : m.tickDevices.countCycle = m.begun := rfl
  unfold Ends step
  cases exit : m.haltReason? with
  | some reason => exact .halted reason exit
  | none =>
    simp only [begins]
    cases m.begun.hart.csrs.pendingInterrupt? with
    | some i => exact ends_trapped (.interrupt m.begun i)
    | none => exact ends_stepInstruction m

theorem step_effect {m m' : Machine} {outcome : StepOutcome}
    (stepped : step m = .ok outcome m') : StepEffect m outcome m' := by
  have ends := ends_step m
  unfold Ends at ends
  rw [stepped] at ends
  exact ends

theorem step_fatal {m m' : Machine} {fatal : FatalTrap} (stepped : step m = .error fatal m') :
    Trapping m.begun fatal.trap m' := by
  have ends := ends_step m
  unfold Ends at ends
  rw [stepped] at ends
  exact ends

end Machine

end RiscvBoard
