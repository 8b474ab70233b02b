import RiscvBoard.Proofs.Csr.Access
import RiscvBoard.Proofs.Machine.Step

/-!
Isolation of the privilege modes. No instruction of user or supervisor mode changes machine-level
state, none of user mode changes any control state, and only a trap raises the mode.
-/

set_option autoImplicit false

namespace RiscvBoard

/-- What a lower mode must leave as it is: the machine-level registers, the machine-level fields of
the status word, and the interrupts that are not delegated. -/
structure MachineLevelKept (before after : CsrFile) : Prop where
  mtvec : after.mtvec = before.mtvec
  mepc : after.mepc = before.mepc
  mcause : after.mcause = before.mcause
  mtval : after.mtval = before.mtval
  medeleg : after.medeleg = before.medeleg
  mideleg : after.mideleg = before.mideleg
  mscratch : after.mscratch = before.mscratch
  mcounteren : after.mcounteren = before.mcounteren
  mcountinhibit : after.mcountinhibit = before.mcountinhibit
  cycle : after.cycle = before.cycle
  instret : after.instret = before.instret
  pmpcfg : after.pmpcfg = before.pmpcfg
  pmpaddr : after.pmpaddr = before.pmpaddr
  mstatus : AgreeOutside Status.supervisorWritable after.mstatus before.mstatus
  mie : AgreeOutside before.mideleg after.mie before.mie
  mip : AgreeOutside before.mideleg after.mip before.mip

private theorem MachineLevelKept.refl (c : CsrFile) : MachineLevelKept c c := by
  constructor <;> rfl

namespace CsrFile

private theorem set_kept (c : CsrFile) (value : UInt64) {csr : Csr}
    (level : csr.level = .supervisor) : MachineLevelKept c (c.set value csr) := by
  have kept := MachineLevelKept.refl c
  cases csr with
  | sstatus => exact { kept with mstatus := .merge _ _ _ }
  | sie =>
    have delegated : Within c.mideleg (c.mideleg &&& Interrupt.supervisorBits) :=
      (Within.refl _).and_left _
    exact { kept with mie := (AgreeOutside.merge _ _ _).mono delegated }
  | sip =>
    have delegated : Within c.mideleg (Interrupt.supervisorSoftware.bit &&& c.mideleg) :=
      (Within.refl _).and_right _
    exact { kept with mip := (AgreeOutside.merge _ _ _).mono delegated }
  | satp =>
    by_cases supported : supportsRoot c.xlen value
    · simp only [set, if_pos supported]
      exact { kept with }
    · simp only [set, if_neg supported]
      exact kept
  | stvec | scounteren | senvcfg | sscratch | sepc | scause | stval => exact { kept with }
  | _ => contradiction

/-- A write in supervisor mode has no effect on machine-level state. -/
theorem write_kept {c d : CsrFile} (mode : c.privilege ≠ .machine) {number : UInt16}
    {value : UInt64} (written : c.write number value = .ok d) : MachineLevelKept c d := by
  obtain ⟨csr, low, notUser, rfl⟩ := write_eq_ok written
  exact c.set_kept _ (Privilege.eq_supervisor low notUser mode)

private theorem not_write_of_user {c d : CsrFile} (mode : c.privilege = .user) {number : UInt16}
    {value : UInt64} (written : c.write number value = .ok d) : False := by
  obtain ⟨csr, low, notUser, -⟩ := write_eq_ok written
  rw [mode] at low
  exact notUser (Privilege.eq_user low)

theorem write_privilege {c d : CsrFile} {number : UInt16} {value : UInt64}
    (written : c.write number value = .ok d) : d.privilege = c.privilege := by
  obtain ⟨csr, -, -, rfl⟩ := write_eq_ok written
  exact c.set_privilege _ csr

end CsrFile

private theorem spp_le (c : CsrFile) : c.spp ≤ .supervisor := by
  unfold CsrFile.spp
  split <;> decide

private theorem supervisor_le_of_granted {c : CsrFile} {trapped : UInt64}
    (granted : Machine.refusesSupervisor c trapped = false) : .supervisor ≤ c.privilege := by
  unfold Machine.refusesSupervisor at granted
  cases mode : c.privilege with
  | user => simp [mode] at granted
  | supervisor => decide
  | machine => decide

namespace Hart

/-- No instruction raises the privilege mode. -/
private theorem Effect.privilege_le {len : UInt64} {h h' : Hart} (effect : Effect len h h') :
    h'.csrs.privilege ≤ h.csrs.privilege := by
  cases effect with
  | control c rd value number operand written =>
    rw [write_csrs, CsrFile.write_privilege written]
    exact Privilege.le_refl _
  | plain _ effect =>
    cases effect with
    | compute rd value =>
      rw [write_csrs]
      exact Privilege.le_refl _
    | jump link target even =>
      rw [write_csrs]
      exact Privilege.le_refl _
    | machineReturn mode =>
      rw [mode]
      exact Privilege.le_machine _
    | supervisorReturn granted =>
      exact Privilege.le_trans (spp_le h.csrs) (supervisor_le_of_granted granted)

/-- What must hold of the control state after an instruction of a lower mode. -/
structure Isolated (before after : CsrFile) : Prop where
  lower : after.privilege ≤ before.privilege
  kept : MachineLevelKept before after
  user : before.privilege = .user → after = before

private theorem Isolated.refl (c : CsrFile) : Isolated c c :=
  ⟨Privilege.le_refl _, .refl c, fun _ => rfl⟩

private theorem Effect.isolated {len : UInt64} {h h' : Hart} (effect : Effect len h h')
    (mode : h.csrs.privilege ≠ .machine) (clear : h.csrs.statusBit Status.mprv = false) :
    Isolated h.csrs h'.csrs := by
  have lower := effect.privilege_le
  cases effect with
  | control c rd value number operand written =>
    rw [write_csrs] at lower ⊢
    exact ⟨lower, CsrFile.write_kept mode written,
      fun user => (CsrFile.not_write_of_user user written).elim⟩
  | plain _ effect =>
    cases effect with
    | compute rd value =>
      rw [write_csrs]
      exact .refl _
    | jump link target even =>
      rw [write_csrs]
      exact .refl _
    | machineReturn machine => exact absurd machine mode
    | supervisorReturn granted =>
      have status := (supervisorReturn_mstatus_of_clear clear).mono
        (show Within Status.supervisorWritable (CsrFile.trapFields .supervisor) by decide)
      refine ⟨lower, { MachineLevelKept.refl h.csrs with mstatus := status }, fun user => ?_⟩
      have above := supervisor_le_of_granted granted
      rw [user] at above
      exact absurd above (by decide)

end Hart

namespace Machine

/-- The privilege modes are isolated: no instruction of user or supervisor mode that completes
raises the mode or changes machine-level state, none of user mode changes any control state, and a
step that raises the mode has taken a trap. -/
theorem privilege_isolation :
    (∀ (m m' : Machine) (i : Instr) (raw : UInt32) (len : UInt64),
      m.hart.csrs.privilege ≠ .machine → m.hart.csrs.statusBit Status.mprv = false →
      execute i raw len m = .ok () m' → Hart.Isolated m.hart.csrs m'.hart.csrs) ∧
    ∀ (m m' : Machine) (outcome : StepOutcome), step m = .ok outcome m' →
      m.hart.csrs.privilege < m'.hart.csrs.privilege → ∃ t, outcome = .trapped t := by
  constructor
  · intro m m' i raw len mode clear completed
    have effect := ends_execute i raw len m
    unfold Ends at effect
    rw [completed] at effect
    exact effect.isolated mode clear
  · intro m m' outcome stepped raised
    cases step_effect stepped with
    | halted reason exit => exact absurd raised (Privilege.not_lt_of_le (Privilege.le_refl _))
    | retired _ len m₂ even effect untrapped =>
      have lower := effect.privilege_le
      rw [m.begun_privilege, ← m₂.retire_privilege] at lower
      exact absurd raised (Privilege.not_lt_of_le lower)
    | trapped t m₂ trapping => exact ⟨t, rfl⟩

/-- A supervisor enables its interrupts, and a fetch from its missing memory is trapped. -/
theorem privilege_isolation_sstatus :
    (∃ m', execute (.csr .set 1 0x100 (.imm 2)) 0 4 (withoutMemory .supervisor) = .ok () m' ∧
      Hart.Isolated (withoutMemory .supervisor).hart.csrs m'.hart.csrs) ∧
    ∃ m' outcome, step (withoutMemory .user) = .ok outcome m' ∧ ∃ t, outcome = .trapped t := by
  constructor
  · let i : Instr := .csr .set 1 0x100 (.imm 2)
    exact ⟨_, rfl, privilege_isolation.1 _ _ i 0 4 (by decide) (by decide) rfl⟩
  · have raised : (match step (withoutMemory .user) with
        | .ok _ m' => decide ((withoutMemory .user).hart.csrs.privilege < m'.hart.csrs.privilege)
        | _ => false) = true := by rfl
    cases stepped : step (withoutMemory .user) with
    | error fatal m' =>
      rw [stepped] at raised
      contradiction
    | ok outcome m' =>
      rw [stepped] at raised
      exact ⟨m', outcome, rfl, privilege_isolation.2 _ _ _ stepped (of_decide_eq_true raised)⟩

end Machine

end RiscvBoard
