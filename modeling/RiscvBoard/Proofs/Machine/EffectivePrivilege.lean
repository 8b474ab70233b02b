import RiscvBoard.Proofs.Machine.Isolation
import RiscvBoard.Proofs.Machine.TrapReturn

/-!
The privilege at which accesses are checked. The status word may lend the privilege of the previous
machine mode to loads and stores, and this is to have an effect in machine mode alone. The hart does
not look at the mode when it decides on an access. It need not, because the lending bit is clear
whenever a run is in a lower mode: whatever leaves machine mode clears it, and a lower mode cannot
set it.
-/

set_option autoImplicit false

namespace RiscvBoard

namespace CsrFile

/-- The privilege of an access according to the documentation: in machine mode, loads and stores may
be checked at the previous mode. -/
def documentedPrivilege (c : CsrFile) (kind : AccessKind) : Privilege :=
  if kind ≠ .fetch ∧ c.statusBit Status.mprv ∧ c.privilege = .machine then c.mpp else c.privilege

/-- Whether the lending bit is clear outside of machine mode. -/
def LendsInMachine (c : CsrFile) : Prop :=
  c.privilege ≠ .machine → c.statusBit Status.mprv = false

namespace LendsInMachine

variable {c d : CsrFile}

private theorem reset (xlen : Xlen) : (CsrFile.reset xlen).LendsInMachine := by
  intro lower
  exact absurd rfl lower

private theorem of_clear (clear : c.statusBit Status.mprv = false) : c.LendsInMachine := by
  intro _
  exact clear

private theorem of_agree (lends : c.LendsInMachine) {fields : UInt64}
    (mode : d.privilege ≠ .machine → c.privilege ≠ .machine)
    (agree : d.privilege ≠ .machine → AgreeOutside fields d.mstatus c.mstatus)
    (apart : fields &&& Status.mprv = 0) : d.LendsInMachine := by
  intro lower
  have clear := lends (mode lower)
  have same := (agree lower).and_eq apart
  simp only [statusBit, same]
  exact clear

private theorem of_same (lends : c.LendsInMachine) (mode : d.privilege = c.privilege)
    (status : d.mstatus = c.mstatus) : d.LendsInMachine := by
  intro lower
  rw [mode] at lower
  simp only [statusBit, status]
  exact lends lower

private theorem effectivePrivilege (lends : c.LendsInMachine) (kind : AccessKind) :
    c.effectivePrivilege kind = c.documentedPrivilege kind := by
  by_cases machine : c.privilege = .machine
  · simp [CsrFile.effectivePrivilege, documentedPrivilege, machine]
  · simp [CsrFile.effectivePrivilege, documentedPrivilege, machine, lends machine]

private theorem effectivePrivilege_of_lower (lends : c.LendsInMachine)
    (lower : c.privilege ≠ .machine)
    (kind : AccessKind) : c.effectivePrivilege kind = c.privilege := by
  simp [CsrFile.effectivePrivilege, lends lower]

/-! ### What keeps the bit clear -/

private theorem write (lends : c.LendsInMachine) {number : UInt16} {operand : UInt64}
    (written : c.write number operand = .ok d) : d.LendsInMachine := by
  have mode := write_privilege written
  have still (lower : d.privilege ≠ .machine) : c.privilege ≠ .machine := by rwa [mode] at lower
  exact lends.of_agree still (fun lower => (write_kept (still lower) written).mstatus) (by decide)

end LendsInMachine

end CsrFile

namespace Hart

variable {h h' : Hart}

private theorem machineReturn_lends (h : Hart) : h.machineReturn.csrs.LendsInMachine := by
  intro lower
  have below : h.csrs.mpp ≠ .machine := by
    rw [machineReturn_eq] at lower
    exact lower
  rw [machineReturn_mprv, if_neg below]

private theorem supervisorReturn_lends (h : Hart) : h.supervisorReturn.csrs.LendsInMachine :=
  .of_clear (supervisorReturn_mprv h)

private theorem enter_lends (lends : h.csrs.LendsInMachine) (t : Trap) :
    (h.enter t (h.csrs.route t)).csrs.LendsInMachine := by
  have saved := h.enter_saved t
  rcases h.csrs.route_target t with ⟨target, below⟩ | target
  · rw [target] at saved
    generalize (h.enter t (h.csrs.route t)).csrs = d at saved ⊢
    cases saved with
    | supervisor status fields =>
      exact lends.of_agree (fun _ => below) (fun _ => fields) (by decide)
  · intro lower
    rw [saved.privilege, target] at lower
    exact absurd rfl lower

private theorem Effect.lends {len : UInt64} (effect : Effect len h h')
    (lends : h.csrs.LendsInMachine) : h'.csrs.LendsInMachine := by
  cases effect with
  | control c rd value number operand written =>
    rw [write_csrs]
    exact lends.write written
  | plain _ effect =>
    cases effect with
    | compute rd value =>
      rw [write_csrs]
      exact lends
    | jump link target even =>
      rw [write_csrs]
      exact lends
    | machineReturn mode => exact h.machineReturn_lends
    | supervisorReturn granted => exact h.supervisorReturn_lends

end Hart

namespace Machine

variable {m m' : Machine}

private theorem begun_lends (lends : m.hart.csrs.LendsInMachine) :
    m.begun.hart.csrs.LendsInMachine := by
  rcases m.begun_hart with ⟨mip, time, cycle, -, hart⟩
  rw [hart]
  exact lends.of_same rfl rfl

private theorem retire_lends (lends : m.hart.csrs.LendsInMachine) :
    m.retire.hart.csrs.LendsInMachine := by
  rcases m.retire_hart with ⟨instret, hart⟩
  rw [hart]
  exact lends.of_same rfl rfl

private theorem StepEffect.lends {outcome : StepOutcome} (effect : StepEffect m outcome m')
    (lends : m.hart.csrs.LendsInMachine) : m'.hart.csrs.LendsInMachine := by
  have begun := begun_lends lends
  cases effect with
  | halted reason exit => exact lends
  | retired _ len m₂ even effect untrapped => exact retire_lends (effect.lends begun)
  | trapped t m₂ trapping =>
    rw [← trapping.undisturbed.hart] at begun
    exact Hart.enter_lends begun t

private theorem reaches_lends {xlen : Xlen} (reached : Reaches xlen m) :
    m.hart.csrs.LendsInMachine := by
  induction reached with
  | start m reset =>
    rw [reset]
    exact .reset xlen
  | receive m bytes reached ih => exact ih
  | step m m' outcome reached stepped ih => exact (step_effect stepped).lends ih
  | fatal m m' fatal reached stepped ih =>
    rw [(step_fatal stepped).undisturbed.hart]
    exact begun_lends ih

/-- In every reached machine the lending bit is clear outside of machine mode. Hence its accesses
are checked as documented, those of its next instruction as well, and a lower mode never has an
access checked at another privilege than its own. -/
theorem reaches_effectivePrivilege {xlen : Xlen} (reached : Reaches xlen m) :
    (m.hart.csrs.privilege ≠ .machine → m.hart.csrs.statusBit Status.mprv = false) ∧
    (∀ kind, m.hart.csrs.effectivePrivilege kind = m.hart.csrs.documentedPrivilege kind) ∧
    ∀ during, Undisturbed m.begun during → ∀ kind,
      during.hart.csrs.effectivePrivilege kind = during.hart.csrs.documentedPrivilege kind ∧
      (m.hart.csrs.privilege ≠ .machine →
        during.hart.csrs.effectivePrivilege kind = m.hart.csrs.privilege) := by
  have lends := reaches_lends reached
  refine ⟨lends, lends.effectivePrivilege, ?_⟩
  intro during same kind
  have begun := begun_lends lends
  rw [same.hart]
  refine ⟨begun.effectivePrivilege kind, ?_⟩
  intro lower
  rw [← m.begun_privilege] at lower ⊢
  exact begun.effectivePrivilege_of_lower lower kind

def withReturn : Machine :=
  withCode #[0xb7, 0x00, 0x02, 0x00, 0x73, 0xa0, 0x00, 0x30, 0x73, 0x00, 0x20, 0x30]

/-- After its return the hart is in user mode, and the bit was cleared on the way. -/
theorem reaches_effectivePrivilege_withReturn :
    ∃ m, Reaches .rv64 m ∧ m.hart.csrs.privilege = .user ∧
      m.hart.csrs.statusBit Status.mprv = false ∧
      m.hart.csrs.effectivePrivilege .load = m.hart.csrs.documentedPrivilege .load ∧
      m.begun.hart.csrs.effectivePrivilege .store = m.hart.csrs.privilege := by
  have returned : (match run 3 withReturn with
      | .ok _ m => m.hart.csrs.privilege == .user
      | .error _ _ => false) = true := by decide +kernel
  cases ran : run 3 withReturn with
  | error fatal m =>
    rw [ran] at returned
    contradiction
  | ok stop m =>
    rw [ran] at returned
    have user : m.hart.csrs.privilege = .user := eq_of_beq returned
    have lower : m.hart.csrs.privilege ≠ .machine := by
      rw [user]
      decide
    have reached : Reaches .rv64 m := Reaches.run (.start withReturn rfl) ran
    rcases reaches_effectivePrivilege reached with ⟨clear, documented, next⟩
    exact ⟨m, reached, user, clear lower, documented .load,
      (next m.begun (.refl m.begun) .store).2 lower⟩

end Machine

end RiscvBoard
