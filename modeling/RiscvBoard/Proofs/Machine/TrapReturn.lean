import RiscvBoard.Proofs.Machine.WellFormed
import RiscvBoard.Proofs.Machine.PreciseTraps

/-!
Trap entry followed by trap return. What a trap saves in the status word is what the return reads
from it, so a handler that changes nothing gives back the hart that was interrupted. Only the
registers in which the trap is recorded are different, and the fields of the status word that a
return resets.
-/

set_option autoImplicit false

namespace RiscvBoard

namespace Status

def enable : Privilege → UInt64
  | .supervisor => sie
  | _ => mie

def previousEnable : Privilege → UInt64
  | .supervisor => spie
  | _ => mpie

def previousMode : Privilege → UInt64
  | .supervisor => spp
  | _ => mpp

private theorem oneBit_enable (mode : Privilege) : OneBit (enable mode) := by
  cases mode with
  | supervisor => exact ⟨1, by decide, rfl⟩
  | user | machine => exact ⟨3, by decide, rfl⟩

private theorem oneBit_mprv : OneBit mprv :=
  ⟨17, by decide, rfl⟩

end Status

/-! ### What a trap saves -/

namespace CsrFile

private theorem statusBit_setMpp (c : CsrFile) (mode : Privilege) {asked : UInt64}
    (disjoint : Status.mpp &&& asked = 0) : (c.setMpp mode).statusBit asked = c.statusBit asked :=
  statusBit_of_agree (.setMpp (.refl _) c mode) disjoint

private theorem statusBit_setSpp (c : CsrFile) (mode : Privilege) {asked : UInt64}
    (disjoint : Status.spp &&& asked = 0) : (c.setSpp mode).statusBit asked = c.statusBit asked :=
  statusBit_setStatusBit_of_disjoint c disjoint _

private theorem mpp_of_recorded {c : CsrFile} {mode : Privilege}
    (recorded : c.mstatus &&& Status.mpp = mode.code <<< 11) : c.mpp = mode := by
  have field : (c.mstatus >>> 11) &&& 3 = mode.code := by
    have shifted := congrArg (· >>> (11 : UInt64)) recorded
    simp only [UInt64.shiftRight_and] at shifted
    cases mode <;> exact shifted
  rw [mpp, field, Privilege.ofCode?_code]
  rfl

section Saved

variable (c : CsrFile) (t : Trap)

private theorem saveMachine_mpp : (c.saveMachine t).mpp = c.privilege :=
  mpp_of_recorded (setMpp_mstatus _ _)

private theorem saveMachine_mpie :
    (c.saveMachine t).statusBit Status.mpie = c.statusBit Status.mie := by
  rw [saveMachine, statusBit_setMpp _ _ (by decide),
    statusBit_setStatusBit_of_disjoint _ (by decide), statusBit_setStatusBit _ (by decide)]

theorem saveMachine_mie : (c.saveMachine t).statusBit Status.mie = false := by
  rw [saveMachine, statusBit_setMpp _ _ (by decide), statusBit_setStatusBit _ (by decide)]

private theorem saveSupervisor_spp (below : c.privilege ≠ .machine) :
    (c.saveSupervisor t).spp = c.privilege := by
  rw [saveSupervisor, setSpp, spp, statusBit_setStatusBit _ (by decide)]
  cases mode : c.privilege with
  | user | supervisor => rfl
  | machine => contradiction

private theorem saveSupervisor_spie :
    (c.saveSupervisor t).statusBit Status.spie = c.statusBit Status.sie := by
  rw [saveSupervisor, statusBit_setSpp _ _ (by decide),
    statusBit_setStatusBit_of_disjoint _ (by decide), statusBit_setStatusBit _ (by decide)]

theorem saveSupervisor_sie : (c.saveSupervisor t).statusBit Status.sie = false := by
  rw [saveSupervisor, statusBit_setSpp _ _ (by decide), statusBit_setStatusBit _ (by decide)]

end Saved

end CsrFile

/-! ### What a return restores -/

namespace Hart

def returnFrom (h : Hart) : Privilege → Hart
  | .supervisor => h.supervisorReturn
  | _ => h.machineReturn

section Restored

variable (h : Hart)

private def reopened (c : CsrFile) : CsrFile :=
  ((c.setStatusBit Status.mie (c.statusBit Status.mpie)).setStatusBit Status.mpie true).setMpp .user

private theorem machineReturn_statusBit {asked : UInt64} (disjoint : Status.mprv &&& asked = 0) :
    h.machineReturn.csrs.statusBit asked = (reopened h.csrs).statusBit asked := by
  by_cases machine : h.csrs.mpp = .machine
  · simp only [machineReturn, if_pos machine]
    rfl
  · simp only [machineReturn, if_neg machine]
    exact CsrFile.statusBit_setStatusBit_of_disjoint _ disjoint _

private theorem machineReturn_mie :
    h.machineReturn.csrs.statusBit Status.mie = h.csrs.statusBit Status.mpie := by
  rw [machineReturn_statusBit h (by decide), reopened, CsrFile.statusBit_setMpp _ _ (by decide),
    CsrFile.statusBit_setStatusBit_of_disjoint _ (by decide),
    CsrFile.statusBit_setStatusBit _ (by decide)]

private theorem machineReturn_mpie : h.machineReturn.csrs.statusBit Status.mpie = true := by
  rw [machineReturn_statusBit h (by decide), reopened, CsrFile.statusBit_setMpp _ _ (by decide),
    CsrFile.statusBit_setStatusBit _ (by decide)]

theorem machineReturn_mprv : h.machineReturn.csrs.statusBit Status.mprv =
    if h.csrs.mpp = .machine then h.csrs.statusBit Status.mprv else false := by
  by_cases machine : h.csrs.mpp = .machine
  · have kept : (reopened h.csrs).statusBit Status.mprv = h.csrs.statusBit Status.mprv := by
      rw [reopened, CsrFile.statusBit_setMpp _ _ (by decide),
        CsrFile.statusBit_setStatusBit_of_disjoint _ (by decide),
        CsrFile.statusBit_setStatusBit_of_disjoint _ (by decide)]
    simp only [machineReturn, if_pos machine]
    exact kept
  · simp only [machineReturn, if_neg machine]
    exact CsrFile.statusBit_setStatusBit _ (by decide) false

private theorem supervisorReturn_sie :
    h.supervisorReturn.csrs.statusBit Status.sie = h.csrs.statusBit Status.spie := by
  have cleared (c : CsrFile) : (c.setStatusBit Status.mprv false).statusBit Status.sie =
      c.statusBit Status.sie := CsrFile.statusBit_setStatusBit_of_disjoint c (by decide) false
  refine (cleared _).trans ?_
  rw [CsrFile.statusBit_setSpp _ _ (by decide),
    CsrFile.statusBit_setStatusBit_of_disjoint _ (by decide),
    CsrFile.statusBit_setStatusBit _ (by decide)]

private theorem supervisorReturn_spie : h.supervisorReturn.csrs.statusBit Status.spie = true := by
  have cleared (c : CsrFile) : (c.setStatusBit Status.mprv false).statusBit Status.spie =
      c.statusBit Status.spie := CsrFile.statusBit_setStatusBit_of_disjoint c (by decide) false
  refine (cleared _).trans ?_
  rw [CsrFile.statusBit_setSpp _ _ (by decide), CsrFile.statusBit_setStatusBit _ (by decide)]

private theorem supervisorReturn_spp : h.supervisorReturn.csrs.statusBit Status.spp = false := by
  have cleared (c : CsrFile) : (c.setStatusBit Status.mprv false).statusBit Status.spp =
      c.statusBit Status.spp := CsrFile.statusBit_setStatusBit_of_disjoint c (by decide) false
  refine (cleared _).trans ?_
  rw [CsrFile.setSpp, CsrFile.statusBit_setStatusBit _ (by decide)]
  rfl

theorem supervisorReturn_mprv : h.supervisorReturn.csrs.statusBit Status.mprv = false :=
  CsrFile.statusBit_setStatusBit _ (by decide) false

end Restored

end Hart

/-! ### Entry and return -/

namespace CsrFile

def recorded (c : CsrFile) (t : Trap) : Privilege → CsrFile
  | .supervisor => { c with sepc := t.pc, scause := t.causeRegister c.xlen, stval := t.value }
  | _ => { c with mepc := t.pc, mcause := t.causeRegister c.xlen, mtval := t.value }

def cause (c : CsrFile) : Privilege → UInt64
  | .supervisor => c.scause
  | _ => c.mcause

def changedFields (c : CsrFile) (mode : Privilege) : UInt64 :=
  Status.previousEnable mode ||| Status.previousMode mode |||
    if c.privilege = .machine then 0 else Status.mprv

end CsrFile

namespace Hart

/-- A hart that took a trap in a mode and returned from it, compared with the hart before. -/
structure Resumed (h : Hart) (t : Trap) (mode : Privilege) (h' : Hart) : Prop where
  pc : h'.pc = h.pc
  regs : h'.regs = h.regs
  privilege : h'.csrs.privilege = h.csrs.privilege
  enabled : h'.csrs.statusBit (Status.enable mode) = h.csrs.statusBit (Status.enable mode)
  previousEnabled : h'.csrs.statusBit (Status.previousEnable mode) = true
  /-- The code of user mode is zero. -/
  previousMode : h'.csrs.mstatus &&& Status.previousMode mode = 0
  lending : h.csrs.privilege ≠ .machine → h'.csrs.statusBit Status.mprv = false
  status : AgreeOutside (h.csrs.changedFields mode) h'.csrs.mstatus h.csrs.mstatus
  /-- No register changes but the status word and those in which the trap is recorded. -/
  csrs : h'.csrs = { h.csrs.recorded t mode with mstatus := h'.csrs.mstatus }
  /-- The top bit of the cause register tells interrupts from exceptions. -/
  cause : (h'.csrs.cause mode).toNat.testBit (h.xlen.bits - 1) = t.isInterrupt

end Hart

private theorem Trap.testBit_causeRegister (t : Trap) (xlen : Xlen) :
    (t.causeRegister xlen).toNat.testBit (xlen.bits - 1) = t.isInterrupt := by
  have low : t.code.toNat < 2 ^ (xlen.bits - 1) := by
    have small : t.code.toNat ≤ 0xf := by
      rw [← t.code_within.and_eq, UInt64.toNat_and]
      exact Nat.and_le_right
    have wide : 0xf < 2 ^ (xlen.bits - 1) := by cases xlen <;> decide
    omega
  have clear : t.code.toNat.testBit (xlen.bits - 1) = false := Nat.testBit_lt_two_pow low
  have mark : (interruptMark xlen).toNat.testBit (xlen.bits - 1) = true := by
    cases xlen <;> decide
  unfold causeRegister
  cases interrupt : t.isInterrupt with
  | false => exact clear
  | true =>
    rw [if_pos rfl, UInt64.toNat_or, Nat.testBit_or, mark, Bool.true_or]

namespace Hart

variable {h : Hart} {t : Trap}

private theorem Resumed.of_return {h' : Hart} {mode : Privilege} (handled : mode ≠ .user)
    (returned : h' = { h with
      csrs := { h.csrs.recorded t mode with mstatus := h'.csrs.mstatus }, pc := h.pc })
    (enabled : h'.csrs.statusBit (Status.enable mode) = h.csrs.statusBit (Status.enable mode))
    (previousEnabled : h'.csrs.statusBit (Status.previousEnable mode) = true)
    (previousMode : h'.csrs.mstatus &&& Status.previousMode mode = 0)
    (lending : h'.csrs.statusBit Status.mprv =
      if h.csrs.privilege = .machine then h.csrs.statusBit Status.mprv else false)
    (status : AgreeOutside (returnFields mode) h'.csrs.mstatus h.csrs.mstatus) :
    Resumed h t mode h' := by
  have csrs : h'.csrs = { h.csrs.recorded t mode with mstatus := h'.csrs.mstatus } :=
    congrArg Hart.csrs returned
  have bit := CsrFile.and_eq_of_statusBit (Status.oneBit_enable mode) enabled
  exact {
    pc := by rw [returned]
    regs := by rw [returned]
    privilege := by
      rw [csrs]
      cases mode <;> rfl
    enabled := enabled
    previousEnabled := previousEnabled
    previousMode := previousMode
    lending := fun lower => by rw [lending, if_neg lower]
    status := by
      unfold CsrFile.changedFields
      split
      next machine =>
        rw [if_pos machine] at lending
        have lent := CsrFile.and_eq_of_statusBit Status.oneBit_mprv lending
        have both : AgreeOutside
            (Status.mprv ||| (Status.previousEnable mode ||| Status.previousMode mode ||| 0))
            h'.csrs.mstatus h.csrs.mstatus := by
          refine AgreeOutside.of_and_eq (AgreeOutside.mono status ?_) bit
          cases mode with
          | user => contradiction
          | supervisor | machine => decide
        exact both.of_and_eq lent
      next lower =>
        refine AgreeOutside.of_and_eq (AgreeOutside.mono status ?_) bit
        cases mode with
        | user => contradiction
        | supervisor | machine => decide
    csrs := csrs
    cause := by
      rw [csrs]
      cases mode <;> exact t.testBit_causeRegister h.xlen }

private theorem resumed_machine {handler : UInt64} (pc : t.pc = h.pc) :
    Resumed h t .machine (h.enter t ⟨.machine, handler⟩).machineReturn := by
  have saved := h.csrs.saveMachine_mstatus t
  have mode : (h.enter t ⟨.machine, handler⟩).csrs.mpp = h.csrs.privilege :=
    h.csrs.saveMachine_mpp t
  have kept : (h.enter t ⟨.machine, handler⟩).csrs.statusBit Status.mprv =
      h.csrs.statusBit Status.mprv := CsrFile.statusBit_of_agree saved (by decide)
  refine .of_return (by decide) ?_ ?_ (machineReturn_mpie _) (machineReturn_mpp _) ?_ ?_
  · have back := machineReturn_eq (h.enter t ⟨.machine, handler⟩)
    rw [mode] at back
    rw [← pc]
    exact back
  · exact (machineReturn_mie _).trans (h.csrs.saveMachine_mpie t)
  · rw [machineReturn_mprv, mode, kept]
  · exact (machineReturn_mstatus _).trans (saved.mono (by decide))

private theorem resumed_supervisor {handler : UInt64} (pc : t.pc = h.pc)
    (below : h.csrs.privilege ≠ .machine) :
    Resumed h t .supervisor (h.enter t ⟨.supervisor, handler⟩).supervisorReturn := by
  have saved := h.csrs.saveSupervisor_mstatus t
  have mode : (h.enter t ⟨.supervisor, handler⟩).csrs.spp = h.csrs.privilege :=
    h.csrs.saveSupervisor_spp t below
  refine .of_return (by decide) ?_ ?_ (supervisorReturn_spie _) ?_ ?_ ?_
  · have back := supervisorReturn_eq (h.enter t ⟨.supervisor, handler⟩)
    rw [mode] at back
    rw [← pc]
    exact back
  · exact (supervisorReturn_sie _).trans (h.csrs.saveSupervisor_spie t)
  · have clear := supervisorReturn_spp (h.enter t ⟨.supervisor, handler⟩)
    rwa [CsrFile.statusBit, bne_eq_false_iff_eq] at clear
  · rw [supervisorReturn_mprv, if_neg below]
  · exact (supervisorReturn_mstatus _).trans (saved.mono (by decide))

/-- A trap that is taken at the program counter and returned from at once leaves the hart as it was,
but for the registers in which it is recorded and the fields that a return resets. -/
theorem return_enter (pc : t.pc = h.pc) :
    Resumed h t (h.csrs.route t).target
      ((h.enter t (h.csrs.route t)).returnFrom (h.csrs.route t).target) := by
  rcases h.csrs.route_target t with ⟨target, below⟩ | target
  all_goals
    generalize h.csrs.route t = route at target ⊢
    rcases route with ⟨mode, handler⟩
    dsimp only at target
    subst target
  · exact resumed_supervisor pc below
  · exact resumed_machine pc

def awaitingTimer : Hart :=
  { reset .rv64 with
    csrs := { CsrFile.reset .rv64 with
      privilege := .supervisor, mideleg := Interrupt.supervisorTimer.bit
      mstatus := Status.sie ||| Status.mpp ||| Status.sum } }

theorem return_enter_supervisorTimer :
    (awaitingTimer.csrs.route (.ofInterrupt .supervisorTimer awaitingTimer.pc)).target =
        .supervisor ∧
      Resumed awaitingTimer (.ofInterrupt .supervisorTimer awaitingTimer.pc) .supervisor
        (awaitingTimer.enter (.ofInterrupt .supervisorTimer awaitingTimer.pc)
          (awaitingTimer.csrs.route
            (.ofInterrupt .supervisorTimer awaitingTimer.pc))).supervisorReturn := by
  have target : (awaitingTimer.csrs.route (.ofInterrupt .supervisorTimer awaitingTimer.pc)).target =
      .supervisor := by decide
  have resumed := return_enter (t := .ofInterrupt .supervisorTimer awaitingTimer.pc)
    (rfl : awaitingTimer.pc = awaitingTimer.pc)
  rw [target] at resumed
  exact ⟨target, resumed⟩

end Hart

end RiscvBoard
