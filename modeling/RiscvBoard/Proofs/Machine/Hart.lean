import RiscvBoard.Machine.Hart
import RiscvBoard.Proofs.Bits

/-!
Trap entry and return as changes of the control state: which registers they write, and which fields
of the status word.
-/

set_option autoImplicit false

namespace RiscvBoard

/-! ### Changes of the status word -/

private theorem AgreeOutside.setStatusBit {mask bits : UInt64} (inside : Within mask bits)
    (c : CsrFile) (on : Bool) : AgreeOutside mask (c.setStatusBit bits on).mstatus c.mstatus := by
  cases on with
  | false => exact .clear_bits inside _
  | true => exact .or_bits inside _

theorem AgreeOutside.setPending {mask bits : UInt64} (inside : Within mask bits) (c : CsrFile)
    (on : Bool) : AgreeOutside mask (c.setPending bits on).mip c.mip := by
  cases on with
  | false => exact .clear_bits inside _
  | true => exact .or_bits inside _

private theorem Privilege.code_within (mode : Privilege) :
    Within Status.mpp (mode.code <<< 11) := by
  cases mode <;> decide

theorem AgreeOutside.setMpp {mask : UInt64} (inside : Within mask Status.mpp) (c : CsrFile)
    (mode : Privilege) : AgreeOutside mask (c.setMpp mode).mstatus c.mstatus :=
  (AgreeOutside.or_bits (mode.code_within.mono inside) _).trans (.clear_bits inside _)

theorem setMpp_mstatus (c : CsrFile) (mode : Privilege) :
    (c.setMpp mode).mstatus &&& Status.mpp = mode.code <<< 11 := by
  have cleared : c.mstatus &&& ~~~Status.mpp &&& Status.mpp = 0 := by
    rw [UInt64.and_assoc, UInt64.not_and_self, UInt64.and_zero]
  rw [CsrFile.setMpp, and_or_distrib_right, cleared, UInt64.zero_or]
  exact mode.code_within.and_eq

namespace CsrFile

/-! ### Trap entry -/

def trapFields : Privilege → UInt64
  | .machine => Status.mie ||| Status.mpie ||| Status.mpp
  | _ => Status.sie ||| Status.spie ||| Status.spp

theorem saveMachine_mstatus (c : CsrFile) (t : Trap) :
    AgreeOutside (trapFields .machine) (c.saveMachine t).mstatus c.mstatus :=
  (AgreeOutside.setMpp (by decide) _ _).trans
    ((AgreeOutside.setStatusBit (by decide) _ _).trans (.setStatusBit (by decide) _ _))

theorem saveSupervisor_mstatus (c : CsrFile) (t : Trap) :
    AgreeOutside (trapFields .supervisor) (c.saveSupervisor t).mstatus c.mstatus :=
  (AgreeOutside.setStatusBit (by decide) _ _).trans
    ((AgreeOutside.setStatusBit (by decide) _ _).trans (.setStatusBit (by decide) _ _))

theorem saveMachine_eq (c : CsrFile) (t : Trap) :
    c.saveMachine t = { c with
      mepc := t.pc, mcause := t.causeRegister c.xlen, mtval := t.value,
      mstatus := (c.saveMachine t).mstatus } := by
  dsimp only [saveMachine, setMpp, setStatusBit]

theorem saveSupervisor_eq (c : CsrFile) (t : Trap) :
    c.saveSupervisor t = { c with
      sepc := t.pc, scause := t.causeRegister c.xlen, stval := t.value,
      mstatus := (c.saveSupervisor t).mstatus } := by
  dsimp only [saveSupervisor, setSpp, setStatusBit]

end CsrFile

namespace Hart

/-! ### Registers -/

@[simp] theorem write_csrs (h : Hart) (r : Reg) (value : UInt64) :
    (h.write r value).csrs = h.csrs := by
  unfold write
  split <;> rfl

/-! ### Trap return -/

def returnFields (mode : Privilege) : UInt64 :=
  CsrFile.trapFields mode ||| Status.mprv

theorem machineReturn_mstatus (h : Hart) :
    AgreeOutside (returnFields .machine) h.machineReturn.csrs.mstatus h.csrs.mstatus := by
  have recorded (c : CsrFile) (one two : Bool) :
      AgreeOutside (returnFields .machine)
        (((c.setStatusBit Status.mie one).setStatusBit Status.mpie two).setMpp .user).mstatus
        c.mstatus :=
    (AgreeOutside.setMpp (by decide) _ _).trans
      ((AgreeOutside.setStatusBit (by decide) _ _).trans (.setStatusBit (by decide) _ _))
  unfold machineReturn
  dsimp only
  split
  · exact recorded _ _ _
  · exact (AgreeOutside.setStatusBit (by decide) _ _).trans (recorded _ _ _)

theorem machineReturn_mpp (h : Hart) :
    h.machineReturn.csrs.mstatus &&& Status.mpp = Privilege.user.code <<< 11 := by
  unfold machineReturn
  dsimp only
  split
  · exact setMpp_mstatus _ _
  · have kept (c : CsrFile) := AgreeOutside.setStatusBit (Within.refl Status.mprv) c false
    exact ((kept _).and_eq (by decide)).trans (setMpp_mstatus _ _)

theorem supervisorReturn_mstatus (h : Hart) :
    AgreeOutside (returnFields .supervisor) h.supervisorReturn.csrs.mstatus h.csrs.mstatus :=
  (AgreeOutside.setStatusBit (by decide) _ _).trans
    ((AgreeOutside.setStatusBit (by decide) _ _).trans
      ((AgreeOutside.setStatusBit (by decide) _ _).trans (.setStatusBit (by decide) _ _)))

theorem supervisorReturn_mstatus_of_clear {h : Hart}
    (clear : h.csrs.statusBit Status.mprv = false) :
    AgreeOutside (CsrFile.trapFields .supervisor) h.supervisorReturn.csrs.mstatus
      h.csrs.mstatus := by
  have still (c : CsrFile) (enabled : Bool) (clear : c.statusBit Status.mprv = false) :
      (((c.setStatusBit Status.sie enabled).setStatusBit Status.spie true).setSpp .user).statusBit
        Status.mprv = false := by
    rw [CsrFile.setSpp, CsrFile.statusBit_setStatusBit_of_disjoint _ (by decide),
      CsrFile.statusBit_setStatusBit_of_disjoint _ (by decide),
      CsrFile.statusBit_setStatusBit_of_disjoint _ (by decide), clear]
  unfold supervisorReturn
  dsimp only
  rw [CsrFile.setStatusBit_of_clear (still _ _ clear)]
  exact (AgreeOutside.setStatusBit (by decide) _ _).trans
    ((AgreeOutside.setStatusBit (by decide) _ _).trans (.setStatusBit (by decide) _ _))

theorem machineReturn_eq (h : Hart) :
    h.machineReturn = { h with
      csrs := { h.csrs with
        privilege := h.csrs.mpp, mstatus := h.machineReturn.csrs.mstatus }
      pc := h.csrs.mepc } := by
  unfold machineReturn
  dsimp only
  split <;> dsimp only [CsrFile.setMpp, CsrFile.setStatusBit]

theorem supervisorReturn_eq (h : Hart) :
    h.supervisorReturn = { h with
      csrs := { h.csrs with
        privilege := h.csrs.spp, mstatus := h.supervisorReturn.csrs.mstatus }
      pc := h.csrs.sepc } := by
  dsimp only [supervisorReturn, CsrFile.setSpp, CsrFile.setStatusBit]

end Hart

end RiscvBoard
