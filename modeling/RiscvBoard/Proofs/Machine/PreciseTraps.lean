import RiscvBoard.Proofs.Machine.Step

/-!
Traps are precise: a step that takes a trap leaves the machine as the instruction found it, but for
what the trap itself saves and for marks in the page tables.
-/

set_option autoImplicit false

namespace RiscvBoard

namespace CsrFile

/-- The control state after a trap went to a mode: the mode's program counter, cause and value
registers and its fields of the status word are written, and the mode is entered. -/
inductive Saved (c : CsrFile) (t : Trap) : Privilege → CsrFile → Prop where
  | machine (status : UInt64) (fields : AgreeOutside (trapFields .machine) status c.mstatus) :
    Saved c t .machine { c with
      privilege := .machine, mepc := t.pc, mcause := t.causeRegister c.xlen, mtval := t.value,
      mstatus := status }
  | supervisor (status : UInt64) (fields : AgreeOutside (trapFields .supervisor) status c.mstatus) :
    Saved c t .supervisor { c with
      privilege := .supervisor, sepc := t.pc, scause := t.causeRegister c.xlen, stval := t.value,
      mstatus := status }

namespace Saved

variable {c d : CsrFile} {t : Trap} {mode : Privilege}

theorem privilege (saved : c.Saved t mode d) : d.privilege = mode := by
  cases saved <;> rfl

private theorem instret (saved : c.Saved t mode d) : d.instret = c.instret := by
  cases saved <;> rfl

end Saved

theorem route_target (c : CsrFile) (t : Trap) :
    (c.route t).target = .supervisor ∧ c.privilege ≠ .machine ∨ (c.route t).target = .machine := by
  unfold route
  split
  next delegated =>
    refine .inl ⟨rfl, fun mode => ?_⟩
    simp [delegates, delegatesInterrupt, delegatesException, mode] at delegated
  · exact .inr rfl

private theorem privilege_le_target (c : CsrFile) (t : Trap) :
    c.privilege ≤ (c.route t).target := by
  obtain ⟨target, below⟩ | target := c.route_target t <;> rw [target]
  · exact Privilege.le_supervisor below
  · exact Privilege.le_machine _

end CsrFile

theorem Hart.enter_saved (h : Hart) (t : Trap) :
    CsrFile.Saved h.csrs t (h.csrs.route t).target (h.enter t (h.csrs.route t)).csrs := by
  obtain ⟨target, -⟩ | target := h.csrs.route_target t
  · simp only [enter, target]
    rw [CsrFile.saveSupervisor_eq]
    exact .supervisor _ (h.csrs.saveSupervisor_mstatus t)
  · simp only [enter, target]
    rw [CsrFile.saveMachine_eq]
    exact .machine _ (h.csrs.saveMachine_mstatus t)

namespace Machine

/-- A machine after a precise trap, compared with the machine before the step and with the machine
at the beginning of the instruction. -/
structure PreciseTrap (m begun : Machine) (t : Trap) (m' : Machine) : Prop where
  pc : t.pc = m.hart.pc
  regs : m'.hart.regs = m.hart.regs
  instret : m'.hart.csrs.instret = m.hart.csrs.instret
  exitCode : m'.exitCode = m.exitCode
  reservation : m'.reservation = none
  ram : OnlyMarks begun.hart.csrs begun.bus.ram m'.bus.ram
  target : m'.hart.csrs.privilege = (begun.hart.csrs.route t).target
  raised : m.hart.csrs.privilege ≤ m'.hart.csrs.privilege
  handler : m'.hart.pc = (begun.hart.csrs.route t).handler
  saved : begun.hart.csrs.Saved t (begun.hart.csrs.route t).target m'.hart.csrs

/-- A step that takes a trap takes it precisely: the instruction or interrupt changed no register,
no memory but marks, and no control register but those in which the trap is saved. -/
theorem step_preciseTrap {m m' : Machine} {t : Trap} (stepped : step m = .ok (.trapped t) m') :
    PreciseTrap m m.begun t m' := by
  cases step_effect stepped with
  | retired _ len m₂ even effect untrapped => exact absurd rfl (untrapped t)
  | trapped _ m₂ trapping =>
    obtain ⟨same, pc, -⟩ := trapping
    have entered : (m₂.entered t).hart = m.begun.hart.enter t (m.begun.hart.csrs.route t) := by
      rw [← same.hart]
      rfl
    have saved := m.begun.hart.enter_saved t
    have lower := m.begun.hart.csrs.privilege_le_target t
    rw [m.begun_privilege] at lower
    rw [← entered] at saved
    exact {
      pc := pc.trans m.begun_pc
      regs := by rw [entered]; exact m.begun_regs
      instret := saved.instret.trans m.begun_instret
      exitCode := same.exitCode.trans m.begun_exitCode
      reservation := rfl
      ram := same.ram
      target := saved.privilege
      raised := saved.privilege.symm ▸ lower
      handler := by rw [entered]; rfl
      saved := saved }

/-- A supervisor whose page table maps the memory at its own addresses, and whose program stores to
an address that is not mapped. The page fault is the supervisor's own. -/
def withUnmappedStore : Machine :=
  let m := withCode #[0, 0, 0, 0, 0, 0, 0, 0, 0, 0, 0, 0, 0, 0, 0, 0, 0x0f, 0, 0, 0x20, 0, 0, 0, 0,
    0x23, 0xa0, 0, 0]
  let c := { m.hart.csrs with
    privilege := .supervisor, satp := 0x8000000000080000, medeleg := 0x8000, stvec := 0x80000000 }
  ((m.setCsrs c).setReg 1 0x2000).setPc 0x80000018

/-- The fetch has marked the page of the program as accessed. -/
theorem step_preciseTrap_unmappedStore :
    ∃ t m', t = .ofException (.pageFault .store 0x2000) 0x80000018 ∧
      step withUnmappedStore = .ok (.trapped t) m' ∧
      withUnmappedStore.begun.bus.ram.bytes.data[16]? = some 0x0f ∧
      m'.bus.ram.bytes.data[16]? = some 0x4f ∧ m'.hart.csrs.privilege = .supervisor ∧
      PreciseTrap withUnmappedStore withUnmappedStore.begun t m' := by
  have stepped : step withUnmappedStore =
      .ok (.trapped (.ofException (.pageFault .store 0x2000) 0x80000018))
        withUnmappedStore.afterStep :=
    step_of_outcome? (by decide +kernel)
  exact ⟨_, _, rfl, stepped, by decide +kernel, by decide +kernel, by decide +kernel,
    step_preciseTrap stepped⟩

end Machine

end RiscvBoard
