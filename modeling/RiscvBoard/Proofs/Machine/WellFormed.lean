import RiscvBoard.Machine.Run
import RiscvBoard.Proofs.Csr.WellFormed
import RiscvBoard.Proofs.Machine.Step

/-!
Every state that a run reaches is well-formed: the registers are canonical, the program counter is
even, and the control state is legal. In particular no instruction is ever misaligned.
-/

set_option autoImplicit false

namespace RiscvBoard

private theorem signExtendWord_signExtendWord (value : UInt64) :
    signExtendWord (signExtendWord value) = signExtendWord value := by
  have low : (signExtendWord value).toUInt32 = value.toUInt32 := by
    rw [← UInt32.toBitVec_inj]
    ext i inside
    have wide : i < 64 := by omega
    simp [signExtendWord, BitVec.getElem_signExtend, inside, wide]
  unfold signExtendWord at low ⊢
  rw [low]

private theorem Xlen.canonical_canonical (xlen : Xlen) (value : UInt64) :
    xlen.canonical (xlen.canonical value) = xlen.canonical value := by
  cases xlen with
  | rv32 => exact signExtendWord_signExtendWord value
  | rv64 => rfl

theorem IsEven.truncate {addr : UInt64} (even : IsEven addr) (xlen : Xlen) :
    IsEven (xlen.truncate addr) := by
  cases xlen with
  | rv32 => exact even.and_left _
  | rv64 => exact even

structure Hart.WellFormed (h : Hart) : Prop where
  zero : h.regs[0] = 0
  regs : ∀ value ∈ h.regs, h.xlen.canonical value = value
  even : IsEven h.pc
  pc : h.xlen.Fits h.pc
  csrs : h.csrs.WellFormed

/-! ### Traps -/

private theorem Exception.code_within (e : Exception) : Within 0xf e.code := by
  cases e with
  | misaligned kind addr | accessFault kind addr | pageFault kind addr =>
    cases kind <;> simp only [Exception.code] <;> decide
  | environmentCall mode => cases mode <;> decide
  | illegalInstruction inst | breakpoint => simp only [Exception.code]; decide

theorem Trap.code_within (t : Trap) : Within 0xf t.code := by
  unfold code
  cases t.cause with
  | interrupt i => cases i <;> decide
  | exception e => exact e.code_within

private theorem causeRegister_fits (t : Trap) (xlen : Xlen) : xlen.Fits (t.causeRegister xlen) := by
  have code : Within 0xffffffff t.code := t.code_within.mono (by decide)
  cases xlen with
  | rv64 => trivial
  | rv32 =>
    apply Xlen.fits_of_within
    unfold Trap.causeRegister
    split
    · exact Within.or (by decide) code
    · exact code

private theorem trapHandler_isEven (vector : UInt64) (t : Trap) :
    IsEven (trapHandler vector t) := by
  have base : IsEven (vector &&& ~~~3) := by
    rw [IsEven, UInt64.and_assoc, show ~~~3 &&& (1 : UInt64) = 0 by decide, UInt64.and_zero]
  unfold trapHandler
  dsimp only
  split
  · refine base.add (isEven_iff.2 ?_)
    rw [UInt64.toNat_mul]
    simp only [UInt64.reduceToNat]
    omega
  · exact base

private theorem route_handler (c : CsrFile) (t : Trap) :
    IsEven (c.route t).handler ∧ c.xlen.Fits (c.route t).handler := by
  unfold CsrFile.route
  split
  · exact ⟨(trapHandler_isEven _ t).truncate _, c.xlen.fits_truncate _⟩
  · exact ⟨(trapHandler_isEven _ t).truncate _, c.xlen.fits_truncate _⟩

namespace CsrFile.WellFormed

variable {c : CsrFile} {t : Trap}

private theorem saveMachine (wf : c.WellFormed) (even : IsEven t.pc) (pc : c.xlen.Fits t.pc)
    (value : c.xlen.Fits t.value) : (c.saveMachine t).WellFormed := by
  have status : LegalStatus c.xlen (c.saveMachine t).mstatus :=
    wf.mstatus.of_code (c.saveMachine_mstatus t) (by decide) (setMpp_mstatus _ _)
  rw [CsrFile.saveMachine_eq]
  exact { wf with
    mstatus := status
    mepc := even
    narrow := { wf.narrow with
      mepc := pc
      mcause := causeRegister_fits t c.xlen
      mtval := value } }

private theorem saveSupervisor (wf : c.WellFormed) (even : IsEven t.pc) (pc : c.xlen.Fits t.pc)
    (value : c.xlen.Fits t.value) : (c.saveSupervisor t).WellFormed := by
  have status : LegalStatus c.xlen (c.saveSupervisor t).mstatus :=
    wf.mstatus.of_agree (c.saveSupervisor_mstatus t) (by decide) (by decide)
  rw [CsrFile.saveSupervisor_eq]
  exact { wf with
    mstatus := status
    sepc := even
    narrow := { wf.narrow with
      sepc := pc
      scause := causeRegister_fits t c.xlen
      stval := value } }

variable {h : Hart}

theorem enter (wf : h.csrs.WellFormed) (even : IsEven t.pc) (pc : h.xlen.Fits t.pc)
    (value : h.xlen.Fits t.value) (route : TrapRoute) : (h.enter t route).csrs.WellFormed := by
  have machine := wf.saveMachine even pc value
  have supervisor := wf.saveSupervisor even pc value
  unfold Hart.enter
  cases route.target with
  | supervisor => exact { supervisor with narrow := { supervisor.narrow with } }
  | machine | user => exact { machine with narrow := { machine.narrow with } }

theorem machineReturn (wf : h.csrs.WellFormed) : h.machineReturn.csrs.WellFormed := by
  have status : LegalStatus h.csrs.xlen h.machineReturn.csrs.mstatus :=
    wf.mstatus.of_code h.machineReturn_mstatus (by decide) h.machineReturn_mpp
  rw [Hart.machineReturn_eq]
  exact { wf with mstatus := status, narrow := { wf.narrow with } }

theorem supervisorReturn (wf : h.csrs.WellFormed) : h.supervisorReturn.csrs.WellFormed := by
  have status : LegalStatus h.csrs.xlen h.supervisorReturn.csrs.mstatus :=
    wf.mstatus.of_agree h.supervisorReturn_mstatus (by decide) (by decide)
  rw [Hart.supervisorReturn_eq]
  exact { wf with mstatus := status, narrow := { wf.narrow with } }

end CsrFile.WellFormed

private theorem Hart.enter_xlen (h : Hart) (t : Trap) (route : TrapRoute) :
    (h.enter t route).xlen = h.xlen := by
  unfold Hart.xlen Hart.enter
  cases route.target with
  | supervisor => rfl
  | machine | user => rfl

private theorem Hart.reset_wellFormed (xlen : Xlen) : (Hart.reset xlen).WellFormed := by
  have canonical : xlen.canonical 0 = 0 := by cases xlen <;> rfl
  refine ⟨Vector.getElem_replicate _, ?_, ?_, ?_, CsrFile.reset_wellFormed xlen⟩
  · intro value present
    rw [Vector.eq_of_mem_replicate present]
    exact canonical
  · exact show IsEven Ram.base by decide
  · cases xlen <;> exact show Xlen.Fits _ Ram.base by decide

namespace Hart.WellFormed

variable {h : Hart} {t : Trap}

private theorem enter (wf : h.WellFormed) (pc : t.pc = h.pc) (value : h.xlen.Fits t.value) :
    (h.enter t (h.csrs.route t)).WellFormed := by
  obtain ⟨even, fits⟩ := route_handler h.csrs t
  have legal := wf.csrs.enter (pc ▸ wf.even) (pc ▸ wf.pc) value (h.csrs.route t)
  unfold Hart.enter at legal ⊢
  revert legal
  cases (h.csrs.route t).target with
  | supervisor => exact fun legal => ⟨wf.zero, wf.regs, even, fits, legal⟩
  | machine | user => exact fun legal => ⟨wf.zero, wf.regs, even, fits, legal⟩

private theorem write (wf : h.WellFormed) (rd : Reg) (value : UInt64) :
    (h.write rd value).WellFormed := by
  unfold Hart.write
  split
  · exact wf
  next other =>
    have place : rd.toNat ≠ 0 := fun zero => other (BitVec.eq_of_toNat_eq zero)
    have kept : (h.regs.set rd.toNat (h.xlen.canonical value) rd.toNat_lt)[0] = 0 := by
      rw [Vector.getElem_set_ne _ _ place]
      exact wf.zero
    have canonical (v : UInt64)
        (present : v ∈ h.regs.set rd.toNat (h.xlen.canonical value) rd.toNat_lt) :
        h.xlen.canonical v = v := by
      obtain old | rfl := Vector.mem_or_eq_of_mem_set present
      · exact wf.regs v old
      · exact h.xlen.canonical_canonical value
    exact ⟨kept, canonical, wf.even, wf.pc, wf.csrs⟩

private theorem jump (wf : h.WellFormed) {target : UInt64} (even : IsEven target) :
    Hart.WellFormed { h with pc := h.xlen.truncate target } :=
  ⟨wf.zero, wf.regs, even.truncate _, h.xlen.fits_truncate _, wf.csrs⟩

private theorem setCsrs (wf : h.WellFormed) {c : CsrFile} (xlen : c.xlen = h.csrs.xlen)
    (legal : c.WellFormed) : Hart.WellFormed { h with csrs := c } := by
  refine ⟨wf.zero, ?_, wf.even, ?_, legal⟩
  · intro value present
    have same := wf.regs value present
    unfold Hart.xlen at same ⊢
    rw [xlen]
    exact same
  · have same := wf.pc
    unfold Hart.xlen at same ⊢
    rw [xlen]
    exact same

private theorem machineReturn (wf : h.WellFormed) : h.machineReturn.WellFormed := by
  have legal := wf.csrs.machineReturn
  rw [Hart.machineReturn_eq] at legal ⊢
  exact ⟨wf.zero, wf.regs, wf.csrs.mepc, wf.csrs.narrow.mepc, legal⟩

private theorem supervisorReturn (wf : h.WellFormed) : h.supervisorReturn.WellFormed := by
  have legal := wf.csrs.supervisorReturn
  rw [Hart.supervisorReturn_eq] at legal ⊢
  exact ⟨wf.zero, wf.regs, wf.csrs.sepc, wf.csrs.narrow.sepc, legal⟩

end Hart.WellFormed

/-! ### Instructions -/

private theorem Hart.Effect.xlen {len : UInt64} {h h' : Hart} (effect : Hart.Effect len h h') :
    h'.xlen = h.xlen := by
  cases effect with
  | control c rd value number operand written =>
    exact (congrArg CsrFile.xlen (Hart.write_csrs _ rd value)).trans (CsrFile.write_xlen written)
  | plain _ effect =>
    cases effect with
    | compute rd value => exact congrArg CsrFile.xlen (h.write_csrs rd value)
    | jump link target even => exact congrArg CsrFile.xlen (h.write_csrs link _)
    | machineReturn mode => rw [h.machineReturn_eq]; rfl
    | supervisorReturn granted => rw [h.supervisorReturn_eq]; rfl

private theorem Hart.Effect.wellFormed {len : UInt64} {h h' : Hart} (effect : Hart.Effect len h h')
    (short : IsEven len) (wf : h.WellFormed) :
    Hart.WellFormed { h' with pc := h'.xlen.truncate h'.pc } := by
  cases effect with
  | control c rd value number operand written =>
    have changed := wf.setCsrs (CsrFile.write_xlen written) (wf.csrs.write written)
    exact (changed.write rd value).jump (wf.even.add short)
  | plain _ effect =>
    cases effect with
    | compute rd value => exact (wf.write rd value).jump (wf.even.add short)
    | jump link target even => exact (wf.write link _).jump (even wf.even short)
    | machineReturn mode => exact wf.machineReturn.jump wf.machineReturn.even
    | supervisorReturn granted => exact wf.supervisorReturn.jump wf.supervisorReturn.even

/-! ### Steps -/

namespace Machine

theorem begun_xlen (m : Machine) : m.begun.xlen = m.xlen := by
  obtain ⟨mip, time, cycle, -, hart⟩ := m.begun_hart
  unfold xlen
  rw [hart]
  rfl

theorem begun_wellFormed {m : Machine} (wf : m.hart.WellFormed) : m.begun.hart.WellFormed := by
  obtain ⟨mip, time, cycle, agree, hart⟩ := m.begun_hart
  have pending : Within Interrupt.allBits mip := Eq.trans (agree.mono (by decide)) wf.csrs.mip
  have fits := Xlen.fits_of_within (pending.mono (by decide)) m.hart.csrs.xlen
  rw [hart]
  exact ⟨wf.zero, wf.regs, wf.even, wf.pc,
    { wf.csrs with mip := pending, narrow := { wf.csrs.narrow with mip := fits } }⟩

private theorem retire_wellFormed {m : Machine}
    (wf : Hart.WellFormed { m.hart with pc := m.hart.xlen.truncate m.hart.pc }) :
    m.retire.hart.WellFormed := by
  obtain ⟨instret, hart⟩ := m.retire_hart
  rw [hart]
  exact ⟨wf.zero, wf.regs, wf.even, wf.pc, { wf.csrs with narrow := { wf.csrs.narrow with } }⟩

private theorem retire_xlen (m : Machine) : m.retire.xlen = m.xlen := by
  obtain ⟨instret, hart⟩ := m.retire_hart
  unfold xlen
  rw [hart]
  rfl

theorem Trapping.value_fits {m m' : Machine} {t : Trap} (trapping : Trapping m t m')
    (fits : m.xlen.Fits m.hart.pc) : m.xlen.Fits t.value := by
  obtain ⟨-, pc, ⟨i, cause⟩ | ⟨e, cause, sound⟩⟩ := trapping
  · simp only [Trap.value, cause]
    exact Xlen.fits_of_within (.zero _) _
  · simp only [Trap.value, cause, pc]
    exact sound.1 fits

private theorem Trapping.not_misaligned {m m' : Machine} {t : Trap} (trapping : Trapping m t m')
    (even : IsEven m.hart.pc) (addr : UInt64) : t.cause ≠ .exception (.misaligned .fetch addr) := by
  obtain ⟨-, -, ⟨i, cause⟩ | ⟨e, cause, sound⟩⟩ := trapping
  · rw [cause]
    exact nofun
  · rw [cause]
    exact fun same => sound.2 even addr (TrapCause.exception.inj same)

private theorem entered_wellFormed {m m₂ : Machine} {t : Trap} (trapping : Trapping m t m₂)
    (wf : m.hart.WellFormed) : (m₂.entered t).hart.WellFormed := by
  have same := trapping.undisturbed.hart
  have value : m₂.hart.xlen.Fits t.value := by
    rw [same]
    exact trapping.value_fits wf.pc
  rw [← same] at wf
  exact wf.enter (by rw [same, trapping.pc]) value

/-- A step leaves the hart well-formed. -/
private theorem StepEffect.wellFormed {m m' : Machine} {outcome : StepOutcome}
    (effect : StepEffect m outcome m') (wf : m.hart.WellFormed) : m'.hart.WellFormed := by
  cases effect with
  | halted reason exit => exact wf
  | retired _ len m₂ even effect untrapped =>
    exact retire_wellFormed (effect.wellFormed even (begun_wellFormed wf))
  | trapped t m₂ trapping => exact entered_wellFormed trapping (begun_wellFormed wf)

theorem StepEffect.xlen {m m' : Machine} {outcome : StepOutcome}
    (effect : StepEffect m outcome m') : m'.xlen = m.xlen := by
  cases effect with
  | halted reason exit => rfl
  | retired _ len m₂ even effect untrapped =>
    rw [m₂.retire_xlen]
    exact effect.xlen.trans m.begun_xlen
  | trapped t m₂ trapping =>
    exact (m₂.hart.enter_xlen t _).trans (trapping.undisturbed.xlen.trans m.begun_xlen)

/-! ### Runs -/

def receive (m : Machine) (bytes : List UInt8) : Machine :=
  { m with bus := { m.bus with uart := bytes.foldl Uart.pushInput m.bus.uart } }

/-- The machines that runs reach from a hart after reset, over any memory, disk and devices. The
host may type at any time, and a run may go on after a fatal trap. -/
inductive Reaches (xlen : Xlen) : Machine → Prop where
  | start (m : Machine) (reset : m.hart = .reset xlen) : Reaches xlen m
  | receive (m : Machine) (bytes : List UInt8) (reached : Reaches xlen m) :
    Reaches xlen (m.receive bytes)
  | step (m m' : Machine) (outcome : StepOutcome) (reached : Reaches xlen m)
    (stepped : step m = .ok outcome m') : Reaches xlen m'
  | fatal (m m' : Machine) (fatal : FatalTrap) (reached : Reaches xlen m)
    (stepped : step m = .error fatal m') : Reaches xlen m'

/-- A run with a budget goes on from a reached machine to another one. -/
theorem Reaches.run {xlen : Xlen} {m m' : Machine} {stop : Option HaltReason} {n : Nat}
    (reached : Reaches xlen m) (ran : Machine.run n m = .ok stop m') : Reaches xlen m' := by
  induction n generalizing m with
  | zero =>
    obtain ⟨-, rfl⟩ := EStateM.Result.ok.inj ran
    exact reached
  | succ n ih =>
    simp only [Machine.run, bind, EStateM.bind] at ran
    cases stepped : Machine.step m with
    | error fatal m₁ =>
      rw [stepped] at ran
      contradiction
    | ok outcome m₁ =>
      have next := Reaches.step m m₁ outcome reached stepped
      rw [stepped] at ran
      cases outcome with
      | halted reason =>
        obtain ⟨-, rfl⟩ := EStateM.Result.ok.inj ran
        exact next
      | continued | trapped t => exact ih next ran

/-- Whether the next step raises a trap, fatal or not. -/
def Raises (m : Machine) (t : Trap) : Prop :=
  (∃ m', step m = .ok (.trapped t) m') ∨ ∃ handler m', step m = .error ⟨t, handler⟩ m'

private theorem raises_trapping {m : Machine} {t : Trap} (raised : m.Raises t) :
    ∃ m', Trapping m.begun t m' := by
  obtain ⟨m', stepped⟩ | ⟨handler, m', stepped⟩ := raised
  · cases step_effect stepped with
    | retired _ len m₂ even effect untrapped => exact absurd rfl (untrapped t)
    | trapped _ m₂ trapping => exact ⟨m₂, trapping⟩
  · exact ⟨m', step_fatal stepped⟩

theorem reaches_invariant {xlen : Xlen} {m : Machine} (reached : Reaches xlen m) :
    m.xlen = xlen ∧ m.hart.WellFormed := by
  -- The saved program counters are even because the current one is, and a return makes them the
  -- current one again, so that one induction has to carry the whole of well-formedness.
  induction reached with
  | start m reset =>
    refine ⟨?_, ?_⟩
    · unfold Machine.xlen
      rw [reset]
      rfl
    · rw [reset]
      exact Hart.reset_wellFormed xlen
  | receive m bytes reached ih => exact ih
  | step m m' outcome reached stepped ih =>
    have effect := step_effect stepped
    exact ⟨effect.xlen.trans ih.1, effect.wellFormed ih.2⟩
  | fatal m m' fatal reached stepped ih =>
    have same := (step_fatal stepped).undisturbed
    refine ⟨(same.xlen.trans m.begun_xlen).trans ih.1, ?_⟩
    rw [same.hart]
    exact begun_wellFormed ih.2

/-- Every reached machine is well-formed, and never raises a misaligned instruction. -/
theorem reaches_wellFormed {xlen : Xlen} {m : Machine} (reached : Reaches xlen m) :
    m.xlen = xlen ∧ m.hart.WellFormed ∧
      ∀ t, m.Raises t → ∀ addr, t.cause ≠ .exception (.misaligned .fetch addr) := by
  obtain ⟨width, wf⟩ := reaches_invariant reached
  refine ⟨width, wf, fun t raised => ?_⟩
  obtain ⟨m', trapping⟩ := raises_trapping raised
  exact trapping.not_misaligned (begun_wellFormed wf).even

/-- A 32-bit program that writes all ones to the trap vector, to the saved program counter and to
the status, and then returns. -/
def withReturnOfOnes : Machine :=
  { reset 0 .rv32 with bus := { Bus.reset 0 with ram := ⟨⟨#[
    0x93, 0x02, 0xf0, 0xff, 0x73, 0x90, 0x52, 0x30, 0x73, 0x90, 0x12, 0x34, 0x73, 0x90, 0x02, 0x30,
    0x73, 0x00, 0x20, 0x30]⟩⟩ } }

theorem reaches_wellFormed_returned :
    ∃ m, Reaches .rv32 m ∧ m.hart.pc = 0xfffffffe ∧ m.hart.read 5 = 0xffffffffffffffff ∧
      m.hart.csrs.mtvec = 0xfffffffc ∧ m.hart.csrs.mstatus = 0x7e01aa ∧
      m.xlen = .rv32 ∧ m.hart.WellFormed ∧
      ∀ t, m.Raises t → ∀ addr, t.cause ≠ .exception (.misaligned .fetch addr) := by
  have shown : (match Machine.run 5 withReturnOfOnes with
      | .ok none m => some (m.hart.pc, m.hart.read 5, m.hart.csrs.mtvec, m.hart.csrs.mstatus)
      | _ => none) = some (0xfffffffe, 0xffffffffffffffff, 0xfffffffc, 0x7e01aa) := by
    decide +kernel
  cases ran : Machine.run 5 withReturnOfOnes with
  | error fatal m =>
    rw [ran] at shown
    contradiction
  | ok stop m =>
    have reached : Reaches .rv32 m := (Reaches.start _ rfl).run ran
    rw [ran] at shown
    cases stop with
    | some reason => contradiction
    | none =>
      simp only [Option.some.injEq, Prod.mk.injEq] at shown
      obtain ⟨pc, value, vector, status⟩ := shown
      exact ⟨m, reached, pc, value, vector, status, reaches_wellFormed reached⟩

end Machine

end RiscvBoard
