import RiscvBoard.Proofs.Csr.WriteBack
import RiscvBoard.Proofs.Machine.Reservation

/-!
Control register instructions over whole steps. What one step writes the next one reads, although
time passes and an instruction is counted in between: only the lines of the devices and the counters
show that. The counter of instructions counts the instruction that writes it.
-/

set_option autoImplicit false

namespace RiscvBoard

/-! ### What an instruction does to the hart -/

namespace Hart.Controls

variable {op : CsrOp} {rd : Reg} {number : UInt16} {operand : CsrOperand} {h h' : Hart}

theorem changed (controls : Controls op rd number operand h h') :
    op.change number operand h = .ok h'.csrs := by
  cases controls with
  | unread c plain dropped changed => exact changed
  | read c old shown changed =>
    rw [write_csrs]
    exact changed

private theorem received (controls : Controls op rd number operand h h') (kept : rd ≠ 0) :
    ∃ old, h.csrs.read number = .ok old ∧ h'.read rd = h'.xlen.canonical old := by
  cases controls with
  | unread c plain dropped changed => exact absurd dropped kept
  | read c old shown changed =>
    refine ⟨old, shown, ?_⟩
    rw [read_write, if_pos ⟨rfl, kept⟩]
    exact congrArg (fun c => Xlen.canonical c.xlen old) (write_csrs _ rd old).symm

end Hart.Controls

namespace Machine

/-- The next step executes an instruction that completes. The instruction starts in the machine
`before`, when time has passed. -/
structure Completes (m : Machine) (i : Instr) (before after : Machine) : Prop where
  executes : ∃ fetched, m.executing? = some (i, fetched, before)
  ends : ∃ outcome, step m = .ok outcome after ∧ ∀ t, outcome ≠ .trapped t

end Machine

namespace CsrFile

def CountsInstructions (c : CsrFile) : Prop :=
  c.mcountinhibit &&& 4 = 0

instance (c : CsrFile) : Decidable c.CountsInstructions :=
  inferInstanceAs (Decidable (_ = _))

def nextInstret (c : CsrFile) : UInt64 :=
  if c.CountsInstructions then c.instret + 1 else c.instret

private theorem nextInstret_of_counts {c : CsrFile} (counts : c.CountsInstructions) :
    c.nextInstret = c.instret + 1 :=
  if_pos counts

private theorem nextInstret_of_inhibited {c : CsrFile} (inhibited : ¬ c.CountsInstructions) :
    c.nextInstret = c.instret :=
  if_neg inhibited

/-- What a read of a register returns in the step after a write of it that left the control state
`d`, in which the register shows the value `shown`. -/
structure ReadsBack (d : CsrFile) (csr : Csr) (shown later : UInt64) : Prop where
  same : csr ≠ .mip → csr ≠ .sip →
    (d.CountsInstructions → csr ≠ .minstret ∧ csr ≠ .minstreth) → later = shown
  /-- The lines of the devices may have changed. -/
  pending : csr = .mip ∨ csr = .sip → AgreeOutside Interrupt.drivenBits later shown
  /-- The instruction that writes the counter is counted after its write. -/
  counted : d.CountsInstructions →
    (csr = .minstret → later = d.instret + 1) ∧ (csr = .minstreth → later = (d.instret + 1) >>> 32)

private theorem get_elapsed (d : CsrFile) {csr : Csr} (level : csr.level ≠ .user)
    (low : csr ≠ .mcycle) (high : csr ≠ .mcycleh) (machine : csr ≠ .mip) (supervisor : csr ≠ .sip)
    (count : csr ≠ .minstret) (counth : csr ≠ .minstreth) (mip time cycle instret : UInt64) :
    get { d with mip := mip, time := time, cycle := cycle, instret := instret } csr =
      d.get csr := by
  cases csr with
  | mcycle | mcycleh | mip | sip | minstret | minstreth => contradiction
  | cycle | time | instret | hpmcounter i => exact absurd rfl level
  | cycleh | timeh | instreth | hpmcounterh i => exact absurd rfl level
  | _ => rfl

private theorem readsBack (d : CsrFile) {csr : Csr} (level : csr.level ≠ .user)
    (low : csr ≠ .mcycle)
    (high : csr ≠ .mcycleh) {mip : UInt64} (agree : AgreeOutside Interrupt.drivenBits mip d.mip)
    (time cycle : UInt64) :
    d.ReadsBack csr (d.get csr)
      (get { d with mip := mip, time := time, cycle := cycle, instret := d.nextInstret } csr) := by
  have kept := d.get_elapsed level low high
  refine ⟨fun machine supervisor still => ?_, ?_, fun counts => ⟨?_, ?_⟩⟩
  · by_cases counts : d.CountsInstructions
    · obtain ⟨count, counth⟩ := still counts
      exact kept machine supervisor count counth _ _ _ _
    · rw [nextInstret_of_inhibited counts]
      by_cases count : csr = .minstret
      · rw [count]
        rfl
      by_cases counth : csr = .minstreth
      · rw [counth]
        rfl
      exact kept machine supervisor count counth _ _ _ _
  · rintro (rfl | rfl)
    · exact agree
    · exact (agree.and_right d.mideleg).and_right Interrupt.supervisorBits
  · rintro rfl
    exact nextInstret_of_counts counts
  · rintro rfl
    simp only [get]
    rw [nextInstret_of_counts counts]

end CsrFile

namespace Machine

private theorem retire_csrs (m : Machine) :
    m.retire.hart.csrs = { m.hart.csrs with instret := m.hart.csrs.nextInstret } := by
  unfold retire countInstruction
  by_cases counts : m.hart.csrs.mcountinhibit &&& 4 = 0
  · rw [CsrFile.nextInstret_of_counts counts, if_pos counts]
    rfl
  · rw [CsrFile.nextInstret_of_inhibited counts, if_neg counts]
    rfl

theorem completes_of_untrapped {m m' : Machine} {outcome : StepOutcome}
    (stepped : step m = .ok outcome m') (untrapped : ∀ t, outcome ≠ .trapped t) :
    m' = m ∨ ∃ i m₁, Completes m i m₁ m' := by
  cases executes : m.executing? with
  | some start => exact .inr ⟨_, _, ⟨start.2.1, executes⟩, outcome, stepped, untrapped⟩
  | none =>
    obtain ⟨reason, halted⟩ | ⟨t, m₁, -, traps⟩ := step_of_idle isTranslationFrame_sameDevices executes
    · rw [stepped] at halted
      exact .inl (EStateM.Result.ok.inj halted).2
    · rw [stepped] at traps
      obtain taken | ⟨f, failed⟩ := trapped_cases t m₁
      · rw [taken] at traps
        exact absurd (EStateM.Result.ok.inj traps).1 (untrapped t)
      · rw [failed] at traps
        contradiction

section Completes

variable {m m₁ m' : Machine} {i : Instr}

private theorem Completes.xlen (completes : Completes m i m₁ m') : m'.xlen = m.xlen := by
  obtain ⟨-, outcome, stepped, -⟩ := completes
  exact (step_effect stepped).xlen

theorem Completes.start (completes : Completes m i m₁ m') : m₁.hart = m.begun.hart := by
  obtain ⟨⟨fetched, executes⟩, -⟩ := completes
  exact (executing_same executes).1.hart

/-- What a step does that completes a control register instruction: the hart is changed as the
instruction asks, and the instruction is counted. -/
theorem Completes.controls {op : CsrOp} {rd : Reg} {number : BitVec 12} {operand : CsrOperand}
    (completes : Completes m (.csr op rd number operand) m₁ m') :
    ∃ h, Hart.Controls op rd ⟨number.setWidth 16⟩ operand m₁.hart h ∧
      m'.hart.csrs = { h.csrs with instret := h.csrs.nextInstret } ∧
      ∀ r, m'.hart.read r = h.read r := by
  obtain ⟨⟨fetched, executes⟩, outcome, stepped, untrapped⟩ := completes
  obtain ⟨m₂, ran, rfl⟩ := completed_of_step executes stepped untrapped
  obtain ⟨h, controls, hart⟩ :=
    (ends_execute_csr op rd number operand fetched.raw fetched.length m₁).of_ok ran
  refine ⟨h, controls, ?_, fun r => ?_⟩
  · rw [retire_csrs, hart]
  · rw [retire_read, hart]
    rfl

theorem Completes.plain (completes : Completes m i m₁ m')
    (plain : ∀ op rd number operand, i ≠ .csr op rd number operand) :
    ∃ len h, Hart.PlainEffect len m₁.hart h ∧
      m'.hart.csrs = { h.csrs with instret := h.csrs.nextInstret } := by
  obtain ⟨⟨fetched, executes⟩, outcome, stepped, untrapped⟩ := completes
  obtain ⟨m₂, ran, rfl⟩ := completed_of_step executes stepped untrapped
  have effect := (ends_execute_plain plain fetched.raw fetched.length m₁).of_ok ran
  exact ⟨fetched.length, m₂.hart, effect, m₂.retire_csrs⟩

end Completes

/-- What an instruction writes to a control register that takes the write, the next instruction
reads, up to the lines of the devices, the count of the writing instruction itself and the cycle
counter. -/
theorem next_reads_written {m m₁ m' m₂ m'' : Machine} {rd rd' : Reg} {number : BitVec 12}
    {operand : CsrOperand} (writes : Completes m (.csr .write rd number operand) m₁ m')
    (reads : Completes m' (.csr .set rd' number (.reg 0)) m₂ m'') (kept : rd' ≠ 0) :
    ∃ csr d shown, Csr.ofNumber? ⟨number.setWidth 16⟩ = some csr ∧
      m₁.hart.csrs.write ⟨number.setWidth 16⟩ (operand.value m₁.hart) = .ok d ∧
      d.read ⟨number.setWidth 16⟩ = .ok shown ∧
      (csr ≠ .mcycle → csr ≠ .mcycleh →
        ∃ later, m''.hart.read rd' = m.xlen.canonical later ∧ d.ReadsBack csr shown later) := by
  obtain ⟨h, controls, csrs, -⟩ := writes.controls
  obtain ⟨h', controls', csrs', regs⟩ := reads.controls
  have written : m₁.hart.csrs.write _ (operand.value m₁.hart) = .ok h.csrs := controls.changed
  obtain ⟨csr, granted, writable, -, shown⟩ := CsrFile.read_of_write written
  refine ⟨csr, h.csrs, _, granted.found, written, shown, fun low high => ?_⟩
  obtain ⟨later, seen, value⟩ := controls'.received kept
  have width : h'.xlen = m.xlen := by
    rw [← writes.xlen, ← reads.xlen]
    exact (congrArg CsrFile.xlen csrs').symm
  refine ⟨later, by rw [regs, value, width], ?_⟩
  obtain ⟨mip, time, cycle, agree, hart⟩ := m'.begun_hart
  obtain ⟨csr', granted', -, rfl⟩ := CsrFile.read_eq_ok_iff.1 seen
  obtain rfl : csr = csr' := Option.some.inj (granted.found.symm.trans granted'.found)
  rw [csrs] at agree hart
  rw [reads.start, hart]
  exact h.csrs.readsBack (granted.level_ne_user writable) low high agree time cycle

theorem completes_of_continued {m : Machine} {i : Instr}
    (found : m.executing?.map Prod.fst = some i) (continued : m.outcome? = some .continued) :
    ∃ m₁, m.Completes i m₁ m.afterStep := by
  obtain ⟨⟨_, fetched, m₁⟩, executes, rfl⟩ := Option.map_eq_some_iff.1 found
  exact ⟨m₁, ⟨fetched, executes⟩, .continued, step_of_outcome? continued, fun _ => nofun⟩

def withVectorWrite : Machine :=
  withCode #[0x73, 0xd0, 0x5f, 0x30, 0x73, 0x21, 0x50, 0x30]

/-- The program reads the legal form of what it has written. -/
theorem next_reads_written_trapVector :
    ∃ m₁ m₂ m'', withVectorWrite.Completes (.csr .write 0 0x305 (.imm 31)) m₁
        withVectorWrite.afterStep ∧
      withVectorWrite.afterStep.Completes (.csr .set 2 0x305 (.reg 0)) m₂ m'' ∧
      ∃ csr d shown, Csr.ofNumber? 0x305 = some csr ∧
        m₁.hart.csrs.write 0x305 31 = .ok d ∧ d.read 0x305 = .ok shown ∧
        (csr ≠ .mcycle → csr ≠ .mcycleh → ∃ later,
          m''.hart.read 2 = later ∧ d.ReadsBack csr shown later) := by
  obtain ⟨m₁, writes⟩ : ∃ m₁, withVectorWrite.Completes (.csr .write 0 0x305 (.imm 31)) m₁ _ :=
    completes_of_continued (by decide +kernel) (by decide +kernel)
  obtain ⟨m₂, reads⟩ : ∃ m₂, withVectorWrite.afterStep.Completes (.csr .set 2 0x305 (.reg 0)) m₂ _ :=
    completes_of_continued (by decide +kernel) (by decide +kernel)
  exact ⟨m₁, m₂, _, writes, reads, next_reads_written writes reads (by decide)⟩

def withCounterWrite : Machine :=
  withCode #[0x73, 0xd0, 0x22, 0xb0, 0x73, 0x21, 0x20, 0xb0]

/-- The counter of instructions is not read as it was written: the program reads one more, because
the instruction that writes the counter is counted in its new value. -/
theorem counter_counts_its_write :
    ¬ ∀ (m m₁ m' m₂ m'' : Machine) (rd rd' : Reg) (number : BitVec 12) (operand : CsrOperand)
      (csr : Csr), m.hart.csrs.privilege = .machine →
      Csr.ofNumber? ⟨number.setWidth 16⟩ = some csr → csr ∉ [.mcycle, .mcycleh, .mip, .sip] →
      Completes m (.csr .write rd number operand) m₁ m' →
      Completes m' (.csr .set rd' number (.reg 0)) m₂ m'' → rd' ≠ 0 →
      ∃ d shown, m₁.hart.csrs.write ⟨number.setWidth 16⟩ (operand.value m₁.hart) = .ok d ∧
        d.read ⟨number.setWidth 16⟩ = .ok shown ∧
        m''.hart.read rd' = m.xlen.canonical shown := by
  intro claim
  obtain ⟨m₁, writes⟩ : ∃ m₁, withCounterWrite.Completes (.csr .write 0 0xb02 (.imm 5)) m₁ _ :=
    completes_of_continued (by decide +kernel) (by decide +kernel)
  obtain ⟨m₂, reads⟩ :
      ∃ m₂, withCounterWrite.afterStep.Completes (.csr .set 2 0xb02 (.reg 0)) m₂ _ :=
    completes_of_continued (by decide +kernel) (by decide +kernel)
  obtain ⟨d, shown, written, read, received⟩ :=
    claim _ _ _ _ _ _ _ _ _ .minstret rfl rfl (by decide) writes reads (by decide)
  obtain ⟨csr, granted, -, rfl, shows⟩ := CsrFile.read_of_write written
  obtain rfl : csr = .minstret := Option.some.inj (granted.found.symm.trans rfl)
  have width : m₁.hart.csrs.xlen = .rv64 :=
    (congrArg Hart.xlen writes.start).trans withCounterWrite.begun_xlen
  have five : shown = 5 := by
    rw [read, Except.ok.injEq] at shows
    rw [shows]
    simp only [CsrFile.set, CsrFile.get, CsrFile.replaceLow, width]
    rfl
  have six : withCounterWrite.afterStep.afterStep.hart.read 2 = 6 := by decide +kernel
  rw [received, five] at six
  contradiction

end Machine

end RiscvBoard
