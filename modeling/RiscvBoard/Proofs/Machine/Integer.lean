import RiscvBoard.Machine.Execute
import RiscvBoard.Proofs.Ends
import RiscvBoard.Proofs.Isa.Arithmetic
import RiscvBoard.Proofs.Machine.Hart

/-!
Integer instructions on a hart. A hart keeps an architectural state when each register holds the
sign extension of the architectural one. An integer instruction takes a hart that keeps a state to
one that keeps the next state, and touches nothing but registers and program counter.
-/

set_option autoImplicit false

namespace RiscvBoard

open Instr (widen)

namespace ArchState

variable {n : Nat}

private theorem write_regs (s : ArchState n) (rd : Reg) (value : BitVec n) (r : Reg) :
    (s.write rd value).regs r = if r = rd ∧ rd ≠ 0 then value else s.regs r := rfl

private theorem write_zero (s : ArchState n) (value : BitVec n) : s.write 0 value = s := by
  ext r <;> simp [write]

end ArchState

namespace Hart

def view (h : Hart) : ArchState h.xlen.bits where
  regs := fun r => low h.xlen.bits (h.read r)
  pc := low h.xlen.bits h.pc

/-- Whether a hart keeps an architectural state: each register in canonical form, and the program
counter up to bits above the register width. -/
structure Keeps (h : Hart) {n : Nat} (s : ArchState n) : Prop where
  width : n = h.xlen.bits
  regs : ∀ r, h.read r = widen (s.regs r)
  pc : low n h.pc = s.pc

private theorem keeps_view {h : Hart}
    (canonical : ∀ value ∈ h.regs, h.xlen.canonical value = value) : h.Keeps h.view := by
  refine ⟨rfl, ?_, rfl⟩
  intro r
  have present : h.read r ∈ h.regs := Vector.getElem_mem (Reg.toNat_lt r)
  have form := canonical _ present
  rw [Xlen.canonical_eq] at form
  exact form.symm

theorem read_write (h : Hart) (rd : Reg) (value : UInt64) (r : Reg) :
    (h.write rd value).read r = if r = rd ∧ rd ≠ 0 then h.xlen.canonical value else h.read r := by
  unfold write
  by_cases zero : rd = 0
  · simp [zero]
  · simp only [zero, if_false, read, Vector.getElem_set, BitVec.toNat_inj, ne_eq,
      not_false_eq_true, and_true, eq_comm]

namespace Keeps

variable {h : Hart} {n : Nat} {s : ArchState n}

private theorem width_le (keeps : h.Keeps s) : n ≤ 64 := by
  rw [keeps.width]
  exact h.xlen.bits_le

private theorem low_read (keeps : h.Keeps s) (r : Reg) : low n (h.read r) = s.regs r := by
  rw [keeps.regs r, low_widen_self _ keeps.width_le]

private theorem low_word (keeps : h.Keeps s) (r : Reg) : low 32 (h.read r) = s.word r := by
  have wide : 32 ≤ n := by
    rw [keeps.width]
    cases h.xlen <;> decide
  rw [keeps.regs r, low_widen _ (by decide), BitVec.signExtend_eq_setWidth_of_le _ wide]
  rfl

private theorem write_jump (keeps : h.Keeps s) (rd : Reg) (value target : UInt64) :
    Keeps { h.write rd value with pc := target }
      ((s.write rd (low n value)).jump (low n target)) := by
  obtain ⟨rfl, regs, -⟩ := keeps
  have same : (h.write rd value).xlen = h.xlen := congrArg CsrFile.xlen (h.write_csrs rd value)
  refine ⟨congrArg Xlen.bits same.symm, ?_, rfl⟩
  intro r
  have written : (h.write rd value).read r =
      widen ((s.write rd (low h.xlen.bits value)).regs r) := by
    rw [read_write, ArchState.write_regs]
    split
    next => rw [Xlen.canonical_eq]
    next => exact regs r
  exact written

private theorem map_compute? (keeps : h.Keeps s) (i : Instr) :
    (Machine.compute? h i).map (fun result => (result.1, low n result.2)) = i.result? s := by
  have inside := keeps.width_le
  obtain ⟨rfl, regs, pc⟩ := id keeps
  cases i with
  | regReg op rd rs1 rs2 =>
    show some (rd, low _ (op.eval h.xlen (h.read rs1) (h.read rs2))) = _
    rw [regs, regs, RegOp.low_eval]
    rfl
  | regRegWord op rd rs1 rs2 =>
    show some (rd, low _ (op.eval (h.read rs1) (h.read rs2))) = _
    rw [RegWordOp.eval_eq, keeps.low_word, keeps.low_word, low_widen _ inside]
    rfl
  | regImm op rd rs1 imm =>
    show some (rd, low _ (op.eval (h.read rs1) (widen imm))) = _
    rw [regs, ImmOp.low_eval]
    rfl
  | addiw rd rs1 imm =>
    show some (rd, low _ (widen (low 32 (h.read rs1 + widen imm)))) = _
    rw [low_widen _ inside, low_add _ _ (by decide), keeps.low_word, low_widen _ (by decide)]
    rfl
  | shiftImm op rd rs1 shamt =>
    have short : (UInt64.ofNat shamt.toNat).toNat = shamt.toNat :=
      UInt64.toNat_ofNat_of_lt' (Nat.lt_trans shamt.isLt (by decide))
    show some (rd, low _ (op.eval h.xlen (h.read rs1) (UInt64.ofNat shamt.toNat))) = _
    rw [regs, ShiftOp.low_eval _ _ _ (by rw [short]; exact shamt.isLt), short]
    rfl
  | shiftImmWord op rd rs1 shamt =>
    have short : (UInt32.ofNat shamt.toNat).toNat = shamt.toNat :=
      UInt32.toNat_ofNat_of_lt' (Nat.lt_trans shamt.isLt (by decide))
    show some (rd, low _ (op.evalWord (h.read rs1) (UInt32.ofNat shamt.toNat))) = _
    rw [ShiftOp.evalWord_eq _ _ (by rw [short]; exact shamt.isLt), keeps.low_word, short,
      low_widen _ inside]
    rfl
  | lui rd imm =>
    show some (rd, low _ (widen (Instr.upperImmediate imm))) = _
    rw [low_widen _ inside]
    rfl
  | auipc rd imm =>
    show some (rd, low _ (h.pc + widen (Instr.upperImmediate imm))) = _
    rw [low_add _ _ inside, pc, low_widen _ inside]
    rfl
  | _ => rfl

private theorem next?_of_jump? (keeps : h.Keeps s) (len : UInt64) {i : Instr} {target : UInt64}
    {link : Reg} (jumped : Machine.jump? h (h.pc + len) i = some (target, link)) :
    i.next? (low n len) s = some ((s.write link (low n (h.pc + len))).jump (low n target)) := by
  have inside := keeps.width_le
  obtain ⟨rfl, regs, pc⟩ := id keeps
  cases i with
  | branch op rs1 rs2 off =>
    rw [Machine.jump?, regs, regs,
      BranchOp.holds_widen _ _ h.xlen.bits_pos inside] at jumped
    rw [Instr.next?]
    split at jumped
    next taken =>
      obtain ⟨rfl, rfl⟩ := Prod.mk.inj (Option.some.inj jumped)
      rw [if_pos taken, ArchState.write_zero, low_add _ _ inside, pc, low_widen _ inside]
      rfl
    next passed =>
      obtain ⟨rfl, rfl⟩ := Prod.mk.inj (Option.some.inj jumped)
      rw [if_neg passed, ArchState.write_zero, low_add _ _ inside, pc]
  | jal rd off =>
    obtain ⟨rfl, rfl⟩ := Prod.mk.inj (Option.some.inj jumped)
    rw [Instr.next?, low_add _ _ inside, low_add _ _ inside, pc, low_widen _ inside]
    rfl
  | jalr rd rs1 off =>
    obtain ⟨rfl, rfl⟩ := Prod.mk.inj (Option.some.inj jumped)
    have even : low h.xlen.bits (~~~1) = ~~~1#h.xlen.bits := by
      cases h.xlen <;> rfl
    rw [Instr.next?, low_and, low_add _ _ inside, low_add _ _ inside, pc, keeps.low_read, even,
      low_widen _ inside]
  | _ => contradiction

end Keeps

end Hart

namespace Machine

theorem execute_of_compute? {m : Machine} {i : Instr} {rd : Reg} {value : UInt64}
    (found : compute? m.hart i = some (rd, value)) (raw : UInt32) (len : UInt64) :
    execute i raw len m = .ok () { m with
      hart := { m.hart.write rd value with pc := m.hart.pc + len } } := by
  simp only [execute, bind_get, found]
  rfl

theorem execute_of_jump? {m : Machine} {i : Instr} {target : UInt64} {link : Reg} {len : UInt64}
    (computed : compute? m.hart i = none)
    (jumped : jump? m.hart (m.hart.pc + len) i = some (target, link)) (raw : UInt32) :
    execute i raw len m = .ok () { m with
      hart := { m.hart.write link (m.hart.pc + len) with pc := target } } := by
  simp only [execute, bind_get, computed, jumped]
  rfl

private theorem next?_of_result? {n : Nat} {s : ArchState n} {i : Instr} {rd : Reg}
    {value : BitVec n} (result : i.result? s = some (rd, value)) (len : BitVec n) :
    i.next? len s = some ((s.write rd value).jump (s.pc + len)) := by
  cases i with
  | branch op rs1 rs2 off => contradiction
  | jal rd off => contradiction
  | jalr rd rs1 off => contradiction
  | _ =>
    rw [Instr.next?, result]
    · rfl
    all_goals exact nofun

private theorem execute_keeps {m : Machine} {n : Nat} {s : ArchState n} (keeps : m.hart.Keeps s)
    {i : Instr} (integer : i.isInteger) (raw : UInt32) (len : UInt64) :
    ∃ s' h, i.next? (low n len) s = some s' ∧
      execute i raw len m = .ok () { m with hart := h } ∧ h.Keeps s' ∧ h.csrs = m.hart.csrs := by
  have result := keeps.map_compute? i
  cases computed : compute? m.hart i with
  | some found =>
    obtain ⟨rd, value⟩ := found
    rw [computed] at result
    have next := next?_of_result? result.symm (low n len)
    have done := keeps.write_jump rd value (m.hart.pc + len)
    rw [low_add _ _ keeps.width_le, keeps.pc] at done
    exact ⟨_, _, next, execute_of_compute? computed raw len, done, m.hart.write_csrs rd value⟩
  | none =>
    cases jumped : jump? m.hart (m.hart.pc + len) i with
    | some found =>
      obtain ⟨target, link⟩ := found
      have next := keeps.next?_of_jump? len jumped
      have done := keeps.write_jump link (m.hart.pc + len) target
      exact ⟨_, _, next, execute_of_jump? computed jumped raw, done, m.hart.write_csrs link _⟩
    | none =>
      exfalso
      cases i with
      | branch op rs1 rs2 off =>
        rw [jump?] at jumped
        split at jumped <;> contradiction
      | _ => contradiction

/-- On a canonical register file every integer instruction completes, whatever its operands. The
registers and the program counter are then those of the architecture's next state, each register in
canonical form; a register that this state leaves alone keeps all its bits, and nothing else of the
machine changes. -/
theorem execute_integer {m : Machine} {i : Instr}
    (canonical : ∀ value ∈ m.hart.regs, m.hart.xlen.canonical value = value)
    (integer : i.isInteger) (raw : UInt32) (len : UInt64) :
    ∃ s h, i.next? (low _ len) m.hart.view = some s ∧
      execute i raw len m = .ok () { m with hart := h } ∧ h.csrs = m.hart.csrs ∧
      (∀ r, h.read r = widen (s.regs r)) ∧
      (∀ r, s.regs r = m.hart.view.regs r → h.read r = m.hart.read r) ∧
      low _ h.pc = s.pc := by
  have keeps := Hart.keeps_view canonical
  obtain ⟨s, h, next, done, kept, csrs⟩ := execute_keeps keeps integer raw len
  refine ⟨s, h, next, done, csrs, kept.regs, ?_, kept.pc⟩
  intro r same
  rw [kept.regs r, same, ← keeps.regs r]

/-- On a narrow hart the quotient that does not fit is the dividend, sign-extended. -/
theorem execute_integer_overflow :
    let m := ((reset 0 .rv32).setReg 5 0x80000000).setReg 6 0xffffffff
    let i : Instr := .regReg .div 7 5 6
    (∀ value ∈ m.hart.regs, m.hart.xlen.canonical value = value) ∧ i.isInteger ∧
      ∃ h, execute i 0 4 m = .ok () { m with hart := h } ∧ h.read 7 = 0xffffffff80000000 := by
  intro m i
  have all : m.hart.regs.toList.all fun value => m.hart.xlen.canonical value == value := by decide
  have canonical : ∀ value ∈ m.hart.regs, m.hart.xlen.canonical value = value := by
    intro value mem
    exact beq_iff_eq.1 (List.all_eq_true.1 all value (Vector.mem_toList_iff.2 mem))
  obtain ⟨s, h, next, done, -, regs, -⟩ := execute_integer (m := m) (i := i) canonical rfl 0 4
  refine ⟨canonical, rfl, h, done, ?_⟩
  obtain rfl := Option.some.inj next
  rw [regs 7]
  decide

end Machine

end RiscvBoard
