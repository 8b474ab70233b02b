import RiscvBoard.Isa.Compressed
import RiscvBoard.Proofs.Isa.RoundTrip

/-!
Expansion and decoding agree: what a halfword abbreviates is an instruction that the hart has, and
so some word is decoded to it.
-/

set_option autoImplicit false

namespace RiscvBoard

private theorem Instr.validFor_shiftImm {op : ShiftOp} {rd rs1 : Reg} {amount : BitVec 6}
    (short : ¬ amount.msb = true) : validFor .rv32 (.shiftImm op rd rs1 amount) := by
  simp [validFor, short]

namespace Compressed

private theorem validFor_of_shortArithmetic {xlen : Xlen} {h : BitVec 16} {i : Instr}
    (found : shortArithmetic xlen h = some i) : i.validFor xlen := by
  cases xlen with
  | rv64 => rfl
  | rv32 =>
    simp only [shortArithmetic, reduceCtorEq, if_false, true_and] at found
    split at found
    · split at found
      · contradiction
      next short =>
        cases found
        exact Instr.validFor_shiftImm short
    · split at found
      · contradiction
      next short =>
        cases found
        exact Instr.validFor_shiftImm short
    · cases found
      rfl
    · split at found <;> cases found <;> rfl

private theorem validFor_of_jumpOrMove {xlen : Xlen} {h : BitVec 16} {i : Instr}
    (found : jumpOrMove h = some i) : i.validFor xlen := by
  cases xlen with
  | rv64 => rfl
  | rv32 =>
    simp only [jumpOrMove] at found
    repeat' split at found
    all_goals cases found <;> rfl

private theorem validFor_of_expand? {xlen : Xlen} {h : BitVec 16} {i : Instr}
    (found : expand? xlen h = some i) : i.validFor xlen := by
  cases xlen with
  | rv64 => rfl
  | rv32 =>
    simp only [expand?, reduceCtorEq, if_false, true_and] at found
    split at found
    case h_10 => exact validFor_of_shortArithmetic found
    case h_17 => exact validFor_of_jumpOrMove found
    case h_14 =>
      split at found
      · contradiction
      next short =>
        cases found
        exact Instr.validFor_shiftImm short
    all_goals
      repeat' split at found
      all_goals cases found <;> rfl

end Compressed

namespace Instr

private theorem expand_eq_ok {xlen : Xlen} {h : BitVec 16} {i : Instr}
    (expanded : expand xlen h = .ok i) : Compressed.expand? xlen h = some i := by
  simp only [expand] at expanded
  split at expanded
  · next found =>
    cases expanded
    exact found
  · contradiction

/-- A halfword abbreviates what some word stands for. -/
theorem exists_decode_of_expand {xlen : Xlen} {h : BitVec 16} {i : Instr}
    (expanded : expand xlen h = .ok i) : ∃ w, decode xlen w = .ok i := by
  have valid := Compressed.validFor_of_expand? (expand_eq_ok expanded)
  exact ⟨i.encode, decode_of_isEncodedBy valid i.encode_isEncodedBy⟩

end Instr

end RiscvBoard
