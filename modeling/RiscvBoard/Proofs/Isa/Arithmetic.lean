import RiscvBoard.Proofs.Isa.Embedding

/-!
Every operation of the integer instructions, carried out on registers in canonical form, gives the
result that the architecture defines.
-/

set_option autoImplicit false

namespace RiscvBoard

open Instr (widen)

/-! ### Division -/

section Division

variable {n : Nat}

private theorem sdiv_eq_ofInt (a b : BitVec n) :
    a.sdiv b = BitVec.ofInt n (a.toInt.tdiv b.toInt) := by
  apply BitVec.eq_of_toInt_eq
  rw [BitVec.toInt_ofInt, BitVec.toInt_sdiv]

private theorem srem_eq_ofInt (a b : BitVec n) :
    a.srem b = BitVec.ofInt n (a.toInt.tmod b.toInt) := by
  rw [← BitVec.toInt_srem, BitVec.ofInt_toInt]

private theorem quotient_eq (a : BitVec n) {b : BitVec n} (nonzero : b ≠ 0#n) :
    quotient a b = BitVec.ofInt n (a.toInt.tdiv b.toInt) := by
  rw [quotient, if_neg nonzero]
  split
  next overflow =>
    obtain ⟨rfl, rfl⟩ := overflow
    rw [← sdiv_eq_ofInt, ← BitVec.neg_one_eq_allOnes, BitVec.intMin_sdiv_neg_one]
  next => rfl

private theorem remainder_eq (a : BitVec n) {b : BitVec n} (nonzero : b ≠ 0#n) :
    remainder a b = BitVec.ofInt n (a.toInt.tmod b.toInt) := by
  rw [remainder, if_neg nonzero]
  split
  next overflow =>
    obtain ⟨rfl, rfl⟩ := overflow
    rw [BitVec.toInt_allOnes]
    split
    · simp
    · next empty =>
      obtain rfl : n = 0 := by omega
      exact (BitVec.of_length_zero).symm
  next => rfl

private theorem low_div (a b : BitVec n) (inside : n ≤ 64) :
    low n ((widen a).toInt64 / (widen b).toInt64).toUInt64 =
      BitVec.ofInt n (a.toInt.tdiv b.toInt) := by
  have divided : ((widen a).toInt64 / (widen b).toInt64).toBitVec =
      BitVec.ofInt 64 (a.toInt.tdiv b.toInt) := by
    rw [Int64.toBitVec_div, sdiv_eq_ofInt, Int64.toInt_toBitVec, Int64.toInt_toBitVec,
      toInt_widen a inside, toInt_widen b inside]
  rw [low, Int64.toBitVec_toUInt64, divided, setWidth_ofInt _ inside]

private theorem low_mod (a b : BitVec n) (inside : n ≤ 64) :
    low n ((widen a).toInt64 % (widen b).toInt64).toUInt64 =
      BitVec.ofInt n (a.toInt.tmod b.toInt) := by
  have divided : ((widen a).toInt64 % (widen b).toInt64).toBitVec =
      BitVec.ofInt 64 (a.toInt.tmod b.toInt) := by
    rw [Int64.toBitVec_mod, srem_eq_ofInt, Int64.toInt_toBitVec, Int64.toInt_toBitVec,
      toInt_widen a inside, toInt_widen b inside]
  rw [low, Int64.toBitVec_toUInt64, divided, setWidth_ofInt _ inside]

end Division

/-! ### Operations on registers -/

theorem RegOp.low_eval (xlen : Xlen) (a b : BitVec xlen.bits) (op : RegOp) :
    low xlen.bits (op.eval xlen (widen a) (widen b)) = op.value a b := by
  have inside := xlen.bits_le
  have positive := xlen.bits_pos
  have left := low_widen_self a inside
  have right := low_widen_self b inside
  have amount := xlen.toNat_and_shiftMask (widen b)
  rw [right] at amount
  have short : (widen b &&& xlen.shiftMask).toNat < 64 := by
    rw [amount]
    exact Xlen.shiftAmount_lt b
  cases op with
  | add => rw [eval, low_add _ _ inside, left, right, value]
  | sub => rw [eval, low_sub _ _ inside, left, right, value]
  | sll => rw [eval, low_shiftLeft _ _ inside short, left, amount, value]
  | slt =>
    have order : (widen a).toInt64 < (widen b).toInt64 ↔ a.toInt < b.toInt := by
      rw [Int64.lt_iff_toInt_lt, toInt_widen a inside, toInt_widen b inside]
    rw [eval, low_flag, value, decide_eq_decide.2 order]
  | sltu => rw [eval, low_flag, value, decide_eq_decide.2 (widen_lt positive inside)]
  | xor => rw [eval, low_xor, left, right, value]
  | srl => rw [eval, xlen.low_truncate_shiftRight _ _ short, left, amount, value]
  | sra => rw [eval, low_shiftRight_signed a _ inside short, amount, value]
  | or => rw [eval, low_or, left, right, value]
  | and => rw [eval, low_and, left, right, value]
  | mul => rw [eval, low_mul _ _ inside, left, right, value]
  | mulh =>
    rw [eval, low_ofInt _ inside, toInt_widen a inside, toInt_widen b inside, value,
      ← upperHalf_ofInt, BitVec.ofInt_mul]
    rfl
  | mulhsu =>
    rw [eval, low_ofInt _ inside, toInt_widen a inside, xlen.toNat_truncate_widen, value,
      ← upperHalf_ofInt, BitVec.ofInt_mul, BitVec.ofInt_natCast, BitVec.ofNat_toNat]
    rfl
  | mulhu =>
    rw [eval, low_ofNat _ inside, xlen.toNat_truncate_widen, xlen.toNat_truncate_widen, value,
      ← upperHalf_ofNat, BitVec.ofNat_mul, BitVec.ofNat_toNat, BitVec.ofNat_toNat]
  | div =>
    rw [eval, value]
    simp only [widen_eq_zero inside]
    split
    next zero => rw [low_ones inside, quotient, if_pos zero]
    next nonzero => rw [low_div a b inside, quotient_eq a nonzero]
  | divu =>
    rw [eval, value, quotientUnsigned]
    simp only [Xlen.truncate_widen_eq_zero]
    split
    next => rw [low_ones inside]
    next =>
      rw [low_eq_ofNat, UInt64.toNat_div, xlen.toNat_truncate_widen, xlen.toNat_truncate_widen]
  | rem =>
    rw [eval, value]
    simp only [widen_eq_zero inside]
    split
    next zero => rw [left, remainder, if_pos zero]
    next nonzero => rw [low_mod a b inside, remainder_eq a nonzero]
  | remu =>
    rw [eval, value, remainderUnsigned]
    simp only [Xlen.truncate_widen_eq_zero]
    split
    next =>
      rw [low_eq_ofNat, xlen.toNat_truncate_widen, BitVec.ofNat_toNat, BitVec.setWidth_eq]
    next =>
      rw [low_eq_ofNat, UInt64.toNat_mod, xlen.toNat_truncate_widen, xlen.toNat_truncate_widen]

private theorem ImmOp.eval_eq (xlen : Xlen) (a imm : UInt64) (op : ImmOp) :
    op.eval a imm = op.onRegs.eval xlen a imm := by
  cases op <;> rfl

theorem ImmOp.low_eval (xlen : Xlen) (a : BitVec xlen.bits) (imm : BitVec 12) (op : ImmOp) :
    low xlen.bits (op.eval (widen a) (widen imm)) =
      op.onRegs.value a (imm.signExtend xlen.bits) := by
  have wider : 12 ≤ xlen.bits := by cases xlen <;> decide
  rw [eval_eq xlen, ← widen_signExtend imm wider, RegOp.low_eval]

theorem ShiftOp.low_eval (xlen : Xlen) (a : BitVec xlen.bits) (k : UInt64) (short : k.toNat < 64)
    (op : ShiftOp) : low xlen.bits (op.eval xlen (widen a) k) = op.value a k.toNat := by
  have inside := xlen.bits_le
  cases op with
  | left => rw [eval, low_shiftLeft _ _ inside short, low_widen_self a inside, value]
  | rightLogical =>
    rw [eval, xlen.low_truncate_shiftRight _ _ short, low_widen_self a inside, value]
  | rightArithmetic => rw [eval, low_shiftRight_signed a _ inside short, value]

/-! ### Operations on low words -/

private theorem toNat_and_wordMask (y : UInt32) : (y &&& 31).toNat = shiftAmount y.toBitVec :=
  Nat.and_two_pow_sub_one_eq_mod _ 5

private theorem toBitVec_shiftLeft_word (x k : UInt32) (short : k.toNat < 32) :
    (x <<< k).toBitVec = x.toBitVec <<< k.toNat := by
  have amount : (k.toBitVec % 32).toNat = k.toNat := Nat.mod_eq_of_lt short
  rw [UInt32.toBitVec_shiftLeft, BitVec.shiftLeft_eq', amount]

private theorem toBitVec_shiftRight_word (x k : UInt32) (short : k.toNat < 32) :
    (x >>> k).toBitVec = x.toBitVec >>> k.toNat := by
  have amount : (k.toBitVec % 32).toNat = k.toNat := Nat.mod_eq_of_lt short
  rw [UInt32.toBitVec_shiftRight, BitVec.ushiftRight_eq', amount]

private theorem toBitVec_shiftRight_signedWord (x k : UInt32) (short : k.toNat < 32) :
    (x.toInt32 >>> k.toInt32).toBitVec = x.toBitVec.sshiftRight k.toNat := by
  have amount : k.toBitVec.smod 32 = k.toBitVec := smod_of_lt short (by decide)
  rw [Int32.toBitVec_shiftRight, BitVec.sshiftRight_eq', UInt32.toBitVec_toInt32,
    UInt32.toBitVec_toInt32, amount]
  rfl

private theorem toBitVec_eq_ofNat (x : UInt32) : x.toBitVec = BitVec.ofNat 32 x.toNat := by
  rw [← UInt32.toNat_toBitVec, BitVec.ofNat_toNat, BitVec.setWidth_eq]

theorem RegWordOp.eval_eq (a b : UInt64) (op : RegWordOp) :
    op.eval a b = widen (op.onWords.value (low 32 a) (low 32 b)) := by
  have left : low 32 a = a.toUInt32.toBitVec := rfl
  have right : low 32 b = b.toUInt32.toBitVec := rfl
  rw [left, right]
  unfold eval
  generalize a.toUInt32 = x
  generalize b.toUInt32 = y
  have amount := toNat_and_wordMask y
  have short : (y &&& 31).toNat < 32 := by
    rw [amount]
    exact Nat.mod_lt _ (by decide)
  have zero : y.toBitVec = 0#32 ↔ y = 0 := UInt32.toBitVec_inj (b := 0)
  cases op with
  | add => rfl
  | sub => rfl
  | sll =>
    show widen (x <<< (y &&& 31)).toBitVec = _
    rw [toBitVec_shiftLeft_word _ _ short, amount]
    rfl
  | srl =>
    show widen (x >>> (y &&& 31)).toBitVec = _
    rw [toBitVec_shiftRight_word _ _ short, amount]
    rfl
  | sra =>
    show widen (x.toInt32 >>> (y &&& 31).toInt32).toBitVec = _
    rw [toBitVec_shiftRight_signedWord _ _ short, amount]
    rfl
  | mul => rfl
  | div =>
    show widen (if y = 0 then 0xffffffff else (x.toInt32 / y.toInt32).toUInt32 : UInt32).toBitVec =
      widen (quotient x.toBitVec y.toBitVec)
    split
    next none => rw [quotient, if_pos (zero.2 none)]; rfl
    next some =>
      rw [quotient_eq _ (mt zero.1 some), ← sdiv_eq_ofInt, Int32.toBitVec_toUInt32,
        Int32.toBitVec_div, UInt32.toBitVec_toInt32, UInt32.toBitVec_toInt32]
  | divu =>
    show widen (if y = 0 then 0xffffffff else x / y : UInt32).toBitVec =
      widen (quotientUnsigned x.toBitVec y.toBitVec)
    rw [quotientUnsigned]
    simp only [zero]
    split
    next => rfl
    next => rw [toBitVec_eq_ofNat (x / y), UInt32.toNat_div]; rfl
  | rem =>
    show widen (if y = 0 then x else (x.toInt32 % y.toInt32).toUInt32 : UInt32).toBitVec =
      widen (remainder x.toBitVec y.toBitVec)
    split
    next none => rw [remainder, if_pos (zero.2 none)]
    next some =>
      rw [remainder_eq _ (mt zero.1 some), ← srem_eq_ofInt, Int32.toBitVec_toUInt32,
        Int32.toBitVec_mod, UInt32.toBitVec_toInt32, UInt32.toBitVec_toInt32]
  | remu =>
    show widen (if y = 0 then x else x % y : UInt32).toBitVec =
      widen (remainderUnsigned x.toBitVec y.toBitVec)
    rw [remainderUnsigned]
    simp only [zero]
    split
    next => rfl
    next => rw [toBitVec_eq_ofNat (x % y), UInt32.toNat_mod]; rfl

theorem ShiftOp.evalWord_eq (a : UInt64) (k : UInt32) (short : k.toNat < 32) (op : ShiftOp) :
    op.evalWord a k = widen (op.value (low 32 a) k.toNat) := by
  cases op with
  | left =>
    rw [value, ← show a.toUInt32.toBitVec = low 32 a from rfl, ← toBitVec_shiftLeft_word _ _ short]
    rfl
  | rightLogical =>
    rw [value, ← show a.toUInt32.toBitVec = low 32 a from rfl, ← toBitVec_shiftRight_word _ _ short]
    rfl
  | rightArithmetic =>
    rw [value, ← show a.toUInt32.toBitVec = low 32 a from rfl,
      ← toBitVec_shiftRight_signedWord _ _ short]
    rfl

/-! ### Atomic operations -/

namespace AtomicWidth

private theorem bits_le (width : AtomicWidth) : width.bits ≤ 64 := by
  cases width <;> decide

private theorem extend_eq (width : AtomicWidth) (value : UInt64) :
    width.extend value = widen (low width.bits value) := by
  cases width with
  | word => exact Xlen.canonical_eq .rv32 value
  | double => exact Xlen.canonical_eq .rv64 value

theorem low_extend (width : AtomicWidth) (value : UInt64) :
    low width.bits (width.extend value) = low width.bits value := by
  rw [extend_eq, low_widen_self _ width.bits_le]

theorem canonical_extend {xlen : Xlen} {width : AtomicWidth} (fits : width.bits ≤ xlen.bits)
    (value : UInt64) : xlen.canonical (width.extend value) = widen (low width.bits value) := by
  rw [extend_eq, Xlen.canonical_eq, low_widen _ xlen.bits_le, widen_signExtend _ fits]

private theorem toInt_extend (width : AtomicWidth) (value : UInt64) :
    (width.extend value).toInt64.toInt = (low width.bits value).toInt := by
  rw [extend_eq, toInt_widen _ width.bits_le]

private theorem toNat_unsigned (width : AtomicWidth) (value : UInt64) :
    (width.unsigned value).toNat = (low width.bits value).toNat := by
  rw [toNat_low]
  cases width with
  | word => exact Xlen.toNat_truncate .rv32 value
  | double => exact Xlen.toNat_truncate .rv64 value

end AtomicWidth

/-- An atomic operation on 64-bit values is the one of the architecture on their low bits. The
comparisons look at the low bits alone, in both orders. -/
theorem AmoOp.low_eval (width : AtomicWidth) (old src : UInt64) (op : AmoOp) :
    low width.bits (op.eval width old src) =
      op.value (low width.bits old) (low width.bits src) := by
  have signed (a b : UInt64) : (width.extend a).toInt64 < (width.extend b).toInt64 ↔
      (low width.bits a).toInt < (low width.bits b).toInt := by
    rw [Int64.lt_iff_toInt_lt, width.toInt_extend, width.toInt_extend]
  have unsigned (a b : UInt64) : width.unsigned a < width.unsigned b ↔
      (low width.bits a).toNat < (low width.bits b).toNat := by
    rw [UInt64.lt_iff_toNat_lt, width.toNat_unsigned, width.toNat_unsigned]
  cases op with
  | swap => rfl
  | add => exact low_add _ _ width.bits_le
  | xor => exact low_xor _ _
  | and => exact low_and _ _
  | or => exact low_or _ _
  | min | max =>
    simp only [eval, value, signed]
    exact apply_ite _ _ _ _
  | minu | maxu =>
    simp only [eval, value, unsigned]
    exact apply_ite _ _ _ _

/-! ### Branches -/

theorem BranchOp.holds_widen {n : Nat} (a b : BitVec n) (positive : 0 < n) (inside : n ≤ 64)
    (op : BranchOp) : op.holds (widen a) (widen b) = op.taken a b := by
  cases op with
  | eq => rw [holds, taken, Bool.beq_eq_decide_eq, decide_eq_decide.2 (widen_inj inside)]
  | ne =>
    rw [holds, taken, bne, Bool.beq_eq_decide_eq, decide_eq_decide.2 (widen_inj inside), decide_not]
  | lt =>
    have order : (widen a).toInt64 < (widen b).toInt64 ↔ a.toInt < b.toInt := by
      rw [Int64.lt_iff_toInt_lt, toInt_widen a inside, toInt_widen b inside]
    rw [holds, taken, decide_eq_decide.2 order]
  | ge =>
    have order : (widen b).toInt64 ≤ (widen a).toInt64 ↔ b.toInt ≤ a.toInt := by
      rw [Int64.le_iff_toInt_le, toInt_widen b inside, toInt_widen a inside]
    rw [holds, taken, decide_eq_decide.2 order]
  | ltu => rw [holds, taken, decide_eq_decide.2 (widen_lt positive inside)]
  | geu =>
    have order : widen b ≤ widen a ↔ b.toNat ≤ a.toNat := by
      rw [← UInt64.not_lt, widen_lt positive inside, Nat.not_lt]
    rw [holds, taken, decide_eq_decide.2 order]

end RiscvBoard
