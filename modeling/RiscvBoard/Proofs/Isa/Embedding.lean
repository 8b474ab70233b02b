import RiscvBoard.Isa.Arithmetic
import RiscvBoard.Proofs.Bits
import RiscvBoard.Proofs.Isa.Architecture

/-!
The architecture inside 64-bit registers. A value of the register width is kept sign-extended, and
its low bits give it back. Addition, multiplication and the bitwise operations commute with taking
low bits; comparisons, divisions and high products need the sign-extended form.
-/

set_option autoImplicit false

namespace RiscvBoard

open Instr (widen)

/-! ### Low bits -/

def low (n : Nat) (value : UInt64) : BitVec n :=
  value.toBitVec.setWidth n

section Low

variable {n : Nat}

private theorem setWidth_signExtend {k m : Nat} (x : BitVec k) (inside : n ≤ m) :
    (x.signExtend m).setWidth n = x.signExtend n := by
  ext i short
  have wide : i < m := by omega
  simp [BitVec.getElem_signExtend, wide]

theorem setWidth_ofInt {m : Nat} (z : Int) (inside : n ≤ m) :
    (BitVec.ofInt m z).setWidth n = BitVec.ofInt n z := by
  rw [← BitVec.signExtend_eq_setWidth_of_le _ inside]
  apply BitVec.eq_of_toInt_eq
  rw [BitVec.toInt_signExtend, BitVec.toInt_ofInt, BitVec.toInt_ofInt, Nat.min_eq_left inside]
  exact Int.bmod_bmod_of_dvd (Nat.pow_dvd_pow 2 inside)

theorem low_widen {k : Nat} (x : BitVec k) (inside : n ≤ 64) : low n (widen x) = x.signExtend n :=
  setWidth_signExtend x inside

theorem low_widen_self (x : BitVec n) (inside : n ≤ 64) : low n (widen x) = x := by
  rw [low_widen x inside, BitVec.signExtend_eq]

theorem toNat_low (value : UInt64) : (low n value).toNat = value.toNat % 2 ^ n := by
  rw [low, BitVec.toNat_setWidth]
  rfl

theorem low_eq_ofNat (value : UInt64) : low n value = BitVec.ofNat n value.toNat := by
  apply BitVec.eq_of_toNat_eq
  rw [toNat_low, BitVec.toNat_ofNat]

theorem low_add (a b : UInt64) (inside : n ≤ 64) : low n (a + b) = low n a + low n b := by
  rw [low, UInt64.toBitVec_add, BitVec.setWidth_add _ _ inside]
  rfl

theorem low_sub (a b : UInt64) (inside : n ≤ 64) : low n (a - b) = low n a - low n b := by
  rw [low, UInt64.toBitVec_sub, BitVec.sub_eq_add_neg, BitVec.setWidth_add _ _ inside,
    BitVec.setWidth_neg_of_le inside, ← BitVec.sub_eq_add_neg]
  rfl

theorem low_mul (a b : UInt64) (inside : n ≤ 64) : low n (a * b) = low n a * low n b := by
  rw [low, UInt64.toBitVec_mul, BitVec.setWidth_mul _ _ inside]
  rfl

theorem low_and (a b : UInt64) : low n (a &&& b) = low n a &&& low n b := by
  rw [low, UInt64.toBitVec_and, BitVec.setWidth_and]
  rfl

theorem low_or (a b : UInt64) : low n (a ||| b) = low n a ||| low n b := by
  rw [low, UInt64.toBitVec_or, BitVec.setWidth_or]
  rfl

theorem low_xor (a b : UInt64) : low n (a ^^^ b) = low n a ^^^ low n b := by
  rw [low, UInt64.toBitVec_xor, BitVec.setWidth_xor]
  rfl

theorem low_ofInt (z : Int) (inside : n ≤ 64) : low n (UInt64.ofInt z) = BitVec.ofInt n z := by
  have whole : (UInt64.ofInt z).toBitVec = BitVec.ofInt 64 z := by
    have reduced := Int.emod_lt_of_pos z (show (0 : Int) < 2 ^ 64 by decide)
    apply BitVec.eq_of_toNat_eq
    simpa [UInt64.ofInt] using reduced
  rw [low, whole, setWidth_ofInt z inside]

theorem low_ofNat (k : Nat) (inside : n ≤ 64) : low n (UInt64.ofNat k) = BitVec.ofNat n k := by
  have divides : 2 ^ n ∣ 2 ^ 64 := Nat.pow_dvd_pow 2 inside
  apply BitVec.eq_of_toNat_eq
  rw [toNat_low, UInt64.toNat_ofNat', BitVec.toNat_ofNat, Nat.mod_mod_of_dvd _ divides]

theorem low_ones (inside : n ≤ 64) : low n 0xffffffffffffffff = BitVec.allOnes n := by
  rw [low, show (0xffffffffffffffff : UInt64).toBitVec = BitVec.allOnes 64 from rfl]
  ext i short
  have wide : i < 64 := by omega
  rw [BitVec.getElem_setWidth, BitVec.getLsbD_allOnes, BitVec.getElem_allOnes]
  exact decide_eq_true wide

theorem low_flag (holds : Bool) : low n (flag holds) = truth holds := by
  cases holds with
  | false => simp [flag, truth, low]
  | true =>
    apply BitVec.eq_of_toNat_eq
    simp [flag, truth, low]

end Low

/-! ### Sign-extended values -/

section Widen

variable {n : Nat}

theorem toInt_widen (x : BitVec n) (inside : n ≤ 64) : (widen x).toInt64.toInt = x.toInt :=
  BitVec.toInt_signExtend_of_le inside

theorem widen_signExtend {k : Nat} (x : BitVec k) (wider : k ≤ n) :
    widen (x.signExtend n) = widen x := by
  apply UInt64.toBitVec_inj.1
  rw [widen, widen, BitVec.signExtend, BitVec.toInt_signExtend_of_le wider]
  rfl

theorem widen_inj {x y : BitVec n} (inside : n ≤ 64) : widen x = widen y ↔ x = y := by
  constructor
  · intro same
    rw [← low_widen_self x inside, same, low_widen_self y inside]
  · intro same
    rw [same]

theorem widen_eq_zero {x : BitVec n} (inside : n ≤ 64) : widen x = 0 ↔ x = 0#n := by
  have zero : widen (0#n) = 0 := by
    apply UInt64.toBitVec_inj.1
    simp [widen, BitVec.signExtend]
  rw [← zero, widen_inj inside]

theorem widen_lt {x y : BitVec n} (positive : 0 < n) (inside : n ≤ 64) :
    widen x < widen y ↔ x.toNat < y.toNat := by
  have half : 2 ^ n = 2 * 2 ^ (n - 1) := by
    rw [← Nat.pow_succ', Nat.succ_eq_add_one, Nat.sub_add_cancel positive]
  have whole : 2 ^ n ≤ 2 ^ 64 := Nat.pow_le_pow_right (by decide) inside
  have extended (z : BitVec n) :
      (widen z).toNat = z.toNat + if 2 ^ (n - 1) ≤ z.toNat then 2 ^ 64 - 2 ^ n else 0 := by
    have below : z.toNat < 2 ^ 64 := by omega
    show (z.signExtend 64).toNat = _
    rw [BitVec.toNat_signExtend, BitVec.toNat_setWidth, Nat.mod_eq_of_lt below,
      BitVec.msb_eq_decide]
    simp
  have x_small := x.isLt
  have y_small := y.isLt
  rw [UInt64.lt_iff_toNat_lt, extended, extended]
  split <;> split <;> omega

end Widen

/-! ### Shifts -/

section Shift

variable {n : Nat}

theorem low_shiftLeft (a k : UInt64) (inside : n ≤ 64) (short : k.toNat < 64) :
    low n (a <<< k) = low n a <<< k.toNat := by
  have amount : (k.toBitVec % 64).toNat = k.toNat := Nat.mod_eq_of_lt short
  rw [low, UInt64.toBitVec_shiftLeft, BitVec.shiftLeft_eq', amount,
    BitVec.setWidth_shiftLeft_of_le inside]
  rfl

theorem smod_of_lt {w : Nat} {k m : BitVec w} (below : k.toNat < m.toNat)
    (positive : m.msb = false) : k.smod m = k := by
  have small : k.msb = false := by
    rw [BitVec.msb_eq_false_iff_two_mul_lt] at positive ⊢
    omega
  rw [BitVec.smod_eq, small, positive]
  exact BitVec.eq_of_toNat_eq (Nat.mod_eq_of_lt below)

theorem low_shiftRight_signed (x : BitVec n) (k : UInt64) (inside : n ≤ 64)
    (short : k.toNat < 64) :
    low n ((widen x).toInt64 >>> k.toInt64).toUInt64 = x.sshiftRight k.toNat := by
  have amount : k.toBitVec.smod 64 = k.toBitVec := smod_of_lt short (by decide)
  have shifted : ((widen x).toInt64 >>> k.toInt64).toBitVec =
      BitVec.ofInt 64 (x.toInt >>> k.toNat) := by
    rw [Int64.toBitVec_shiftRight, BitVec.sshiftRight_eq', UInt64.toBitVec_toInt64,
      UInt64.toBitVec_toInt64, amount, BitVec.sshiftRight, widen,
      BitVec.toInt_signExtend_of_le inside]
    rfl
  rw [low, Int64.toBitVec_toUInt64, shifted, setWidth_ofInt _ inside]
  rfl

end Shift

/-! ### Products -/

section Product

variable {n : Nat}

theorem upperHalf_ofInt (z : Int) :
    upperHalf (BitVec.ofInt (2 * n) z) = BitVec.ofInt n (z >>> n) := by
  have positive : (0 : Int) < 2 ^ n := Int.pow_pos (by decide)
  have square : (2 : Int) ^ (2 * n) = 2 ^ n * 2 ^ n := by
    rw [Nat.two_mul, Int.pow_add]
  have split : z / 2 ^ n = z % 2 ^ (2 * n) / 2 ^ n + 2 ^ n * (z / 2 ^ (2 * n)) := by
    have parts := Int.emod_add_mul_ediv z (2 ^ (2 * n))
    rw [← Int.add_mul_ediv_left _ _ (Int.ne_of_gt positive), ← Int.mul_assoc, ← square, parts]
  have wide : (2 : Int) ^ (2 * n) ≠ 0 := Int.ne_of_gt (Int.pow_pos (by decide))
  have known : ((z % 2 ^ (2 * n)).toNat : Int) = z % 2 ^ (2 * n) :=
    Int.toNat_of_nonneg (Int.emod_nonneg _ wide)
  have upper : (((z % 2 ^ (2 * n)).toNat / 2 ^ n % 2 ^ n : Nat) : Int) = z / 2 ^ n % 2 ^ n := by
    push_cast
    rw [known, split, Int.add_mul_emod_self_left]
  apply BitVec.eq_of_toNat_eq
  rw [upperHalf, BitVec.extractLsb'_toNat, BitVec.toNat_ofInt, BitVec.toNat_ofInt,
    Int.shiftRight_eq_div_pow, Nat.shiftRight_eq_div_pow]
  push_cast
  rw [← upper, Int.toNat_natCast]

theorem upperHalf_ofNat (k : Nat) :
    upperHalf (BitVec.ofNat (2 * n) k) = BitVec.ofNat n (k >>> n) := by
  have shifted : (k : Int) >>> n = ((k >>> n : Nat) : Int) := rfl
  rw [← BitVec.ofInt_natCast, upperHalf_ofInt, shifted, BitVec.ofInt_natCast]

end Product

/-! ### Registers in canonical form -/

namespace Xlen

theorem bits_le (xlen : Xlen) : xlen.bits ≤ 64 := by
  cases xlen <;> decide

theorem bits_pos (xlen : Xlen) : 0 < xlen.bits := by
  cases xlen <;> decide

theorem toNat_truncate_widen (xlen : Xlen) (x : BitVec xlen.bits) :
    (xlen.truncate (widen x)).toNat = x.toNat := by
  rw [toNat_truncate, ← toNat_low, low_widen_self x xlen.bits_le]

theorem truncate_widen_eq_zero {xlen : Xlen} {x : BitVec xlen.bits} :
    xlen.truncate (widen x) = 0 ↔ x = 0#(xlen.bits) := by
  rw [← UInt64.toNat_inj, toNat_truncate_widen, BitVec.toNat_eq]
  rfl

theorem toNat_and_shiftMask (xlen : Xlen) (value : UInt64) :
    (value &&& xlen.shiftMask).toNat = shiftAmount (low xlen.bits value) := by
  rw [shiftAmount, toNat_low]
  cases xlen with
  | rv32 =>
    have masked : (value &&& 31).toNat = value.toNat % 32 := Nat.and_two_pow_sub_one_eq_mod _ 5
    rw [shiftMask, masked]
    exact (Nat.mod_mod_of_dvd _ (by decide)).symm
  | rv64 =>
    have masked : (value &&& 63).toNat = value.toNat % 64 := Nat.and_two_pow_sub_one_eq_mod _ 6
    rw [shiftMask, masked]
    exact (Nat.mod_mod_of_dvd _ (by decide)).symm

theorem shiftAmount_lt {xlen : Xlen} (b : BitVec xlen.bits) : shiftAmount b < 64 := by
  have small : 2 ^ xlen.bits.log2 ≤ 64 := by cases xlen <;> decide
  have below := Nat.mod_lt b.toNat (show 0 < 2 ^ xlen.bits.log2 from Nat.two_pow_pos _)
  rw [shiftAmount]
  omega

theorem low_truncate_shiftRight (xlen : Xlen) (a k : UInt64) (short : k.toNat < 64) :
    low xlen.bits (xlen.truncate a >>> k) = low xlen.bits a >>> k.toNat := by
  have small := (low xlen.bits a).isLt
  have shrinks := Nat.shiftRight_le (low xlen.bits a).toNat k.toNat
  apply BitVec.eq_of_toNat_eq
  rw [toNat_low, UInt64.toNat_shiftRight, Nat.mod_eq_of_lt short, toNat_truncate, ← toNat_low,
    BitVec.toNat_ushiftRight]
  exact Nat.mod_eq_of_lt (by omega)

theorem canonical_eq (xlen : Xlen) (value : UInt64) :
    xlen.canonical value = widen (low xlen.bits value) := by
  cases xlen with
  | rv32 => rfl
  | rv64 =>
    apply UInt64.toBitVec_inj.1
    simp [canonical, widen, low, bits]

end Xlen

end RiscvBoard
