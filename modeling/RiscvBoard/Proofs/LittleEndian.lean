import Mathlib.Algebra.BigOperators.Ring.Finset
import RiscvBoard.Proofs.Board.Windows
import RiscvBoard.Proofs.Region

/-!
Numbers in guest memory as their bytes, the low one first: what is read is the number of the bytes,
and what is written is each byte in its place.
-/

set_option autoImplicit false

namespace RiscvBoard

def byteOf (value : UInt64) (i : Nat) : UInt8 :=
  (value >>> (8 * i).toUInt64).toUInt8

private theorem toNat_byteOf (value : UInt64) {i : Nat} (short : i < 8) :
    (byteOf value i).toNat = value.toNat / 256 ^ i % 256 := by
  have place : (8 * i).toUInt64.toNat % 64 = 8 * i := by
    show 8 * i % 2 ^ 64 % 64 = 8 * i
    omega
  rw [byteOf, UInt64.toNat_toUInt8, UInt64.toNat_shiftRight, place, Nat.shiftRight_eq_div_pow,
    Nat.pow_mul]

theorem byteOf_truncate (value : UInt64) {w : Width} {i : Nat} (short : i < w.bytes) :
    byteOf (w.truncate value) i = byteOf value i := by
  have kept : (w.truncate value).toNat = value.toNat % 256 ^ w.bytes := by
    cases w with
    | byte => exact Nat.and_two_pow_sub_one_eq_mod _ 8
    | half => exact Nat.and_two_pow_sub_one_eq_mod _ 16
    | word => exact Nat.and_two_pow_sub_one_eq_mod _ 32
    | double => exact Nat.and_two_pow_sub_one_eq_mod _ 64
  have few := w.bytes_le
  have power : 256 ^ w.bytes = 256 ^ i * (256 * 256 ^ (w.bytes - (i + 1))) := by
    rw [← Nat.pow_succ', ← Nat.pow_add]
    congr 1
    omega
  apply UInt8.toNat_inj.1
  rw [toNat_byteOf _ (by omega), toNat_byteOf _ (by omega), kept, power, Nat.mod_mul_right_div_self,
    Nat.mod_mul_right_mod]

namespace Ram

theorem toNat_readAt (r : Ram) (i : Nat) {n : Nat} (short : n ≤ 8) :
    (r.readAt i n).toNat = ∑ k ∈ Finset.range n, (r.byteAt (i + k)).toNat * 256 ^ k := by
  induction n generalizing i with
  | zero => rfl
  | succ n ih =>
    have shifted (k : Nat) : (r.byteAt (i + (k + 1))).toNat * 256 ^ (k + 1) =
        256 * ((r.byteAt (i + 1 + k)).toNat * 256 ^ k) := by
      rw [Nat.add_right_comm i 1 k, Nat.pow_succ', Nat.mul_left_comm]
      rfl
    rw [toNat_readAt_succ r i (by omega), ih (i + 1) (by omega), Finset.sum_range_succ',
      Finset.mul_sum]
    simp [shifted]

theorem byteAt_writeAt (r : Ram) (i : Nat) {n k : Nat} (value : UInt64) (short : n ≤ 8)
    (inside : i + n ≤ r.size) (low : k < n) :
    (r.writeAt i n value).byteAt (i + k) = byteOf value k := by
  induction n generalizing r i value k with
  | zero => contradiction
  | succ n ih =>
    rw [writeAt]
    cases k with
    | zero =>
      rw [byteAt_of_sameOutside (sameOutside_writeAt _ _ _ _) (by omega), byteAt_setByteAt,
        if_pos ⟨rfl, by omega⟩]
      simp [byteOf]
    | succ k =>
      have rest := ih (r.setByteAt i value.toUInt8) (i + 1) (value >>> 8) (by omega)
        (by rw [size_setByteAt]; omega) (Nat.lt_of_succ_lt_succ low)
      rw [Nat.add_right_comm, Nat.add_assoc] at rest
      rw [rest]
      apply UInt8.toNat_inj.1
      rw [toNat_byteOf _ (by omega), toNat_byteOf _ (by omega), UInt64.toNat_shiftRight,
        Nat.shiftRight_eq_div_pow, Nat.pow_succ', ← Nat.div_div_eq_div_mul]
      rfl

theorem contains_of_bytes {r : Ram} {addr : UInt64} {n : Nat} (some : 0 < n) (few : n ≤ 8)
    (bytes : ∀ i < n, r.contains (addr + i.toUInt64) 1) :
    r.contains addr n ∧ ∀ i < n, offset (addr + i.toUInt64) = offset addr + i := by
  have sum (i : Nat) (short : i < n) : (addr + i.toUInt64).toNat = addr.toNat + i := by
    have small : i.toUInt64.toNat = i := by
      show i % 2 ^ 64 = i
      omega
    have base : base.toNat = 0x80000000 := rfl
    have bound := addr.toNat_lt
    have above := (contains_iff_toNat.1 (bytes i short)).1
    rw [UInt64.toNat_add, small] at above ⊢
    omega
  have whole : r.contains addr n := by
    have first := contains_iff_toNat.1 (bytes 0 some)
    have last := contains_iff_toNat.1 (bytes (n - 1) (by omega))
    rw [sum _ (by omega)] at first last
    rw [contains_iff_toNat]
    omega
  refine ⟨whole, fun i short => ?_⟩
  have start := toNat_eq_offset whole
  have place := toNat_eq_offset (bytes i short)
  rw [sum i short] at place
  omega

end Ram

end RiscvBoard
