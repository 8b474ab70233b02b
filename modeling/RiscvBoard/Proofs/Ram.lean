import Mathlib.Algebra.Group.Nat.Defs
import RiscvBoard.Ram

/-!
Guest memory byte by byte. A read is determined by its bytes, writing back what was read changes
nothing, and a number whose low byte alone differs from what was read is written by one byte.
-/

set_option autoImplicit false

namespace RiscvBoard.Ram

private theorem set_getElem_self (bytes : ByteArray) (i : Nat) (inside : i < bytes.size) :
    bytes.set i bytes[i] inside = bytes := by
  apply ByteArray.ext
  exact Array.set_getElem_self inside

private theorem getElem_set (bytes : ByteArray) (i j : Nat) (b : UInt8) (hi : i < bytes.size)
    (hj : j < (bytes.set i b hi).size) (hj' : j < bytes.size) :
    (bytes.set i b hi)[j] = if i = j then b else bytes[j] :=
  Array.getElem_set hi hj

@[simp] theorem size_setByteAt (r : Ram) (i : Nat) (b : UInt8) :
    (r.setByteAt i b).size = r.size := by
  unfold setByteAt
  split
  · exact Array.size_set _
  · rfl

theorem byteAt_setByteAt (r : Ram) (i j : Nat) (b : UInt8) :
    (r.setByteAt i b).byteAt j = if i = j ∧ i < r.size then b else r.byteAt j := by
  have same := size_setByteAt r i b
  unfold setByteAt byteAt size at *
  by_cases hi : i < r.bytes.size
  · simp only [hi, dif_pos, and_true] at same ⊢
    by_cases hj : j < r.bytes.size
    · rw [dif_pos (by omega), dif_pos hj, getElem_set _ _ _ _ _ _ hj]
    · rw [dif_neg (by omega), dif_neg hj, if_neg (by omega)]
  · simp [hi]

theorem byteAt_setByteAt_of_ne (r : Ram) {i j : Nat} (b : UInt8) (other : i ≠ j) :
    (r.setByteAt i b).byteAt j = r.byteAt j := by
  rw [byteAt_setByteAt, if_neg (fun h => other h.1)]

@[simp] theorem setByteAt_byteAt (r : Ram) (i : Nat) : r.setByteAt i (r.byteAt i) = r := by
  unfold setByteAt byteAt
  split
  · rw [set_getElem_self]
  · rfl

theorem readAt_congr {r s : Ram} {i n : Nat}
    (same : ∀ j, i ≤ j → j < i + n → s.byteAt j = r.byteAt j) : s.readAt i n = r.readAt i n := by
  induction n generalizing i with
  | zero => rfl
  | succ n ih =>
    rw [readAt, readAt, same i (by omega) (by omega), ih]
    intro j low high
    exact same j (by omega) (by omega)

private theorem readAt_setByteAt (r : Ram) {i j n : Nat} (b : UInt8) (outside : i < j ∨ j + n ≤ i) :
    (r.setByteAt i b).readAt j n = r.readAt j n := by
  apply readAt_congr
  intro k low high
  exact byteAt_setByteAt_of_ne r b (by omega)

theorem toNat_join (b : UInt8) (rest : UInt64) (small : rest.toNat < 2 ^ 56) :
    (b.toUInt64 ||| rest <<< 8).toNat = 256 * rest.toNat + b.toNat := by
  have shifted : (rest <<< 8).toNat = rest.toNat <<< 8 := by
    rw [UInt64.toNat_shiftLeft]
    simp only [Nat.shiftLeft_eq]
    exact Nat.mod_eq_of_lt (by simp; omega)
  have low : b.toNat < 2 ^ 8 := b.toNat_lt
  rw [UInt64.toNat_or, shifted, UInt8.toNat_toUInt64, Nat.or_comm,
    ← Nat.shiftLeft_add_eq_or_of_lt low, Nat.shiftLeft_eq]
  omega

theorem readAt_lt (r : Ram) (i : Nat) {n : Nat} (short : n ≤ 8) :
    (r.readAt i n).toNat < 2 ^ (8 * n) := by
  induction n generalizing i with
  | zero => simp [readAt]
  | succ n ih =>
    have tail := ih (i + 1) (by omega)
    have small : 2 ^ (8 * n) ≤ 2 ^ 56 := Nat.pow_le_pow_right (by decide) (by omega)
    have byte := (r.byteAt i).toNat_lt
    rw [readAt, toNat_join _ _ (by omega), Nat.mul_add, Nat.pow_add]
    omega

theorem toNat_readAt_succ (r : Ram) (i : Nat) {n : Nat} (short : n < 8) :
    (r.readAt i (n + 1)).toNat = 256 * (r.readAt (i + 1) n).toNat + (r.byteAt i).toNat := by
  have tail := r.readAt_lt (i + 1) (n := n) (by omega)
  have small : 2 ^ (8 * n) ≤ 2 ^ 56 := Nat.pow_le_pow_right (by decide) (by omega)
  exact toNat_join _ _ (by omega)

theorem readAt_succ_toUInt8 (r : Ram) (i : Nat) {n : Nat} (short : n < 8) :
    (r.readAt i (n + 1)).toUInt8 = r.byteAt i := by
  have byte := (r.byteAt i).toNat_lt
  apply UInt8.toNat_inj.1
  rw [UInt64.toNat_toUInt8, toNat_readAt_succ r i short]
  omega

private theorem readAt_succ_shiftRight (r : Ram) (i : Nat) {n : Nat} (short : n < 8) :
    r.readAt i (n + 1) >>> 8 = r.readAt (i + 1) n := by
  have byte := (r.byteAt i).toNat_lt
  apply UInt64.toNat_inj.1
  rw [UInt64.toNat_shiftRight, toNat_readAt_succ r i short]
  simp only [UInt64.reduceToNat, Nat.reduceMod, Nat.shiftRight_eq_div_pow]
  omega

private theorem writeAt_readAt (r : Ram) (i : Nat) {n : Nat} (short : n ≤ 8) :
    r.writeAt i n (r.readAt i n) = r := by
  induction n generalizing i with
  | zero => rfl
  | succ n ih =>
    rw [writeAt, readAt_succ_toUInt8 r i (by omega), readAt_succ_shiftRight r i (by omega),
      setByteAt_byteAt]
    exact ih (i + 1) (by omega)

theorem writeAt_eq_setByteAt (r : Ram) (i : Nat) {n : Nat} (value : UInt64) (short : n < 8)
    (upper : value >>> 8 = r.readAt i (n + 1) >>> 8) :
    r.writeAt i (n + 1) value = r.setByteAt i value.toUInt8 := by
  have rest : (r.setByteAt i value.toUInt8).readAt (i + 1) n = value >>> 8 := by
    rw [readAt_setByteAt r _ (by omega), upper, readAt_succ_shiftRight r i short]
  rw [writeAt, ← rest]
  exact writeAt_readAt _ _ (by omega)

theorem readAt_or_first (r s : Ram) (i n : Nat) (bits : UInt8)
    (first : s.byteAt i = r.byteAt i ||| bits)
    (rest : ∀ j, i < j → j < i + (n + 1) → s.byteAt j = r.byteAt j) :
    s.readAt i (n + 1) = r.readAt i (n + 1) ||| bits.toUInt64 := by
  have tail : s.readAt (i + 1) n = r.readAt (i + 1) n :=
    readAt_congr fun j low high => rest j (by omega) (by omega)
  rw [readAt, readAt, first, tail, UInt8.toUInt64_or, UInt64.or_assoc, UInt64.or_assoc,
    UInt64.or_comm bits.toUInt64]

end RiscvBoard.Ram
