import RiscvBoard.Proofs.Bytes
import RiscvBoard.Proofs.Ram

/-!
Stretches of guest memory. A write touches the bytes of its region only, a read depends on the bytes
of its region only, and what was written is read back.
-/

set_option autoImplicit false

namespace RiscvBoard

/-- A stretch of physical addresses. -/
structure Region where
  addr : UInt64
  size : Nat
  deriving DecidableEq

namespace Region

def Covers (g : Region) (i : Nat) : Prop :=
  g.addr.toNat ≤ Ram.base.toNat + i ∧ Ram.base.toNat + i < g.addr.toNat + g.size

instance (g : Region) (i : Nat) : Decidable (g.Covers i) :=
  inferInstanceAs (Decidable (_ ∧ _))

def Apart (g h : Region) : Prop :=
  g.size = 0 ∨ h.size = 0 ∨
    g.addr.toNat + g.size ≤ h.addr.toNat ∨ h.addr.toNat + h.size ≤ g.addr.toNat

instance (g h : Region) : Decidable (g.Apart h) :=
  inferInstanceAs (Decidable (_ ∨ _ ∨ _ ∨ _))

def Within (g h : Region) : Prop :=
  h.addr.toNat ≤ g.addr.toNat ∧ g.addr.toNat + g.size ≤ h.addr.toNat + h.size

theorem Within.apart {g h k : Region} (within : g.Within h) (apart : h.Apart k) : g.Apart k := by
  unfold Within Apart at *
  omega

theorem Within.covers {g h : Region} (within : g.Within h) {i : Nat} (covered : g.Covers i) :
    h.Covers i := by
  unfold Within Covers at *
  omega

theorem Apart.symm {g h : Region} (apart : g.Apart h) : h.Apart g := by
  unfold Apart at *
  omega

theorem Apart.not_covers {g h : Region} (apart : g.Apart h) {i : Nat} (inside : h.Covers i) :
    ¬ g.Covers i := by
  unfold Apart Covers at *
  omega

end Region

theorem Width.toNat_truncate (w : Width) (value : UInt64) :
    (w.truncate value).toNat = value.toNat % 2 ^ (8 * w.bytes) := by
  cases w with
  | byte => exact Nat.and_two_pow_sub_one_eq_mod _ 8
  | half => exact Nat.and_two_pow_sub_one_eq_mod _ 16
  | word => exact Nat.and_two_pow_sub_one_eq_mod _ 32
  | double => exact Nat.and_two_pow_sub_one_eq_mod _ 64

namespace Ram

variable {r s : Ram} {addr : UInt64}

theorem contains_iff_toNat {n : Nat} : r.contains addr n = true ↔
    base.toNat ≤ addr.toNat ∧ addr.toNat + n ≤ base.toNat + r.size := by
  rw [contains, Bool.and_eq_true, decide_eq_true_iff, decide_eq_true_iff, UInt64.le_iff_toNat_le]
  refine and_congr_right fun above => ?_
  rw [offset, UInt64.toNat_sub_of_le _ _ (UInt64.le_iff_toNat_le.2 above)]
  omega

theorem contains_of_within {g h : Region} (within : g.Within h)
    (inside : r.contains h.addr h.size) : r.contains g.addr g.size := by
  rw [contains_iff_toNat] at *
  unfold Region.Within at within
  omega

theorem toNat_eq_offset {n : Nat} (inside : r.contains addr n) :
    addr.toNat = base.toNat + offset addr := by
  obtain ⟨above, -⟩ := contains_iff_toNat.1 inside
  rw [offset, UInt64.toNat_sub_of_le _ _ (UInt64.le_iff_toNat_le.2 above)]
  omega

theorem contains_of_size (same : s.size = r.size) (addr : UInt64) (n : Nat) :
    s.contains addr n = r.contains addr n := by
  rw [contains, contains, same]

theorem byteAt_eq_getD (r : Ram) (i : Nat) : r.byteAt i = (r.bytes.data[i]?).getD 0 := by
  unfold byteAt
  split
  next inside =>
    rw [Array.getElem?_eq_getElem inside]
    rfl
  next outside =>
    rw [Array.getElem?_eq_none (Nat.le_of_not_lt outside)]
    rfl

theorem byteAt_of_sameOutside {touched : Nat → Prop} {i : Nat}
    (same : SameOutside touched r.bytes s.bytes) (untouched : ¬ touched i) :
    s.byteAt i = r.byteAt i := by
  rw [byteAt_eq_getD, byteAt_eq_getD, same.byte i untouched]

/-! ### Writing -/

theorem sameOutside_setByteAt (r : Ram) (i : Nat) (b : UInt8) :
    SameOutside (· = i) r.bytes (r.setByteAt i b).bytes := by
  unfold setByteAt
  split
  · exact .set _ _ _ _
  · exact .refl _ _

theorem sameOutside_writeAt (r : Ram) (i n : Nat) (value : UInt64) :
    SameOutside (fun j => i ≤ j ∧ j < i + n) r.bytes (r.writeAt i n value).bytes := by
  induction n generalizing r i value with
  | zero => exact .refl _ _
  | succ n ih =>
    rw [writeAt]
    refine ((sameOutside_setByteAt r i value.toUInt8).mono ?_).trans ((ih _ _ _).mono ?_)
    · intro j first
      omega
    · intro j rest
      omega

@[simp] theorem size_writeAt (r : Ram) (i n : Nat) (value : UInt64) :
    (r.writeAt i n value).size = r.size :=
  (sameOutside_writeAt r i n value).size

@[simp] theorem contains_write (r : Ram) (addr addr' : UInt64) (w : Width) (value : UInt64)
    (n : Nat) : (r.write addr w value).contains addr' n = r.contains addr' n :=
  contains_of_size (size_writeAt _ _ _ _) _ _

theorem sameOutside_write {w : Width} (inside : r.contains addr w.bytes) (value : UInt64) :
    SameOutside (Region.Covers ⟨addr, w.bytes⟩) r.bytes (r.write addr w value).bytes := by
  have place := toNat_eq_offset inside
  refine (sameOutside_writeAt r _ _ value).mono fun i touched => ?_
  unfold Region.Covers
  dsimp only
  omega

theorem sameOutside_blit {block : ByteArray} (inside : r.contains addr block.size) :
    SameOutside (Region.Covers ⟨addr, block.size⟩) r.bytes (r.blit addr block).bytes := by
  have place := toNat_eq_offset inside
  have bounds := contains_iff_toNat.1 inside
  have room : offset addr + block.size ≤ r.bytes.size := by
    have : r.size = r.bytes.size := rfl
    omega
  refine (SameOutside.copySlice (Nat.le_of_eq (Nat.zero_add _)) room).mono fun i touched => ?_
  unfold Region.Covers
  dsimp only
  omega

/-! ### Reading -/

theorem read_of_sameOutside {touched : Nat → Prop} {w : Width} (inside : r.contains addr w.bytes)
    (same : SameOutside touched r.bytes s.bytes)
    (untouched : ∀ i, Region.Covers ⟨addr, w.bytes⟩ i → ¬ touched i) :
    s.read addr w = r.read addr w := by
  have place := toNat_eq_offset inside
  apply readAt_congr
  intro i low high
  refine byteAt_of_sameOutside same (untouched i ?_)
  unfold Region.Covers
  dsimp only
  omega

theorem contains_of_load {w : Width} {value : UInt64} (loaded : r.load addr w = .ok value) :
    r.contains addr w.bytes := by
  unfold load at loaded
  split at loaded
  · assumption
  · contradiction

theorem load_of_contains {w : Width} (inside : r.contains addr w.bytes) :
    r.load addr w = .ok (r.read addr w) :=
  if_pos inside

theorem load_of_sameOutside {touched : Nat → Prop} {w : Width}
    (same : SameOutside touched r.bytes s.bytes)
    (untouched : ∀ i, Region.Covers ⟨addr, w.bytes⟩ i → ¬ touched i) :
    s.load addr w = r.load addr w := by
  rw [load, load, contains_of_size same.size]
  by_cases inside : r.contains addr w.bytes
  · rw [if_pos inside, if_pos inside, read_of_sameOutside inside same untouched]
  · rw [if_neg inside, if_neg inside]

private theorem readAt_writeAt (r : Ram) (i : Nat) {n : Nat} (value : UInt64) (short : n ≤ 8)
    (inside : i + n ≤ r.size) (small : value.toNat < 2 ^ (8 * n)) :
    (r.writeAt i n value).readAt i n = value := by
  induction n generalizing r i value with
  | zero =>
    have zero : value.toNat = 0 := by simpa using small
    exact (UInt64.toNat_inj.1 zero).symm
  | succ n ih =>
    have rest : (value >>> 8).toNat = value.toNat / 256 := by
      rw [UInt64.toNat_shiftRight]
      simp only [UInt64.reduceToNat, Nat.reduceMod, Nat.shiftRight_eq_div_pow, Nat.reducePow]
    have tail := ih (r.setByteAt i value.toUInt8) (i + 1) (value >>> 8) (by omega)
      (by rw [size_setByteAt]; omega)
      (by rw [rest]; rw [Nat.mul_add, Nat.pow_add] at small; omega)
    have first : (r.writeAt i (n + 1) value).byteAt i = value.toUInt8 := by
      rw [writeAt, byteAt_of_sameOutside (sameOutside_writeAt _ _ _ _) (by omega),
        byteAt_setByteAt, if_pos ⟨rfl, by omega⟩]
    apply UInt64.toNat_inj.1
    rw [toNat_readAt_succ _ _ (by omega), first, writeAt, tail, rest, UInt64.toNat_toUInt8]
    omega

theorem read_write {w : Width} {value : UInt64} (inside : r.contains addr w.bytes)
    (small : value.toNat < 2 ^ (8 * w.bytes)) : (r.write addr w value).read addr w = value := by
  have place := toNat_eq_offset inside
  have bounds := contains_iff_toNat.1 inside
  have short : w.bytes ≤ 8 := by cases w <;> decide
  exact readAt_writeAt r _ value short (by omega) small

theorem read_write_truncate {w : Width} (inside : r.contains addr w.bytes) (value : UInt64) :
    (r.write addr w (w.truncate value)).read addr w = w.truncate value := by
  refine read_write inside ?_
  rw [w.toNat_truncate]
  exact Nat.mod_lt _ (Nat.two_pow_pos _)

end Ram

end RiscvBoard
