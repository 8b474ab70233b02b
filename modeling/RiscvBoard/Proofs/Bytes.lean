/-!
Blocks of bytes that agree except at some positions: what a write leaves alone. Bytes up to the
first zero.
-/

set_option autoImplicit false

namespace RiscvBoard

/-- Two blocks of bytes have the same size, and the same bytes except at the touched positions. -/
structure SameOutside (touched : Nat → Prop) (a b : ByteArray) : Prop where
  size : b.size = a.size
  byte : ∀ i, ¬ touched i → b.data[i]? = a.data[i]?

namespace SameOutside

variable {touched wider : Nat → Prop} {a b c : ByteArray}

theorem refl (touched : Nat → Prop) (a : ByteArray) : SameOutside touched a a :=
  ⟨rfl, fun _ _ => rfl⟩

theorem trans (first : SameOutside touched a b) (second : SameOutside touched b c) :
    SameOutside touched a c where
  size := second.size.trans first.size
  byte i outside := (second.byte i outside).trans (first.byte i outside)

theorem mono (same : SameOutside touched a b) (inside : ∀ i, touched i → wider i) :
    SameOutside wider a b where
  size := same.size
  byte i outside := same.byte i fun hit => outside (inside i hit)

theorem set (a : ByteArray) (i : Nat) (byte : UInt8) (inside : i < a.size) :
    SameOutside (· = i) a (a.set i byte inside) where
  size := Array.size_set inside
  byte j other := by
    rw [ByteArray.data_set, Array.getElem?_set_ne inside (Ne.symm other)]

theorem copySlice {start position n : Nat} (source : start + n ≤ a.size)
    (target : position + n ≤ b.size) :
    SameOutside (fun i => position ≤ i ∧ i < position + n) b
      (a.copySlice start b position n) := by
  have sourceData : start + n ≤ a.data.size := source
  have targetData : position + n ≤ b.data.size := target
  constructor
  · rw [← ByteArray.size_data, ← ByteArray.size_data, ByteArray.copySlice]
    simp only [Array.size_append, Array.size_extract]
    omega
  · intro i outside
    rw [ByteArray.copySlice]
    simp only [Array.getElem?_append, Array.getElem?_extract, Array.size_append,
      Array.size_extract]
    by_cases below : i < position
    · rw [if_pos (by omega), if_pos (by omega), if_pos (by omega), Nat.zero_add]
    · rw [if_neg (by omega)]
      by_cases present : i < b.data.size
      · rw [if_pos (by omega)]
        congr 1
        omega
      · rw [if_neg (by omega), Array.getElem?_eq_none (by omega)]

theorem extract {start stop : Nat} (same : SameOutside touched a b)
    (untouched : ∀ i, start ≤ i → i < stop → ¬ touched i) :
    b.extract start stop = a.extract start stop := by
  have size : b.data.size = a.data.size := same.size
  apply ByteArray.ext
  rw [ByteArray.data_extract, ByteArray.data_extract]
  apply Array.ext_getElem?
  intro i
  rw [Array.getElem?_extract, Array.getElem?_extract, size]
  split
  · exact same.byte _ (untouched _ (by omega) (by omega))
  · rfl

end SameOutside

theorem extract_copySlice {source target : ByteArray} {position : Nat}
    (room : position + source.size ≤ target.size) :
    (source.copySlice 0 target position source.size).extract position (position + source.size) =
      source := by
  have first : (target.extract 0 position).size = position := by
    rw [ByteArray.size_extract]
    omega
  have before : (target.extract 0 position).extract position (position + source.size) = .empty :=
    ByteArray.extract_eq_empty_iff.2 (by omega)
  rw [ByteArray.copySlice_eq_append, Nat.zero_add, ByteArray.extract_zero_size,
    ByteArray.append_assoc, ByteArray.extract_append, first, before, ByteArray.empty_append,
    Nat.sub_self, Nat.add_sub_cancel_left, ByteArray.extract_append_eq_left rfl]

/-! ### Bytes up to a zero -/

section Nonzero

variable {text : List UInt8} (free : 0 ∉ text)

include free

private theorem nonzero_of_mem : ∀ b ∈ text, (b != 0) = true :=
  fun _ found => bne_iff_ne.2 fun zero => free (zero ▸ found)

theorem takeWhile_nonzero (after : List UInt8) :
    (text ++ after).takeWhile (· != 0) = text ++ after.takeWhile (· != 0) :=
  List.takeWhile_append_of_pos (nonzero_of_mem free)

theorem dropWhile_nonzero (after : List UInt8) :
    (text ++ after).dropWhile (· != 0) = after.dropWhile (· != 0) :=
  List.dropWhile_append_of_pos (nonzero_of_mem free)

theorem filter_nonzero : text.filter (· != 0) = text :=
  List.filter_eq_self.2 (nonzero_of_mem free)

theorem takeWhile_terminated (after : List UInt8) :
    (text ++ 0 :: after).takeWhile (· != 0) = text :=
  (takeWhile_nonzero free _).trans (List.append_nil text)

end Nonzero

end RiscvBoard
