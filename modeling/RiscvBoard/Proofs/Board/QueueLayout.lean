import RiscvBoard.Board.VirtioBlock
import RiscvBoard.Proofs.Region

/-!
The parts of the request queue as stretches of memory. A page number times a page size stays so far
below the end of the address space that no address of the queue wraps around, whatever the driver
sets up; the parts lie one after the other, and different places in a ring are apart.
-/

set_option autoImplicit false

namespace RiscvBoard.VirtioBlock

variable {d : VirtioBlock}

/-! ### The parts -/

def descriptorTable (d : VirtioBlock) : Region :=
  ⟨d.queueBase, 16 * d.queueNum.toNat⟩

def availRing (d : VirtioBlock) : Region :=
  ⟨d.availBase, 4 + 2 * d.queueNum.toNat⟩

def usedRing (d : VirtioBlock) : Region :=
  ⟨d.usedBase, 4 + 8 * d.queueNum.toNat⟩

def queueAreas (d : VirtioBlock) : List Region :=
  [d.descriptorTable, d.availRing, d.usedRing]

def usedIndexField (d : VirtioBlock) : Region :=
  ⟨d.usedBase + 2, 2⟩

def usedEntry (d : VirtioBlock) (index : UInt16) : Region :=
  ⟨d.usedSlot index, 8⟩

theorem headWord_within (d : VirtioBlock) (index : UInt16) :
    Region.Within ⟨d.usedSlot index, 4⟩ (d.usedEntry index) := by
  unfold Region.Within
  dsimp only [usedEntry]
  omega

def descriptor (d : VirtioBlock) (index : UInt16) : Region :=
  ⟨d.descriptorAddr index, 16⟩

/-! ### Addresses as numbers -/

def roundUp (n align : Nat) : Nat :=
  (n + align - 1) / align * align

private theorem roundUp_bounds (n : Nat) {align : Nat} (positive : 0 < align) :
    n ≤ roundUp n align ∧ roundUp n align < n + align := by
  have division := Nat.div_add_mod (n + align - 1) align
  have remainder := Nat.mod_lt (n + align - 1) positive
  rw [Nat.mul_comm] at division
  unfold roundUp
  omega

private theorem quotient_mul_eq_roundUp (n : Nat) {align : Nat} (positive : 0 < align) :
    (if n % align = 0 then n / align else n / align + 1) * align = roundUp n align := by
  have division := Nat.div_add_mod n align
  have remainder := Nat.mod_lt n positive
  unfold roundUp
  congr 1
  symm
  split
  next whole =>
    rw [Nat.div_eq_iff positive, Nat.mul_comm]
    omega
  next rest =>
    rw [Nat.div_eq_iff positive, Nat.add_mul, Nat.one_mul, Nat.mul_comm]
    omega

theorem toNat_queueBase (d : VirtioBlock) :
    d.queueBase.toNat = d.queuePage.toNat * d.guestPageSize.toNat ∧
      d.queueBase.toNat ≤ (2 ^ 32 - 1) * (2 ^ 32 - 1) := by
  have page := d.queuePage.toNat_lt
  have size := d.guestPageSize.toNat_lt
  have product : d.queuePage.toNat * d.guestPageSize.toNat ≤ (2 ^ 32 - 1) * (2 ^ 32 - 1) :=
    Nat.mul_le_mul (by omega) (by omega)
  have exact : d.queueBase.toNat = d.queuePage.toNat * d.guestPageSize.toNat := by
    rw [queueBase, UInt64.toNat_mul, UInt32.toNat_toUInt64, UInt32.toNat_toUInt64]
    exact Nat.mod_eq_of_lt (by omega)
  exact ⟨exact, exact ▸ product⟩

theorem toNat_descriptorAddr (d : VirtioBlock) (index : UInt16) :
    (d.descriptorAddr index).toNat = d.queueBase.toNat + 16 * index.toNat := by
  have base := (toNat_queueBase d).2
  have place := index.toNat_lt
  rw [descriptorAddr, UInt64.toNat_add, UInt64.toNat_mul, UInt16.toNat_toUInt64]
  simp only [UInt64.reduceToNat]
  omega

theorem toNat_alignment (d : VirtioBlock) :
    (max d.queueAlign.toUInt64 1).toNat = max d.queueAlign.toNat 1 := by
  have choice : max d.queueAlign.toUInt64 1 =
      if d.queueAlign.toUInt64 ≤ 1 then 1 else d.queueAlign.toUInt64 := rfl
  rw [choice, apply_ite UInt64.toNat]
  simp only [UInt64.le_iff_toNat_le, UInt32.toNat_toUInt64, UInt64.reduceToNat]
  split <;> omega

theorem descriptor_within {index : UInt16} (listed : index.toNat < d.queueNum.toNat) :
    (d.descriptor index).Within d.descriptorTable := by
  have place := toNat_descriptorAddr d index
  unfold Region.Within
  dsimp only [descriptor, descriptorTable]
  omega

theorem descriptorField_within (d : VirtioBlock) (index : UInt16) {place : UInt64} {n : Nat}
    (short : place.toNat + n ≤ 16) :
    Region.Within ⟨d.descriptorAddr index + place, n⟩ (d.descriptor index) := by
  have base := (toNat_queueBase d).2
  have start := toNat_descriptorAddr d index
  have bound := index.toNat_lt
  unfold Region.Within
  dsimp only [descriptor]
  rw [UInt64.toNat_add]
  omega

section Bounded

variable (few : d.queueNum ≤ queueNumMax)
include few

theorem toNat_queueNum_le : d.queueNum.toNat ≤ 0x2000 :=
  UInt32.le_iff_toNat_le.1 few

theorem toNat_place (index : UInt16) :
    (index % d.queueNum.toUInt16).toNat = index.toNat % d.queueNum.toNat := by
  have bound := toNat_queueNum_le few
  rw [UInt16.toNat_mod, UInt32.toNat_toUInt16]
  congr 1
  omega

theorem toNat_availBase : d.availBase.toNat = d.queueBase.toNat + 16 * d.queueNum.toNat := by
  have base := (toNat_queueBase d).2
  have bound := toNat_queueNum_le few
  rw [availBase, UInt64.toNat_add, UInt64.toNat_mul, UInt32.toNat_toUInt64]
  simp only [UInt64.reduceToNat]
  omega

theorem toNat_availEnd : d.availEnd.toNat = d.availBase.toNat + 4 + 2 * d.queueNum.toNat := by
  have base := (toNat_queueBase d).2
  have bound := toNat_queueNum_le few
  have avail := toNat_availBase few
  rw [availEnd, UInt64.toNat_add, UInt64.toNat_add, UInt64.toNat_mul, UInt32.toNat_toUInt64]
  simp only [UInt64.reduceToNat]
  omega

theorem toNat_availSlot (index : UInt16) :
    (d.availSlot index).toNat =
      d.availBase.toNat + 4 + 2 * (index.toNat % d.queueNum.toNat) := by
  have base := (toNat_queueBase d).2
  have bound := toNat_queueNum_le few
  have avail := toNat_availBase few
  have place := toNat_place few index
  have small := (index % d.queueNum.toUInt16).toNat_lt
  rw [availSlot, UInt64.toNat_add, UInt64.toNat_add, UInt64.toNat_mul, UInt16.toNat_toUInt64]
  simp only [UInt64.reduceToNat]
  omega

/-- The used ring begins at the first multiple of the alignment after the available ring. -/
theorem toNat_usedBase :
    d.usedBase.toNat = roundUp d.availEnd.toNat (max d.queueAlign.toNat 1) := by
  have base := (toNat_queueBase d).2
  have bound := toNat_queueNum_le few
  have avail := toNat_availBase few
  have last := toNat_availEnd few
  have align := d.queueAlign.toNat_lt
  have positive : 0 < max d.queueAlign.toNat 1 := by omega
  have room := roundUp_bounds d.availEnd.toNat positive
  have quotient := quotient_mul_eq_roundUp d.availEnd.toNat positive
  rw [usedBase, UInt64.toNat_mul, apply_ite UInt64.toNat]
  simp only [← UInt64.toNat_inj, UInt64.toNat_add, UInt64.toNat_div, UInt64.toNat_mod,
    toNat_alignment, UInt64.reduceToNat]
  have fits : d.availEnd.toNat / max d.queueAlign.toNat 1 + 1 < 2 ^ 64 := by
    have := Nat.div_le_self d.availEnd.toNat (max d.queueAlign.toNat 1)
    omega
  rw [Nat.mod_eq_of_lt fits, quotient]
  exact Nat.mod_eq_of_lt (by omega)

theorem usedBase_bounds :
    d.availEnd.toNat ≤ d.usedBase.toNat ∧ d.usedBase.toNat + 2 ^ 31 ≤ 2 ^ 64 := by
  have base := (toNat_queueBase d).2
  have bound := toNat_queueNum_le few
  have avail := toNat_availBase few
  have last := toNat_availEnd few
  have align := d.queueAlign.toNat_lt
  have positive : 0 < max d.queueAlign.toNat 1 := by omega
  have room := roundUp_bounds d.availEnd.toNat positive
  rw [toNat_usedBase few]
  omega

theorem toNat_usedSlot (index : UInt16) :
    (d.usedSlot index).toNat = d.usedBase.toNat + 4 + 8 * (index.toNat % d.queueNum.toNat) := by
  have room := (usedBase_bounds few).2
  have place := toNat_place few index
  have small := (index % d.queueNum.toUInt16).toNat_lt
  rw [usedSlot, UInt64.toNat_add, UInt64.toNat_add, UInt64.toNat_mul, UInt16.toNat_toUInt64]
  simp only [UInt64.reduceToNat]
  omega

theorem toNat_usedSlot_length (index : UInt16) :
    (d.usedSlot index + 4).toNat = (d.usedSlot index).toNat + 4 := by
  have room := (usedBase_bounds few).2
  have place := toNat_place few index
  have small := (index % d.queueNum.toUInt16).toNat_lt
  rw [UInt64.toNat_add, toNat_usedSlot few]
  simp only [UInt64.reduceToNat]
  omega

theorem toNat_usedIndexField : d.usedIndexField.addr.toNat = d.usedBase.toNat + 2 := by
  have room := (usedBase_bounds few).2
  rw [usedIndexField, UInt64.toNat_add]
  simp only [UInt64.reduceToNat]
  omega

/-! ### How the parts lie -/

theorem descriptorTable_apart_usedRing : d.descriptorTable.Apart d.usedRing := by
  have avail := toNat_availBase few
  have last := toNat_availEnd few
  have used := (usedBase_bounds few).1
  unfold Region.Apart descriptorTable usedRing
  dsimp only
  omega

theorem availRing_apart_usedRing : d.availRing.Apart d.usedRing := by
  have last := toNat_availEnd few
  have used := (usedBase_bounds few).1
  unfold Region.Apart availRing usedRing
  dsimp only
  omega

theorem availIndex_within : Region.Within ⟨d.availBase + 2, 2⟩ d.availRing := by
  have base := (toNat_queueBase d).2
  have bound := toNat_queueNum_le few
  have avail := toNat_availBase few
  unfold Region.Within availRing
  dsimp only
  rw [UInt64.toNat_add]
  simp only [UInt64.reduceToNat]
  omega

theorem usedIndexField_within : d.usedIndexField.Within d.usedRing := by
  have field := toNat_usedIndexField few
  unfold Region.Within
  rw [field]
  dsimp only [usedIndexField, usedRing]
  omega

theorem usedIndexField_apart_usedEntry (index : UInt16) :
    d.usedIndexField.Apart (d.usedEntry index) := by
  have field := toNat_usedIndexField few
  have slot := toNat_usedSlot few index
  unfold Region.Apart
  rw [field]
  dsimp only [usedIndexField, usedEntry]
  omega

theorem lengthWord_within (index : UInt16) :
    Region.Within ⟨d.usedSlot index + 4, 4⟩ (d.usedEntry index) := by
  have second := toNat_usedSlot_length few index
  unfold Region.Within
  dsimp only [usedEntry]
  omega

theorem contains_usedEntry {r : Ram} {index : UInt16} :
    r.contains (d.usedEntry index).addr (d.usedEntry index).size ↔
      r.contains (d.usedSlot index) 4 ∧ r.contains (d.usedSlot index + 4) 4 := by
  have second := toNat_usedSlot_length few index
  simp only [Ram.contains_iff_toNat, usedEntry]
  omega

theorem headWord_apart_lengthWord (index : UInt16) :
    Region.Apart ⟨d.usedSlot index, 4⟩ ⟨d.usedSlot index + 4, 4⟩ := by
  have second := toNat_usedSlot_length few index
  unfold Region.Apart
  dsimp only
  omega

theorem usedEntry_apart {i j : UInt16}
    (other : i.toNat % d.queueNum.toNat ≠ j.toNat % d.queueNum.toNat) :
    (d.usedEntry i).Apart (d.usedEntry j) := by
  have first := toNat_usedSlot few i
  have second := toNat_usedSlot few j
  unfold Region.Apart
  dsimp only [usedEntry]
  omega

section Configured

variable (configured : 0 < d.queueNum.toNat)
include configured

theorem availSlot_within (index : UInt16) : Region.Within ⟨d.availSlot index, 2⟩ d.availRing := by
  have slot := toNat_availSlot few index
  have place := Nat.mod_lt index.toNat configured
  unfold Region.Within availRing
  dsimp only
  omega

theorem usedEntry_within (index : UInt16) : (d.usedEntry index).Within d.usedRing := by
  have slot := toNat_usedSlot few index
  have place := Nat.mod_lt index.toNat configured
  unfold Region.Within
  dsimp only [usedEntry, usedRing]
  omega

end Configured

end Bounded

end RiscvBoard.VirtioBlock
