import Mathlib.Data.Nat.Bitwise
import RiscvBoard.Csr.Rules

/-!
Words as sets of bits. A word lies within a mask when it has no bit outside of it, and two words
agree outside a mask when they differ in no other bit. Both notions are closed under the operations
by which control registers change.
-/

set_option autoImplicit false

namespace RiscvBoard

theorem and_or_distrib_right (a b c : UInt64) : (a ||| b) &&& c = (a &&& c) ||| (b &&& c) := by
  rw [← UInt64.toBitVec_inj]
  simp only [UInt64.toBitVec_and, UInt64.toBitVec_or]
  ext i inside
  simp [Bool.and_or_distrib_right]

theorem or_eq_of_and_eq {word bits : UInt64} (set : word &&& bits = bits) :
    word ||| bits = word := by
  rw [← UInt64.toBitVec_inj] at set ⊢
  ext i _
  have bit := congrArg (fun x : BitVec 64 => x.getLsbD i) set
  simp at bit ⊢
  grind

theorem not_and_of_disjoint {mask keep : UInt64} (disjoint : mask &&& keep = 0) :
    ~~~mask &&& keep = keep := by
  rw [← UInt64.toBitVec_inj] at disjoint ⊢
  ext i _
  have bit := congrArg (fun x : BitVec 64 => x.getLsbD i) disjoint
  simp at bit ⊢
  grind

/-- All bits of a word lie under a mask. -/
def Within (mask word : UInt64) : Prop :=
  word &&& ~~~mask = 0

instance (mask word : UInt64) : Decidable (Within mask word) :=
  inferInstanceAs (Decidable (_ = _))

namespace Within

variable {mask a b : UInt64}

theorem and_eq (inside : Within mask a) : a &&& mask = a := by
  unfold Within at inside
  rw [← UInt64.toBitVec_inj] at inside ⊢
  ext i _
  have bit := congrArg (fun x : BitVec 64 => x.getLsbD i) inside
  simp at bit ⊢
  grind

theorem of_and_eq (same : a &&& mask = a) : Within mask a := by
  rw [Within, ← same, UInt64.and_assoc, UInt64.and_not_self, UInt64.and_zero]

theorem and_mask (mask a : UInt64) : Within mask (a &&& mask) := by
  rw [Within, UInt64.and_assoc, UInt64.and_not_self, UInt64.and_zero]

theorem refl (mask : UInt64) : Within mask mask := UInt64.and_not_self

theorem zero (mask : UInt64) : Within mask 0 := UInt64.zero_and

theorem or (first : Within mask a) (second : Within mask b) : Within mask (a ||| b) := by
  unfold Within at first second ⊢
  rw [and_or_distrib_right, first, second, UInt64.or_self]

theorem and_left (inside : Within mask a) (b : UInt64) : Within mask (a &&& b) := by
  apply of_and_eq
  rw [UInt64.and_assoc, UInt64.and_comm b, ← UInt64.and_assoc, inside.and_eq]

theorem and_right (inside : Within mask b) (a : UInt64) : Within mask (a &&& b) := by
  rw [UInt64.and_comm]
  exact inside.and_left a

theorem and_eq_zero (inside : Within mask a) (disjoint : mask &&& b = 0) : a &&& b = 0 := by
  rw [← inside.and_eq, UInt64.and_assoc, disjoint, UInt64.and_zero]

theorem mono (inside : Within mask a) (wider : Within b mask) : Within b a :=
  inside.and_eq_zero wider

theorem or_and (inside : Within mask b) {keep : UInt64} (disjoint : mask &&& keep = 0) :
    (a ||| b) &&& keep = a &&& keep := by
  rw [and_or_distrib_right, inside.and_eq_zero disjoint, UInt64.or_zero]

theorem merge (inside : Within mask a) {field : UInt64} (part : Within mask field)
    (value : UInt64) : Within mask (CsrFile.merge field a value) :=
  (inside.and_left _).or (part.and_right _)

end Within

/-- Two words differ at most in the bits of a mask. -/
def AgreeOutside (mask a b : UInt64) : Prop :=
  a &&& ~~~mask = b &&& ~~~mask

instance (mask a b : UInt64) : Decidable (AgreeOutside mask a b) :=
  inferInstanceAs (Decidable (_ = _))

namespace AgreeOutside

variable {mask a b d : UInt64}

theorem trans (first : AgreeOutside mask a b) (second : AgreeOutside mask b d) :
    AgreeOutside mask a d :=
  Eq.trans first second

theorem and_eq (agree : AgreeOutside mask a b) {keep : UInt64} (disjoint : mask &&& keep = 0) :
    a &&& keep = b &&& keep := by
  rw [← not_and_of_disjoint disjoint, ← UInt64.and_assoc, ← UInt64.and_assoc, agree]

theorem mono (agree : AgreeOutside mask a b) {wide : UInt64} (wider : Within wide mask) :
    AgreeOutside wide a b :=
  agree.and_eq wider

theorem and_right (agree : AgreeOutside mask a b) (shown : UInt64) :
    AgreeOutside mask (a &&& shown) (b &&& shown) := by
  unfold AgreeOutside at agree ⊢
  rw [UInt64.and_assoc, UInt64.and_comm shown, ← UInt64.and_assoc, agree, UInt64.and_assoc,
    UInt64.and_comm (~~~mask), ← UInt64.and_assoc]

theorem or_bits {bits : UInt64} (inside : Within mask bits) (a : UInt64) :
    AgreeOutside mask (a ||| bits) a :=
  inside.or_and UInt64.and_not_self

theorem clear_bits {bits : UInt64} (inside : Within mask bits) (a : UInt64) :
    AgreeOutside mask (a &&& ~~~bits) a := by
  have disjoint : bits &&& ~~~mask = 0 := inside
  rw [AgreeOutside, UInt64.and_assoc, not_and_of_disjoint disjoint]

theorem merge (mask old value : UInt64) : AgreeOutside mask (CsrFile.merge mask old value) old :=
  (or_bits (Within.and_mask mask value) _).trans (clear_bits (Within.refl mask) old)

theorem of_and_eq {bits : UInt64} (agree : AgreeOutside (bits ||| mask) a b)
    (same : a &&& bits = b &&& bits) : AgreeOutside mask a b := by
  unfold AgreeOutside at *
  rw [← UInt64.toBitVec_inj] at *
  ext i inside
  have outer := congrArg (fun x : BitVec 64 => x[i]) agree
  have inner := congrArg (fun x : BitVec 64 => x[i]) same
  simp at outer inner ⊢
  grind

end AgreeOutside

/-! ### Single bits -/

private theorem toNat_and_twoPow (word : UInt64) {i : Nat} (inside : i < 64) :
    (word &&& UInt64.ofNat (2 ^ i)).toNat = (word.toNat.testBit i).toNat * 2 ^ i := by
  have small : 2 ^ i < 2 ^ 64 := Nat.pow_lt_pow_right (by decide) inside
  rw [UInt64.toNat_and, UInt64.toNat_ofNat', Nat.mod_eq_of_lt small, Nat.and_two_pow]

theorem and_twoPow_ne_zero (word : UInt64) {i : Nat} (inside : i < 64) :
    word &&& UInt64.ofNat (2 ^ i) != 0 ↔ word.toNat.testBit i := by
  rw [bne_iff_ne, ne_eq, ← UInt64.toNat_inj, toNat_and_twoPow word inside]
  cases word.toNat.testBit i <;> simp

def OneBit (mask : UInt64) : Prop :=
  ∃ i < 64, mask = UInt64.ofNat (2 ^ i)

theorem OneBit.and_eq {mask : UInt64} (one : OneBit mask) (word : UInt64) :
    word &&& mask = if word &&& mask != 0 then mask else 0 := by
  rcases one with ⟨i, inside, rfl⟩
  have small : 2 ^ i < 2 ^ 64 := Nat.pow_lt_pow_right (by decide) inside
  have bit := toNat_and_twoPow word inside
  split
  next some =>
    have set := (and_twoPow_ne_zero word inside).1 some
    apply UInt64.toNat_inj.1
    rw [bit, set, UInt64.toNat_ofNat', Nat.mod_eq_of_lt small, Bool.toNat_true, Nat.one_mul]
  next none => simpa using none

/-! ### Even addresses -/

def IsEven (addr : UInt64) : Prop :=
  addr &&& 1 = 0

instance (addr : UInt64) : Decidable (IsEven addr) :=
  inferInstanceAs (Decidable (_ = _))

theorem isEven_iff {addr : UInt64} : IsEven addr ↔ addr.toNat % 2 = 0 := by
  rw [IsEven, ← UInt64.toNat_inj, UInt64.toNat_and]
  show addr.toNat &&& 1 = 0 ↔ _
  rw [Nat.and_one_is_mod]

namespace IsEven

variable {a b : UInt64}

theorem add (first : IsEven a) (second : IsEven b) : IsEven (a + b) := by
  rw [isEven_iff] at *
  rw [UInt64.toNat_add]
  omega

theorem and_left (even : IsEven a) (b : UInt64) : IsEven (a &&& b) := by
  have even : a &&& 1 = 0 := even
  rw [IsEven, UInt64.and_assoc, UInt64.and_comm b, ← UInt64.and_assoc, even, UInt64.zero_and]

theorem clear (a : UInt64) : IsEven (a &&& ~~~1) := by
  rw [IsEven, UInt64.and_assoc, UInt64.not_and_self, UInt64.and_zero]

end IsEven

/-! ### Values of the register width -/

namespace Xlen

/-- Whether a value has no bit above those of a register. -/
def Fits : Xlen → UInt64 → Prop
  | rv32, value => value < 0x100000000
  | rv64, _ => True

instance (xlen : Xlen) (value : UInt64) : Decidable (xlen.Fits value) :=
  match xlen with
  | rv32 => inferInstanceAs (Decidable (value < 0x100000000))
  | rv64 => .isTrue trivial

theorem toNat_truncate (xlen : Xlen) (value : UInt64) :
    (xlen.truncate value).toNat = value.toNat % 2 ^ xlen.bits := by
  cases xlen with
  | rv32 => exact Nat.and_two_pow_sub_one_eq_mod _ 32
  | rv64 => exact (Nat.mod_eq_of_lt value.toNat_lt).symm

theorem fits_rv32 {value : UInt64} : rv32.Fits value ↔ Within 0xffffffff value := by
  have low : (value &&& 0xffffffff).toNat = value.toNat % 2 ^ 32 := rv32.toNat_truncate value
  constructor
  · intro fits
    have bound : value.toNat < 2 ^ 32 := fits
    apply Within.of_and_eq
    rw [← UInt64.toNat_inj, low, Nat.mod_eq_of_lt bound]
  · intro inside
    have same := inside.and_eq
    rw [← UInt64.toNat_inj, low] at same
    have bound := Nat.mod_lt value.toNat (show 0 < 2 ^ 32 by decide)
    rw [same] at bound
    exact bound

theorem fits_truncate (xlen : Xlen) (value : UInt64) : xlen.Fits (xlen.truncate value) := by
  cases xlen with
  | rv32 => exact fits_rv32.2 (Within.and_mask _ _)
  | rv64 => trivial

theorem fits_of_within {value : UInt64} (inside : Within 0xffffffff value) (xlen : Xlen) :
    xlen.Fits value := by
  cases xlen with
  | rv32 => exact fits_rv32.2 inside
  | rv64 => trivial

namespace Fits

variable {xlen : Xlen} {a b : UInt64}

private theorem or (first : xlen.Fits a) (second : xlen.Fits b) : xlen.Fits (a ||| b) := by
  cases xlen with
  | rv32 => exact fits_rv32.2 ((fits_rv32.1 first).or (fits_rv32.1 second))
  | rv64 => trivial

theorem and_left (fits : xlen.Fits a) (b : UInt64) : xlen.Fits (a &&& b) := by
  cases xlen with
  | rv32 => exact fits_rv32.2 ((fits_rv32.1 fits).and_left b)
  | rv64 => trivial

theorem merge (old : xlen.Fits a) (value : xlen.Fits b) (mask : UInt64) :
    xlen.Fits (CsrFile.merge mask a b) :=
  (old.and_left _).or (value.and_left _)

end Fits

end Xlen

/-! ### Bits of the status word -/

namespace CsrFile

theorem statusBit_setStatusBit (c : CsrFile) {mask : UInt64} (some : mask ≠ 0) (on : Bool) :
    (c.setStatusBit mask on).statusBit mask = on := by
  cases on with
  | false =>
    have cleared : c.mstatus &&& ~~~mask &&& mask = 0 := by
      rw [UInt64.and_assoc, UInt64.and_comm (~~~mask), UInt64.and_not_self, UInt64.and_zero]
    simp [setStatusBit, statusBit, cleared]
  | true =>
    have kept : (c.mstatus ||| mask) &&& mask = mask := by
      rw [← UInt64.toBitVec_inj]
      ext i _
      simpa using Or.inr
    simp [setStatusBit, statusBit, kept, some]

theorem statusBit_setStatusBit_of_disjoint (c : CsrFile) {mask asked : UInt64}
    (disjoint : mask &&& asked = 0) (on : Bool) :
    (c.setStatusBit mask on).statusBit asked = c.statusBit asked := by
  cases on with
  | false =>
    simp [setStatusBit, statusBit, UInt64.and_assoc, not_and_of_disjoint disjoint]
  | true => simp [setStatusBit, statusBit, and_or_distrib_right, disjoint]

theorem setStatusBit_of_clear {c : CsrFile} {mask : UInt64} (clear : c.statusBit mask = false) :
    c.setStatusBit mask false = c := by
  have disjoint : mask &&& c.mstatus = 0 := by
    rw [UInt64.and_comm]
    simpa [statusBit] using clear
  have same : c.mstatus &&& ~~~mask = c.mstatus := by
    rw [UInt64.and_comm, not_and_of_disjoint disjoint]
  simp [setStatusBit, same]

theorem statusBit_of_agree {c d : CsrFile} {mask asked : UInt64}
    (agree : AgreeOutside mask d.mstatus c.mstatus) (disjoint : mask &&& asked = 0) :
    d.statusBit asked = c.statusBit asked := by
  rw [statusBit, statusBit, agree.and_eq disjoint]

theorem and_eq_of_statusBit {c d : CsrFile} {mask : UInt64} (one : OneBit mask)
    (same : d.statusBit mask = c.statusBit mask) : d.mstatus &&& mask = c.mstatus &&& mask := by
  have new := one.and_eq d.mstatus
  have old := one.and_eq c.mstatus
  unfold statusBit at same
  rw [same] at new
  exact new.trans old.symm

end CsrFile

end RiscvBoard
