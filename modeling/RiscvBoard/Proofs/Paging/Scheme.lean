import RiscvBoard.Proofs.Bits
import RiscvBoard.Proofs.Paging.Walk

/-!
The paging schemes as the architecture describes them, and the walk as their implementation. A
scheme is a geometry: how many levels, how wide an index, an entry and a page number. What a table
holds is read off memory, in numbers: bits of an entry, page numbers, and quotients and remainders
of addresses.
-/

set_option autoImplicit false

namespace RiscvBoard

/-! ### Entries -/

namespace Pte

def IsValid (entry : UInt64) : Prop := entry.toNat.testBit 0
  deriving Decidable

def IsReadable (entry : UInt64) : Prop := entry.toNat.testBit 1
  deriving Decidable

def IsWritable (entry : UInt64) : Prop := entry.toNat.testBit 2
  deriving Decidable

def IsExecutable (entry : UInt64) : Prop := entry.toNat.testBit 3
  deriving Decidable

def IsUser (entry : UInt64) : Prop := entry.toNat.testBit 4
  deriving Decidable

/-- The form of an entry that points to a table of the next level. -/
def PointsOn (entry : UInt64) : Prop :=
  ¬ IsReadable entry ∧ ¬ IsWritable entry ∧ ¬ IsExecutable entry
  deriving Decidable

/-- The form of an entry that maps a page: what can be written can also be read. -/
def MapsPage (entry : UInt64) : Prop :=
  (IsReadable entry ∨ IsExecutable entry) ∧ (IsWritable entry → IsReadable entry)
  deriving Decidable

/-- Whether a page is open to a mode: the supervisor needs a permission to use pages of the user,
and never fetches from them. -/
def OpenTo (entry : UInt64) (c : CsrFile) (kind : AccessKind) : Privilege → Prop
  | .user => IsUser entry
  | .supervisor => IsUser entry → c.statusBit Status.sum ∧ kind ≠ .fetch
  | .machine => True

instance (entry : UInt64) (c : CsrFile) (kind : AccessKind) (mode : Privilege) :
    Decidable (OpenTo entry c kind mode) :=
  match mode with
  | .user => inferInstanceAs (Decidable (IsUser entry))
  | .supervisor => inferInstanceAs (Decidable (_ → _ ∧ _))
  | .machine => .isTrue trivial

def Takes (entry : UInt64) (c : CsrFile) : AccessKind → Prop
  | .fetch => IsExecutable entry
  | .load => IsReadable entry ∨ (c.statusBit Status.mxr ∧ IsExecutable entry)
  | .store => IsWritable entry

instance (entry : UInt64) (c : CsrFile) (kind : AccessKind) : Decidable (Takes entry c kind) :=
  match kind with
  | .fetch => inferInstanceAs (Decidable (IsExecutable entry))
  | .load => inferInstanceAs (Decidable (_ ∨ _ ∧ _))
  | .store => inferInstanceAs (Decidable (IsWritable entry))

end Pte

/-! ### Schemes -/

/-- The geometry of a paging scheme. -/
structure PagingScheme where
  levels : Nat
  /-- How many bits of an address index a table. -/
  indexBits : Nat
  entryWidth : Width
  /-- How many bits a page number has. -/
  numberBits : Nat
  /-- How many bits an address has, if those above have to repeat the topmost of them. -/
  signedBits? : Option Nat
  deriving DecidableEq

def PagingMode.scheme? : PagingMode → Option PagingScheme
  | bare => none
  | sv32 => some ⟨2, 10, .word, 22, none⟩
  | sv39 => some ⟨3, 9, .double, 44, some 39⟩
  | sv48 => some ⟨4, 9, .double, 44, some 48⟩

namespace PagingScheme

section Definitions

variable (s : PagingScheme)

def pageBits (level : Nat) : Nat :=
  12 + s.indexBits * level

def index (addr : UInt64) (level : Nat) : Nat :=
  addr.toNat / 2 ^ s.pageBits level % 2 ^ s.indexBits

def Canonical (addr : UInt64) : Prop :=
  ∀ bits ∈ s.signedBits?, ∀ i, bits ≤ i → i < 64 →
    addr.toNat.testBit i = addr.toNat.testBit (bits - 1)

def number (entry : UInt64) : Nat :=
  entry.toNat / 2 ^ 10 % 2 ^ s.numberBits

def root (c : CsrFile) : Nat :=
  c.satp.toNat % 2 ^ s.numberBits

/-- An entry that may be used: it is valid, and has none of the bits that a wide entry reserves. -/
def Sound (entry : UInt64) : Prop :=
  Pte.IsValid entry ∧ (s.entryWidth = .double → entry.toNat / 2 ^ 54 = 0)
  deriving Decidable

def entryAddr (addr : UInt64) (level table : Nat) : UInt64 :=
  .ofNat (table * 2 ^ 12 + s.index addr level * s.entryWidth.bytes)

def Holds (ram : Ram) (addr : UInt64) (level table : Nat) (entry : UInt64) : Prop :=
  ram.load (s.entryAddr addr level table) s.entryWidth = .ok entry
  deriving Decidable

/-- The tables on the way of an address from a root on: `n` levels are left at the table on a
page. -/
inductive Reaches (ram : Ram) (addr : UInt64) (root : Nat) : Nat → Nat → Prop where
  | root : Reaches ram addr root s.levels root
  | pointer {level table : Nat} {entry : UInt64} :
    Reaches ram addr root (level + 1) table → s.Holds ram addr level table entry →
      s.Sound entry → Pte.PointsOn entry → Reaches ram addr root level (s.number entry)

def Escapes (ram : Ram) (addr : UInt64) (root : Nat) : Prop :=
  ∃ level table, s.Reaches ram addr root (level + 1) table ∧
    ∀ entry, ¬ s.Holds ram addr level table entry

structure EndsAt (ram : Ram) (addr : UInt64) (root level table : Nat) (entry : UInt64) : Prop where
  reached : s.Reaches ram addr root (level + 1) table
  held : s.Holds ram addr level table entry
  sound : s.Sound entry
  leaf : Pte.MapsPage entry

/-- A leaf that maps an address for an access: it permits the access, and its page is aligned to
the size that its level gives it. -/
structure Maps (ram : Ram) (c : CsrFile) (addr : UInt64) (kind : AccessKind) (mode : Privilege)
    (level table : Nat) (entry : UInt64) : Prop extends
    s.EndsAt ram addr (s.root c) level table entry where
  openTo : Pte.OpenTo entry c kind mode
  takes : Pte.Takes entry c kind
  aligned : s.number entry % 2 ^ (s.indexBits * level) = 0

def paddr (addr : UInt64) (level : Nat) (entry : UInt64) : Nat :=
  s.number entry * 2 ^ 12 + addr.toNat % 2 ^ s.pageBits level

end Definitions

end PagingScheme

/-! ### Words as numbers -/

private theorem toNat_and_lowMask (word shift : UInt64) (short : shift.toNat < 64) :
    (word &&& ((1 <<< shift) - 1)).toNat = word.toNat % 2 ^ shift.toNat := by
  have small : 2 ^ shift.toNat < 2 ^ 64 := Nat.pow_lt_pow_right (by decide) short
  have power : ((1 : UInt64) <<< shift).toNat = 2 ^ shift.toNat := by
    rw [UInt64.toNat_shiftLeft, Nat.mod_eq_of_lt short, Nat.shiftLeft_eq]
    exact (Nat.mod_eq_of_lt (by simpa using small)).trans (Nat.one_mul _)
  have positive : (1 : UInt64).toNat ≤ ((1 : UInt64) <<< shift).toNat := by
    rw [power]
    exact Nat.two_pow_pos _
  rw [UInt64.toNat_and, UInt64.toNat_sub_of_le _ _ (UInt64.le_iff_toNat_le.2 positive), power]
  exact Nat.and_two_pow_sub_one_eq_mod _ _

namespace Pte

private theorem has_valid {entry : UInt64} : has entry valid ↔ IsValid entry :=
  and_twoPow_ne_zero entry (i := 0) (by decide)

private theorem has_readable {entry : UInt64} : has entry readable ↔ IsReadable entry :=
  and_twoPow_ne_zero entry (i := 1) (by decide)

private theorem has_writable {entry : UInt64} : has entry writable ↔ IsWritable entry :=
  and_twoPow_ne_zero entry (i := 2) (by decide)

private theorem has_executable {entry : UInt64} : has entry executable ↔ IsExecutable entry :=
  and_twoPow_ne_zero entry (i := 3) (by decide)

private theorem has_user {entry : UInt64} : has entry user ↔ IsUser entry :=
  and_twoPow_ne_zero entry (i := 4) (by decide)

private theorem isPointer_iff {entry : UInt64} :
    isPointer entry ↔ ¬ IsReadable entry ∧ ¬ IsExecutable entry := by
  have either : has entry (readable ||| executable) =
      (has entry readable || has entry executable) := by
    rw [Bool.eq_iff_iff, Bool.or_eq_true, has, has, has, UInt64.and_comm,
      and_or_distrib_right, UInt64.and_comm readable, UInt64.and_comm executable]
    simp only [bne_iff_ne, ne_eq, UInt64.or_eq_zero_iff]
    tauto
  rw [isPointer, either, Bool.not_eq_true', Bool.or_eq_false_iff, ← has_readable,
    ← has_executable, Bool.not_eq_true, Bool.not_eq_true]

private theorem permits_iff {entry : UInt64} {c : CsrFile} {kind : AccessKind} {mode : Privilege} :
    permits entry kind mode c ↔ OpenTo entry c kind mode ∧ Takes entry c kind := by
  unfold permits
  rw [Bool.and_eq_true]
  refine and_congr ?opened ?taken
  case opened =>
    cases mode with
    | user => exact has_user
    | supervisor =>
      simp only [OpenTo, ← has_user, Bool.or_eq_true, Bool.not_eq_true', Bool.and_eq_true,
        bne_iff_ne]
      cases has entry user <;> simp [and_comm]
    | machine => simp [OpenTo]
  case taken =>
    cases kind with
    | fetch => exact has_executable
    | load =>
      simp only [Takes, Bool.or_eq_true, Bool.and_eq_true, has_readable, has_executable]
    | store => exact has_writable

end Pte

/-! ### The fields of a scheme -/

private theorem page_shiftLeft {page : UInt64} {number : Nat} (same : page.toNat = number) :
    page <<< pageShift = .ofNat (number * 2 ^ 12) := by
  apply UInt64.toNat_inj.1
  rw [UInt64.toNat_shiftLeft, UInt64.toNat_ofNat', same, Nat.shiftLeft_eq]
  rfl

private theorem PagingMode.scheme?_eq_some {paging : PagingMode} {s : PagingScheme}
    (known : paging.scheme? = some s) :
    (paging = .sv32 ∧ s = ⟨2, 10, .word, 22, none⟩) ∨
      (paging = .sv39 ∧ s = ⟨3, 9, .double, 44, some 39⟩) ∨
      (paging = .sv48 ∧ s = ⟨4, 9, .double, 44, some 48⟩) := by
  cases paging with
  | bare => contradiction
  | sv32 => exact .inl ⟨rfl, (Option.some.inj known).symm⟩
  | sv39 => exact .inr (.inl ⟨rfl, (Option.some.inj known).symm⟩)
  | sv48 => exact .inr (.inr ⟨rfl, (Option.some.inj known).symm⟩)

namespace PagingScheme

section Fields

variable {paging : PagingMode} {s : PagingScheme} (known : paging.scheme? = some s)
include known

private theorem levels_eq : paging.levels = s.levels := by
  obtain ⟨rfl, rfl⟩ | ⟨rfl, rfl⟩ | ⟨rfl, rfl⟩ := PagingMode.scheme?_eq_some known <;> rfl

private theorem entryWidth_eq : paging.entryWidth = s.entryWidth := by
  obtain ⟨rfl, rfl⟩ | ⟨rfl, rfl⟩ | ⟨rfl, rfl⟩ := PagingMode.scheme?_eq_some known <;> rfl

private theorem toNat_indexBits : paging.indexBits.toNat = s.indexBits := by
  obtain ⟨rfl, rfl⟩ | ⟨rfl, rfl⟩ | ⟨rfl, rfl⟩ := PagingMode.scheme?_eq_some known <;> rfl

private theorem indexBits_lt : s.indexBits < 64 := by
  obtain ⟨rfl, rfl⟩ | ⟨rfl, rfl⟩ | ⟨rfl, rfl⟩ := PagingMode.scheme?_eq_some known <;> decide

private theorem numberBits_le : s.numberBits ≤ 44 := by
  obtain ⟨rfl, rfl⟩ | ⟨rfl, rfl⟩ | ⟨rfl, rfl⟩ := PagingMode.scheme?_eq_some known <;> decide

private theorem pageBits_lt {level : Nat} (inside : level < s.levels) : s.pageBits level < 64 := by
  obtain ⟨rfl, rfl⟩ | ⟨rfl, rfl⟩ | ⟨rfl, rfl⟩ := PagingMode.scheme?_eq_some known <;>
    simp only [pageBits] at inside ⊢ <;> omega

private theorem toNat_levelShift {level : Nat} (inside : level < s.levels) :
    (paging.levelShift level).toNat = s.pageBits level := by
  obtain ⟨rfl, rfl⟩ | ⟨rfl, rfl⟩ | ⟨rfl, rfl⟩ := PagingMode.scheme?_eq_some known <;>
    simp only at inside <;> interval_cases level <;> rfl

private theorem toNat_levelBits {level : Nat} (inside : level < s.levels) :
    (paging.indexBits * level.toUInt64).toNat = s.indexBits * level := by
  obtain ⟨rfl, rfl⟩ | ⟨rfl, rfl⟩ | ⟨rfl, rfl⟩ := PagingMode.scheme?_eq_some known <;>
    simp only at inside <;> interval_cases level <;> rfl

private theorem toNat_entryPage (entry : UInt64) :
    (paging.entryPage entry).toNat = s.number entry := by
  have field (mask : UInt64) (bits : Nat) (low : mask.toNat = 2 ^ bits - 1) :
      (entry >>> 10 &&& mask).toNat = entry.toNat / 2 ^ 10 % 2 ^ bits := by
    rw [UInt64.toNat_and, UInt64.toNat_shiftRight, low, Nat.and_two_pow_sub_one_eq_mod,
      Nat.shiftRight_eq_div_pow]
    rfl
  obtain ⟨rfl, rfl⟩ | ⟨rfl, rfl⟩ | ⟨rfl, rfl⟩ := PagingMode.scheme?_eq_some known
  · exact field 0x3fffff 22 rfl
  · exact field 0xfffffffffff 44 rfl
  · exact field 0xfffffffffff 44 rfl

private theorem canonical_iff {addr : UInt64} : paging.isCanonical addr ↔ s.Canonical addr := by
  have signed (unused : Nat) (short : unused < 64) :
      (addr.toBitVec <<< unused).sshiftRight unused = addr.toBitVec ↔
        ∀ i, 64 - unused ≤ i → i < 64 →
          addr.toNat.testBit i = addr.toNat.testBit (64 - unused - 1) := by
    rw [Walk.signExtended_iff addr.toBitVec short, show 64 - unused - 1 = 63 - unused by omega]
    rfl
  have decided (a b : UInt64) : (a == b) ↔ a.toBitVec = b.toBitVec := by
    rw [beq_iff_eq, UInt64.toBitVec_inj]
  obtain ⟨rfl, rfl⟩ | ⟨rfl, rfl⟩ | ⟨rfl, rfl⟩ := PagingMode.scheme?_eq_some known
  · simp [PagingMode.isCanonical, Canonical]
  · refine (decided _ _).trans ((signed 25 (by decide)).trans ?_)
    simp [Canonical]
  · refine (decided _ _).trans ((signed 16 (by decide)).trans ?_)
    simp [Canonical]

private theorem not_isMalformed_iff {entry : UInt64} :
    paging.isMalformed entry = false ↔
      s.Sound entry ∧ (Pte.IsWritable entry → Pte.IsReadable entry) := by
  have reserved : entry >>> 54 = 0 ↔ entry.toNat / 2 ^ 54 = 0 := by
    rw [← UInt64.toNat_inj, UInt64.toNat_shiftRight, Nat.shiftRight_eq_div_pow]
    rfl
  rw [PagingMode.isMalformed, entryWidth_eq known, Sound, ← reserved, ← Pte.has_valid,
    ← Pte.has_readable, ← Pte.has_writable]
  cases Pte.has entry Pte.valid <;> cases Pte.has entry Pte.readable <;>
    cases Pte.has entry Pte.writable <;> simp

private theorem index_eq (addr : UInt64) {level : Nat} (inside : level < s.levels) :
    paging.index addr level = .ofNat (s.index addr level) := by
  have short := pageBits_lt known inside
  have narrow : paging.indexBits.toNat < 64 := by
    rw [toNat_indexBits known]
    exact indexBits_lt known
  have small : s.index addr level < 2 ^ 64 := by
    have below := Nat.mod_lt (addr.toNat / 2 ^ s.pageBits level) (Nat.two_pow_pos s.indexBits)
    exact below.trans (Nat.pow_lt_pow_right (by decide) (indexBits_lt known))
  apply UInt64.toNat_inj.1
  rw [PagingMode.index, toNat_and_lowMask _ _ narrow, UInt64.toNat_shiftRight,
    toNat_levelShift known inside, Nat.mod_eq_of_lt short, toNat_indexBits known,
    UInt64.toNat_ofNat', Nat.mod_eq_of_lt small, Nat.shiftRight_eq_div_pow]
  rfl

private theorem entryAddr_eq (addr : UInt64) {level : Nat} (inside : level < s.levels)
    (table : Nat) :
    paging.entryAddr (.ofNat (table * 2 ^ 12)) addr level = s.entryAddr addr level table := by
  rw [PagingMode.entryAddr, index_eq known addr inside, entryWidth_eq known, entryAddr,
    UInt64.ofNat_add, UInt64.ofNat_mul (s.index addr level)]

private theorem isAligned_iff {entry : UInt64} {level : Nat} (inside : level < s.levels) :
    paging.isAligned (paging.entryPage entry) level ↔
      s.number entry % 2 ^ (s.indexBits * level) = 0 := by
  have short := pageBits_lt known inside
  have narrow : (paging.indexBits * level.toUInt64).toNat < 64 := by
    rw [toNat_levelBits known inside]
    unfold pageBits at short
    omega
  rw [PagingMode.isAligned, beq_iff_eq, ← UInt64.toNat_inj, toNat_and_lowMask _ _ narrow,
    toNat_entryPage known, toNat_levelBits known inside]
  rfl

private theorem toNat_leafPaddr {l : Walk.Leaf} (addr : UInt64) (inside : l.level < s.levels)
    (aligned : s.number l.entry % 2 ^ (s.indexBits * l.level) = 0) :
    (l.paddr paging addr).toNat = s.paddr addr l.level l.entry := by
  have short := pageBits_lt known inside
  have amount := toNat_levelShift known inside
  have masked (word : UInt64) :
      (word &&& paging.offsetMask l.level).toNat = word.toNat % 2 ^ s.pageBits l.level := by
    rw [PagingMode.offsetMask, toNat_and_lowMask _ _ (amount ▸ short), amount]
  have small : s.number l.entry * 2 ^ 12 < 2 ^ 64 := by
    have below := Nat.mod_lt (l.entry.toNat / 2 ^ 10) (Nat.two_pow_pos s.numberBits)
    have wide : 2 ^ s.numberBits ≤ 2 ^ 44 :=
      Nat.pow_le_pow_right (by decide) (numberBits_le known)
    unfold number
    omega
  have page : (paging.entryPage l.entry <<< pageShift).toNat = s.number l.entry * 2 ^ 12 := by
    rw [page_shiftLeft (toNat_entryPage known l.entry), UInt64.toNat_ofNat', Nat.mod_eq_of_lt small]
  obtain ⟨frame, multiple⟩ : 2 ^ s.pageBits l.level ∣ s.number l.entry * 2 ^ 12 := by
    rw [pageBits, Nat.pow_add, Nat.mul_comm (2 ^ 12)]
    exact Nat.mul_dvd_mul_right (Nat.dvd_of_mod_eq_zero aligned) _
  have clear : paging.offsetMask l.level &&& (paging.entryPage l.entry <<< pageShift) = 0 := by
    apply UInt64.toNat_inj.1
    rw [UInt64.and_comm, masked, page, multiple, Nat.mul_mod_right]
    rfl
  have offset := Nat.mod_lt addr.toNat (Nat.two_pow_pos (s.pageBits l.level))
  simp only [Walk.Leaf.paddr]
  rw [UInt64.and_comm, not_and_of_disjoint clear, UInt64.toNat_or, page, masked, multiple,
    ← Nat.two_pow_add_eq_or_of_lt offset, paddr, multiple]

end Fields

/-! ### The search for the leaf -/

section Search

variable {paging : PagingMode} {s : PagingScheme} {ram : Ram} {addr : UInt64} {root : Nat}

def Explains (s : PagingScheme) (ram : Ram) (addr : UInt64) (root : Nat) :
    Except Walk.Defect Walk.Leaf → Prop
  | .ok l => ∃ table, s.EndsAt ram addr root l.level table l.entry
  | .error .outside => s.Escapes ram addr root
  | .error .invalid => True

private theorem Reaches.le_levels {n table : Nat} (reached : s.Reaches ram addr root n table) :
    n ≤ s.levels := by
  induction reached with
  | root => exact le_rfl
  | pointer _ _ _ _ ih => omega

variable (known : paging.scheme? = some s)
include known

private theorem find_of_holds {level table : Nat} {entry : UInt64} (inside : level < s.levels)
    (held : s.Holds ram addr level table entry) :
    Walk.find ram paging addr (level + 1) (.ofNat (table * 2 ^ 12)) =
      if paging.isMalformed entry then .error .invalid
      else if Pte.isPointer entry then
        Walk.find ram paging addr level (.ofNat (s.number entry * 2 ^ 12))
      else .ok ⟨s.entryAddr addr level table, entry, level⟩ := by
  have loaded : ram.load (s.entryAddr addr level table) s.entryWidth = .ok entry := held
  rw [Walk.find, entryAddr_eq known addr inside, entryWidth_eq known, loaded,
    ← page_shiftLeft (toNat_entryPage known entry)]

private theorem Reaches.find_eq {n table : Nat} (reached : s.Reaches ram addr root n table) :
    Walk.find ram paging addr s.levels (.ofNat (root * 2 ^ 12)) =
      Walk.find ram paging addr n (.ofNat (table * 2 ^ 12)) := by
  induction reached with
  | root => rfl
  | pointer reached held sound points ih =>
    obtain ⟨unreadable, unwritable, unexecutable⟩ := points
    have formed := (not_isMalformed_iff known).2 ⟨sound, fun writable => absurd writable unwritable⟩
    have pointer := Pte.isPointer_iff.2 ⟨unreadable, unexecutable⟩
    rw [ih, find_of_holds known reached.le_levels held, formed, if_neg Bool.false_ne_true,
      if_pos pointer]

private theorem EndsAt.find_eq {level table : Nat} {entry : UInt64}
    (ends : s.EndsAt ram addr root level table entry) :
    Walk.find ram paging addr s.levels (.ofNat (root * 2 ^ 12)) =
      .ok ⟨s.entryAddr addr level table, entry, level⟩ := by
  have formed := (not_isMalformed_iff known).2 ⟨ends.sound, ends.leaf.2⟩
  have leaf : ¬ Pte.isPointer entry := by
    rw [Pte.isPointer_iff]
    exact fun neither => ends.leaf.1.elim neither.1 neither.2
  rw [ends.reached.find_eq known, find_of_holds known ends.reached.le_levels ends.held, formed,
    if_neg Bool.false_ne_true, if_neg leaf]

private theorem Escapes.find_eq (escapes : s.Escapes ram addr root) :
    Walk.find ram paging addr s.levels (.ofNat (root * 2 ^ 12)) = .error .outside := by
  obtain ⟨level, table, reached, absent⟩ := escapes
  rw [reached.find_eq known, Walk.find, entryAddr_eq known addr reached.le_levels,
    entryWidth_eq known]
  cases loaded : ram.load (s.entryAddr addr level table) s.entryWidth with
  | error f => rfl
  | ok entry => exact absurd loaded (absent entry)

/-- What a search found is there: whatever it answers, the tables say so. -/
private theorem Reaches.explains_find {n table : Nat} (reached : s.Reaches ram addr root n table) :
    s.Explains ram addr root (Walk.find ram paging addr n (.ofNat (table * 2 ^ 12))) := by
  induction n generalizing table with
  | zero => trivial
  | succ level ih =>
    cases loaded : ram.load (s.entryAddr addr level table) s.entryWidth with
    | error f =>
      rw [Walk.find, entryAddr_eq known addr reached.le_levels, entryWidth_eq known, loaded]
      refine ⟨level, table, reached, fun entry held => ?_⟩
      have present : ram.load (s.entryAddr addr level table) s.entryWidth = .ok entry := held
      rw [loaded] at present
      contradiction
    | ok entry =>
      have held : s.Holds ram addr level table entry := loaded
      rw [find_of_holds known reached.le_levels held]
      cases malformed : paging.isMalformed entry with
      | true =>
        rw [if_pos rfl]
        trivial
      | false =>
        obtain ⟨sound, readable⟩ := (not_isMalformed_iff known).1 malformed
        rw [if_neg Bool.false_ne_true]
        by_cases pointer : Pte.isPointer entry
        · rw [if_pos pointer]
          obtain ⟨unreadable, unexecutable⟩ := Pte.isPointer_iff.1 pointer
          have unwritable : ¬ Pte.IsWritable entry := fun writable =>
            unreadable (readable writable)
          exact ih (.pointer reached held sound ⟨unreadable, unwritable, unexecutable⟩)
        · rw [if_neg pointer]
          rw [Pte.isPointer_iff] at pointer
          exact ⟨table, reached, held, sound, by tauto, readable⟩

end Search

/-! ### Addresses of one leaf -/

section Neighbours

variable {s : PagingScheme} {ram : Ram} {addr other : UInt64} {level : Nat}
variable (near : addr.toNat / 2 ^ s.pageBits level = other.toNat / 2 ^ s.pageBits level)
include near

private theorem index_of_near {upper : Nat} (above : level ≤ upper) :
    s.index addr upper = s.index other upper := by
  have split (word : UInt64) : word.toNat / 2 ^ s.pageBits upper =
      word.toNat / 2 ^ s.pageBits level / 2 ^ (s.indexBits * (upper - level)) := by
    have levels : s.indexBits * upper = s.indexBits * level + s.indexBits * (upper - level) := by
      rw [← Nat.mul_add, Nat.add_sub_cancel' above]
    rw [Nat.div_div_eq_div_mul, ← Nat.pow_add, pageBits, pageBits, levels, Nat.add_assoc]
  rw [index, index, split, split, near]

private theorem Holds.of_near {upper table : Nat} {entry : UInt64} (above : level ≤ upper)
    (held : s.Holds ram addr upper table entry) : s.Holds ram other upper table entry := by
  unfold Holds entryAddr at held ⊢
  rwa [← index_of_near near above]

private theorem Reaches.of_near {root n table : Nat} (above : level < n)
    (reached : s.Reaches ram addr root n table) : s.Reaches ram other root n table := by
  induction reached with
  | root => exact .root
  | pointer _ held sound points ih =>
    exact .pointer (ih (by omega)) (held.of_near near (by omega)) sound points

private theorem Maps.of_near {c : CsrFile} {kind : AccessKind} {mode : Privilege} {table : Nat}
    {entry : UInt64} (maps : s.Maps ram c addr kind mode level table entry) :
    s.Maps ram c other kind mode level table entry :=
  { maps with
    reached := maps.reached.of_near near (Nat.lt_succ_self level)
    held := maps.held.of_near near le_rfl }

private theorem Canonical.of_near {paging : PagingMode} (known : paging.scheme? = some s)
    (inside : level < s.levels) (canonical : s.Canonical addr) : s.Canonical other := by
  have bit {i : Nat} (above : s.pageBits level ≤ i) :
      addr.toNat.testBit i = other.toNat.testBit i := by
    have upper := congrArg (fun k => k.testBit (i - s.pageBits level)) near
    simpa [Nat.testBit_div_two_pow, Nat.sub_add_cancel above] using upper
  intro bits signed i above below
  have low : s.pageBits level ≤ bits - 1 := by
    obtain ⟨rfl, rfl⟩ | ⟨rfl, rfl⟩ | ⟨rfl, rfl⟩ := PagingMode.scheme?_eq_some known <;>
      simp only [Option.mem_def, reduceCtorEq, Option.some.injEq, pageBits] at signed inside ⊢ <;>
        omega
  rw [← bit (by omega), ← bit low]
  exact canonical bits signed i above below

end Neighbours

/-! ### The walk -/

section Walks

variable {s : PagingScheme} {c : CsrFile} (known : c.pagingMode.scheme? = some s)
include known

private theorem toNat_rootPage : c.rootPage.toNat = s.root c := by
  unfold CsrFile.pagingMode at known
  unfold CsrFile.rootPage root
  cases width : c.xlen with
  | rv32 =>
    simp only [width] at known
    split at known
    · obtain rfl := Option.some.inj known
      exact Nat.and_two_pow_sub_one_eq_mod _ 22
    · contradiction
  | rv64 =>
    have wide : s.numberBits = 44 := by
      simp only [width] at known
      split at known
      · exact congrArg numberBits (Option.some.inj known).symm
      split at known
      · exact congrArg numberBits (Option.some.inj known).symm
      · contradiction
    rw [wide]
    exact Nat.and_two_pow_sub_one_eq_mod _ 44

private theorem locate_eq (ram : Ram) {addr : UInt64} (canonical : s.Canonical addr) :
    Walk.locate ram c addr =
      Walk.find ram c.pagingMode addr s.levels (.ofNat (s.root c * 2 ^ 12)) := by
  rw [Walk.locate, if_pos ((canonical_iff known).2 canonical), levels_eq known,
    page_shiftLeft (toNat_rootPage known)]

private theorem locate_of_not_canonical (ram : Ram) {addr : UInt64} (stray : ¬ s.Canonical addr) :
    Walk.locate ram c addr = .error .invalid := by
  rw [Walk.locate, if_neg (fun accepted => stray ((canonical_iff known).1 accepted))]

private theorem explains_locate (ram : Ram) {addr : UInt64} (canonical : s.Canonical addr) :
    s.Explains ram addr (s.root c) (Walk.locate ram c addr) := by
  rw [locate_eq known ram canonical]
  exact Reaches.explains_find known .root

/-- A walk succeeds with an address exactly if a leaf maps its own address to it. -/
private theorem run_eq_ok_iff {ram : Ram} {addr : UInt64} {kind : AccessKind} {mode : Privilege}
    {p : Nat} : (∃ w, Walk.run ram c addr kind mode = .ok w ∧ w.paddr.toNat = p) ↔
      s.Canonical addr ∧ ∃ level table entry,
        s.Maps ram c addr kind mode level table entry ∧ s.paddr addr level entry = p := by
  constructor
  · rintro ⟨w, walked, rfl⟩
    obtain ⟨l, found, granted, rfl⟩ := Walk.run_eq_ok.1 walked
    obtain ⟨permitted, aligned⟩ := Bool.and_eq_true_iff.1 granted
    have inside : l.level < s.levels := levels_eq known ▸ (Walk.locate_eq_ok found).1
    by_cases canonical : s.Canonical addr
    · have explained := explains_locate known ram canonical
      rw [found] at explained
      obtain ⟨table, ends⟩ := explained
      obtain ⟨openTo, takes⟩ := Pte.permits_iff.1 permitted
      have aligned := (isAligned_iff known inside).1 aligned
      exact ⟨canonical, l.level, table, l.entry, ⟨ends, openTo, takes, aligned⟩,
        (toNat_leafPaddr known addr inside aligned).symm⟩
    · rw [locate_of_not_canonical known ram canonical] at found
      contradiction
  · rintro ⟨canonical, level, table, entry, maps, rfl⟩
    have inside := maps.reached.le_levels
    have found := maps.find_eq known
    rw [← locate_eq known ram canonical] at found
    have granted : Walk.Leaf.grants ⟨s.entryAddr addr level table, entry, level⟩ c kind mode :=
      Bool.and_eq_true_iff.2 ⟨Pte.permits_iff.2 ⟨maps.openTo, maps.takes⟩,
        (isAligned_iff known inside).2 maps.aligned⟩
    exact ⟨_, Walk.run_eq_ok.2 ⟨_, found, granted, rfl⟩,
      toNat_leafPaddr known addr inside maps.aligned⟩

private theorem run_eq_access_iff {ram : Ram} {addr : UInt64} {kind : AccessKind}
    {mode : Privilege} : Walk.run ram c addr kind mode = .error (.access kind addr) ↔
      s.Canonical addr ∧ s.Escapes ram addr (s.root c) := by
  rw [Walk.run_eq_finish]
  constructor
  · intro failed
    cases found : Walk.locate ram c addr with
    | ok l =>
      rw [found, Walk.finish] at failed
      split at failed <;> simp at failed
    | error d =>
      rw [found, Walk.finish] at failed
      cases d with
      | invalid => simp [Walk.Defect.fault] at failed
      | outside =>
        by_cases canonical : s.Canonical addr
        · have explained := explains_locate known ram canonical
          rw [found] at explained
          exact ⟨canonical, explained⟩
        · rw [locate_of_not_canonical known ram canonical] at found
          cases found
  · rintro ⟨canonical, escapes⟩
    rw [locate_eq known ram canonical, escapes.find_eq known]
    rfl

end Walks

end PagingScheme

namespace Walk

/-- The walk implements the schemes. It succeeds with the address that a leaf on the way of its
address maps it to; it reports an access fault if the way leaves memory; in every other case it
reports a page fault. All addresses of a leaf are moved by the same distance. -/
theorem run_implements {s : PagingScheme} {c : CsrFile} (known : c.pagingMode.scheme? = some s)
    (ram : Ram) (addr : UInt64) (kind : AccessKind) (mode : Privilege) :
    (∀ p : Nat, (∃ w, run ram c addr kind mode = .ok w ∧ w.paddr.toNat = p) ↔
      s.Canonical addr ∧ ∃ level table entry,
        s.Maps ram c addr kind mode level table entry ∧ s.paddr addr level entry = p) ∧
    (run ram c addr kind mode = .error (.access kind addr) ↔
      s.Canonical addr ∧ s.Escapes ram addr (s.root c)) ∧
    ((∃ w, run ram c addr kind mode = .ok w) ∨
      run ram c addr kind mode = .error (.access kind addr) ∨
      run ram c addr kind mode = .error (.page kind addr)) ∧
    (∀ level table entry, s.Canonical addr → s.Maps ram c addr kind mode level table entry →
      ∀ other : UInt64, addr.toNat / 2 ^ s.pageBits level = other.toNat / 2 ^ s.pageBits level →
        ∃ v w, run ram c addr kind mode = .ok v ∧ run ram c other kind mode = .ok w ∧
          w.paddr.toNat + addr.toNat = v.paddr.toNat + other.toNat) := by
  refine ⟨fun p => PagingScheme.run_eq_ok_iff known, PagingScheme.run_eq_access_iff known, ?_, ?_⟩
  · cases answer : run ram c addr kind mode with
    | ok w => exact .inl ⟨w, rfl⟩
    | error f =>
      right
      obtain ⟨d, rfl⟩ := run_eq_error answer
      cases d with
      | outside => exact .inl rfl
      | invalid => exact .inr rfl
  · intro level table entry canonical maps other near
    have beside := canonical.of_near near known maps.reached.le_levels
    obtain ⟨v, walked, v_addr⟩ := (PagingScheme.run_eq_ok_iff known).2
      ⟨canonical, level, table, entry, maps, rfl⟩
    obtain ⟨w, reached, w_addr⟩ := (PagingScheme.run_eq_ok_iff known).2
      ⟨beside, level, table, entry, maps.of_near near, rfl⟩
    refine ⟨v, w, walked, reached, ?_⟩
    have addr_parts := Nat.div_add_mod addr.toNat (2 ^ s.pageBits level)
    have other_parts := Nat.div_add_mod other.toNat (2 ^ s.pageBits level)
    rw [near] at addr_parts
    rw [v_addr, w_addr, PagingScheme.paddr, PagingScheme.paddr]
    omega

/-- A page of 4 KiB behind a table that is its own parent. -/
theorem run_implements_smallPage :
    let ram : Ram := ⟨⟨#[0x01, 0, 0, 0x20, 0x0f, 0x8c, 0x04, 0x20]⟩⟩
    let c := { CsrFile.reset .rv32 with satp := 0x80080000, privilege := .supervisor }
    c.pagingMode.scheme? = some ⟨2, 10, .word, 22, none⟩ ∧
      ∃ w, run ram c 0x1abc .fetch .supervisor = .ok w ∧ w.paddr.toNat = 0x80123abc := by
  intro ram c
  have known : c.pagingMode.scheme? = some ⟨2, 10, .word, 22, none⟩ := by decide
  refine ⟨known, ((run_implements known ram 0x1abc .fetch .supervisor).1 0x80123abc).2 ?_⟩
  have pointer : PagingScheme.Holds ⟨2, 10, .word, 22, none⟩ ram 0x1abc 1 0x80000 0x20000001 := by
    decide
  have reached : PagingScheme.Reaches ⟨2, 10, .word, 22, none⟩ ram 0x1abc 0x80000 1 0x80000 :=
    .pointer .root pointer (by decide) (by decide)
  have root : PagingScheme.root ⟨2, 10, .word, 22, none⟩ c = 0x80000 := by decide
  refine ⟨nofun, 0, 0x80000, 0x20048c0f, ⟨⟨root ▸ reached, ?_, ?_, ?_⟩, ?_, ?_, ?_⟩, ?_⟩
  all_goals decide

end Walk

end RiscvBoard
