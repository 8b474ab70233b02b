import RiscvBoard.Paging.Translate
import RiscvBoard.Proofs.Bits
import RiscvBoard.Proofs.Paging.Walk
import RiscvBoard.Proofs.Ram

/-!
The accessed and dirty bits of page table entries. They are the only thing that a translation writes
to memory, and a walk finds the same leaf whether they are set or not. Entries are aligned to their
size, so that the marks of one entry never lie inside another one.
-/

set_option autoImplicit false

namespace RiscvBoard

namespace Pte

def marks : UInt64 :=
  accessed ||| dirty

def marksOf : AccessKind → UInt64
  | .store => accessed ||| dirty
  | _ => accessed

private theorem marksOf_within (kind : AccessKind) : Within marks (marksOf kind) := by
  cases kind <;> decide

private theorem touch_eq (entry : UInt64) (kind : AccessKind) :
    touch entry kind = entry ||| marksOf kind := by
  cases kind with
  | store => exact UInt64.or_assoc _ _ _
  | fetch => rfl
  | load => rfl

private theorem touch_or (entry bits : UInt64) (kind : AccessKind) :
    touch (entry ||| bits) kind = touch entry kind ||| bits := by
  rw [touch_eq, touch_eq, UInt64.or_assoc, UInt64.or_comm bits, ← UInt64.or_assoc]

section Marked

variable {bits : UInt64} (inside : Within marks bits)
include inside

private theorem has_or (entry : UInt64) {asked : UInt64} (disjoint : marks &&& asked = 0) :
    has (entry ||| bits) asked = has entry asked := by
  simp only [has, inside.or_and disjoint]

private theorem or_shiftRight (entry : UInt64) {shift : UInt64} (high : 8 ≤ shift.toNat)
    (small : shift.toNat < 64) : (entry ||| bits) >>> shift = entry >>> shift := by
  have low : bits.toNat < 2 ^ 8 := by
    rw [← inside.and_eq, UInt64.toNat_and]
    exact Nat.lt_of_le_of_lt Nat.and_le_right (by decide)
  have gone : bits.toNat / 2 ^ shift.toNat = 0 :=
    Nat.div_eq_of_lt (Nat.lt_of_lt_of_le low (Nat.pow_le_pow_right (by decide) high))
  apply UInt64.toNat_inj.1
  rw [UInt64.toNat_shiftRight, UInt64.toNat_shiftRight, UInt64.toNat_or, Nat.shiftRight_or_distrib,
    Nat.mod_eq_of_lt small, Nat.shiftRight_eq_div_pow bits.toNat, gone, Nat.or_zero]

private theorem isMalformed_or (paging : PagingMode) (entry : UInt64) :
    paging.isMalformed (entry ||| bits) = paging.isMalformed entry := by
  simp only [PagingMode.isMalformed, has_or inside entry (show marks &&& valid = 0 by decide),
    has_or inside entry (show marks &&& readable = 0 by decide),
    has_or inside entry (show marks &&& writable = 0 by decide),
    or_shiftRight inside entry (show 8 ≤ (54 : UInt64).toNat by decide) (by decide)]

private theorem isPointer_or (entry : UInt64) : isPointer (entry ||| bits) = isPointer entry := by
  have visible : marks &&& (readable ||| executable) = 0 := by decide
  simp only [isPointer, has_or inside entry visible]

private theorem entryPage_or (paging : PagingMode) (entry : UInt64) :
    paging.entryPage (entry ||| bits) = paging.entryPage entry := by
  have upper := or_shiftRight inside entry (show 8 ≤ (10 : UInt64).toNat by decide) (by decide)
  cases paging <;> simp only [PagingMode.entryPage, upper]

theorem permits_or (entry : UInt64) (kind : AccessKind) (mode : Privilege) (c : CsrFile) :
    permits (entry ||| bits) kind mode c = permits entry kind mode c := by
  simp only [permits, has_or inside entry (show marks &&& user = 0 by decide),
    has_or inside entry (show marks &&& readable = 0 by decide),
    has_or inside entry (show marks &&& writable = 0 by decide),
    has_or inside entry (show marks &&& executable = 0 by decide)]

end Marked

end Pte

/-- Memory whose table entries of the given width may have got marks. The first byte of an entry
has the marks, and lies at a multiple of the width. -/
structure Marking (width : Width) (before after : Ram) : Prop where
  size : after.size = before.size
  byteAt (i : Nat) : after.byteAt i = before.byteAt i ∨
    i % width.bytes = 0 ∧ ∃ bits : UInt8, bits &&& 0x3f = 0 ∧
      after.byteAt i = before.byteAt i ||| bits

private theorem marks_of_byte {bits : UInt8} (high : bits &&& 0x3f = 0) :
    Within Pte.marks bits.toUInt64 := by
  have small : bits.toUInt64 &&& 0xff = bits.toUInt64 := by
    rw [← UInt64.toNat_inj, UInt64.toNat_and, UInt8.toNat_toUInt64]
    exact (Nat.and_two_pow_sub_one_eq_mod _ 8).trans (Nat.mod_eq_of_lt bits.toNat_lt)
  have low := congrArg UInt8.toUInt64 high
  rw [UInt8.toUInt64_and] at low
  rw [Within, ← small, UInt64.and_assoc]
  exact low

private theorem offset_aligned (width : Width) {addr : UInt64}
    (aligned : addr.toNat % width.bytes = 0) : Ram.offset addr % width.bytes = 0 := by
  have place : Ram.offset addr = (2 ^ 64 - 0x80000000 + addr.toNat) % 2 ^ 64 :=
    UInt64.toNat_sub addr Ram.base
  cases width <;> simp only [Width.bytes] at aligned ⊢ <;> omega

private theorem Marking.read {width : Width} {r s : Ram} (marking : Marking width r s)
    {addr : UInt64} (aligned : addr.toNat % width.bytes = 0) :
    ∃ bits, Within Pte.marks bits ∧ s.read addr width = r.read addr width ||| bits := by
  have start := offset_aligned width aligned
  obtain ⟨n, count⟩ : ∃ n, width.bytes = n + 1 := by cases width <;> exact ⟨_, rfl⟩
  have rest (j : Nat) (low : Ram.offset addr < j) (high : j < Ram.offset addr + (n + 1)) :
      s.byteAt j = r.byteAt j := by
    obtain same | ⟨multiple, -⟩ := marking.byteAt j
    · exact same
    · cases width <;> simp only [Width.bytes] at * <;> omega
  unfold Ram.read
  rw [count]
  obtain same | ⟨-, bits, high, first⟩ := marking.byteAt (Ram.offset addr)
  · have none : (0 : UInt8) &&& 0x3f = 0 := by decide
    exact ⟨_, marks_of_byte none, r.readAt_or_first s _ n 0 (by simp [same]) rest⟩
  · exact ⟨_, marks_of_byte high, r.readAt_or_first s _ n bits first rest⟩

private theorem Marking.load {width : Width} {r s : Ram} (marking : Marking width r s)
    {addr : UInt64} (aligned : addr.toNat % width.bytes = 0) :
    ∃ bits, Within Pte.marks bits ∧
      s.load addr width = (r.load addr width).map (· ||| bits) := by
  obtain ⟨bits, inside, value⟩ := marking.read aligned
  refine ⟨bits, inside, ?_⟩
  unfold Ram.load Ram.contains
  rw [marking.size, value]
  split <;> rfl

namespace Walk

def Leaf.mark (l : Leaf) (bits : UInt64) : Leaf :=
  { l with entry := l.entry ||| bits }

def mark (w : Walk) (bits : UInt64) : Walk :=
  let touched := w.update.getD w.leaf ||| bits
  { w with
    leaf := w.leaf ||| bits
    update := if touched = w.leaf ||| bits then none else some touched }

theorem mark_update_of_none {w : Walk} (done : w.update = none) (bits : UInt64) :
    (w.mark bits).update = none := by
  simp [mark, done]

def touched (w : Walk) : UInt64 :=
  w.update.getD w.leaf

private theorem touched_walk (l : Leaf) (paging : PagingMode) (addr : UInt64) (kind : AccessKind) :
    (l.walk paging addr kind).touched = Pte.touch l.entry kind := by
  unfold touched Leaf.walk
  split
  · exact Eq.symm ‹_›
  · rfl

private theorem walk_mark (l : Leaf) (paging : PagingMode) (addr : UInt64) (kind : AccessKind)
    {bits : UInt64} (inside : Within Pte.marks bits) :
    (l.mark bits).walk paging addr kind = (l.walk paging addr kind).mark bits := by
  have all := touched_walk l paging addr kind
  unfold touched at all
  simp only [mark, all, ← Pte.touch_or]
  simp only [Leaf.walk, Leaf.mark, Leaf.paddr, Pte.entryPage_or inside]
  rfl

private theorem find_marking {paging : PagingMode} {r s : Ram}
    (marking : Marking paging.entryWidth r s)
    (addr : UInt64) (n : Nat) {table : UInt64} (aligned : table.toNat % 8 = 0) :
    ∃ bits, Within Pte.marks bits ∧
      find s paging addr n table = (find r paging addr n table).map (·.mark bits) := by
  induction n generalizing table with
  | zero => exact ⟨0, Within.zero _, rfl⟩
  | succ level ih =>
    have place := entryAddr_aligned paging table addr level aligned
    obtain ⟨bits, inside, loaded⟩ := marking.load place
    simp only [find, loaded]
    cases r.load (paging.entryAddr table addr level) paging.entryWidth with
    | error f => exact ⟨0, Within.zero _, rfl⟩
    | ok entry =>
      simp only [Except.map, Pte.isMalformed_or inside, Pte.isPointer_or inside,
        Pte.entryPage_or inside]
      split
      · exact ⟨0, Within.zero _, rfl⟩
      split
      · exact ih (page_aligned _)
      · exact ⟨bits, inside, rfl⟩

private theorem locate_marking {c : CsrFile} {r s : Ram}
    (marking : Marking c.pagingMode.entryWidth r s) (addr : UInt64) :
    ∃ bits, Within Pte.marks bits ∧ locate s c addr = (locate r c addr).map (·.mark bits) := by
  unfold locate
  split
  · exact find_marking marking addr _ (page_aligned _)
  · exact ⟨0, Within.zero _, rfl⟩

/-- Marks in the page tables leave every walk as it is, but for the marks of its leaf. -/
theorem run_marking {c : CsrFile} {r s : Ram} (marking : Marking c.pagingMode.entryWidth r s)
    (addr : UInt64) (kind : AccessKind) (mode : Privilege) :
    ∃ bits, Within Pte.marks bits ∧
      run s c addr kind mode = (run r c addr kind mode).map (·.mark bits) := by
  obtain ⟨bits, inside, found⟩ := locate_marking marking addr
  refine ⟨bits, inside, ?_⟩
  rw [run_eq_finish, run_eq_finish, found]
  cases locate r c addr with
  | error d => rfl
  | ok l =>
    have same : (l.mark bits).grants c kind mode = l.grants c kind mode := by
      simp only [Leaf.grants, Leaf.mark, Pte.permits_or inside, Pte.entryPage_or inside]
    simp only [finish, Except.map, same, walk_mark _ _ _ _ inside]
    split <;> rfl

theorem run_marking_ok {c : CsrFile} {r s : Ram} (marking : Marking c.pagingMode.entryWidth r s)
    {addr : UInt64} {kind : AccessKind} {mode : Privilege} {w : Walk}
    (walked : run r c addr kind mode = .ok w) :
    ∃ bits, Within Pte.marks bits ∧ run s c addr kind mode = .ok (w.mark bits) := by
  obtain ⟨bits, inside, same⟩ := run_marking marking addr kind mode
  exact ⟨bits, inside, by rw [same, walked]; rfl⟩

theorem run_marking_leafAddr {c : CsrFile} {r s : Ram}
    (marking : Marking c.pagingMode.entryWidth r s) {addr : UInt64} {kind : AccessKind}
    {mode : Privilege} {v : Walk} (walked : run s c addr kind mode = .ok v) :
    ∃ w, run r c addr kind mode = .ok w ∧ w.leafAddr = v.leafAddr := by
  obtain ⟨bits, -, same⟩ := run_marking marking addr kind mode
  rw [walked] at same
  cases before : run r c addr kind mode with
  | error f => simp [before, Except.map] at same
  | ok w =>
    rw [before] at same
    obtain rfl := Except.ok.inj same
    exact ⟨w, rfl, rfl⟩

end Walk

/-- Whether an access of the hart reaches a leaf whose first byte is at a position of memory. -/
def LeafAt (c : CsrFile) (ram : Ram) (i : Nat) : Prop :=
  ∃ vaddr kind w, Mmu.isTranslated c kind ∧
    Walk.run ram c (c.xlen.truncate vaddr) kind (c.effectivePrivilege kind) = .ok w ∧
    Ram.offset w.leafAddr = i

/-- Memory in which leaves that accesses of the hart reach may have got marks, and which is the same
otherwise. -/
structure OnlyMarks (c : CsrFile) (before after : Ram) : Prop where
  size : after.size = before.size
  byteAt (i : Nat) : after.byteAt i = before.byteAt i ∨
    LeafAt c before i ∧ ∃ bits : UInt8, bits &&& 0x3f = 0 ∧
      after.byteAt i = before.byteAt i ||| bits

namespace OnlyMarks

variable {c : CsrFile} {r s t : Ram}

theorem refl (c : CsrFile) (r : Ram) : OnlyMarks c r r :=
  ⟨rfl, fun _ => .inl rfl⟩

theorem marking (only : OnlyMarks c r s) : Marking c.pagingMode.entryWidth r s := by
  refine ⟨only.size, fun i => ?_⟩
  obtain same | ⟨⟨vaddr, kind, w, -, walked, rfl⟩, marked⟩ := only.byteAt i
  · exact .inl same
  · obtain ⟨l, found, -, rfl⟩ := Walk.run_eq_ok.1 walked
    exact .inr ⟨offset_aligned _ (Walk.locate_eq_ok found).2.1, marked⟩

private theorem leafAt (only : OnlyMarks c r s) {i : Nat} (leaf : LeafAt c s i) : LeafAt c r i := by
  obtain ⟨vaddr, kind, w, translated, walked, rfl⟩ := leaf
  obtain ⟨v, before, same⟩ := Walk.run_marking_leafAddr only.marking walked
  exact ⟨vaddr, kind, v, translated, before, by rw [same]⟩

private theorem high_or {a b : UInt8} (first : a &&& 0x3f = 0) (second : b &&& 0x3f = 0) :
    (a ||| b) &&& 0x3f = 0 := by
  rw [← UInt8.toBitVec_inj] at first second ⊢
  ext i inside
  have left := congrArg (fun x : BitVec 8 => x[i]) first
  have right := congrArg (fun x : BitVec 8 => x[i]) second
  simp only [UInt8.toBitVec_and, UInt8.toBitVec_or, BitVec.getElem_and, BitVec.getElem_or] at *
  rw [Bool.and_or_distrib_right, left, right, Bool.or_self]

theorem trans (first : OnlyMarks c r s) (second : OnlyMarks c s t) : OnlyMarks c r t := by
  refine ⟨second.size.trans first.size, fun i => ?_⟩
  obtain before | ⟨leaf, bits, high, before⟩ := first.byteAt i <;>
    obtain after | ⟨leaf', bits', high', after⟩ := second.byteAt i <;>
      rw [before] at after
  · exact .inl after
  · exact .inr ⟨first.leafAt leaf', bits', high', after⟩
  · exact .inr ⟨leaf, bits, high, after⟩
  · exact .inr ⟨leaf, bits ||| bits', high_or high high', by rw [after, UInt8.or_assoc]⟩

end OnlyMarks

namespace Walk

theorem leaf_of_run {ram : Ram} {c : CsrFile} {addr : UInt64} {kind : AccessKind}
    {mode : Privilege} {w : Walk} (walked : run ram c addr kind mode = .ok w) :
    w.leafAddr.toNat % c.pagingMode.entryWidth.bytes = 0 ∧
      ram.load w.leafAddr c.pagingMode.entryWidth = .ok w.leaf ∧
      w.touched = w.leaf ||| Pte.marksOf kind ∧ (w.update = none → w.touched = w.leaf) := by
  obtain ⟨l, found, -, rfl⟩ := run_eq_ok.1 walked
  obtain ⟨-, aligned, loaded⟩ := locate_eq_ok found
  refine ⟨aligned, loaded, ?_, ?_⟩
  · rw [touched_walk, Pte.touch_eq]
    rfl
  · intro done
    simp only [touched, done, Option.getD_none]

end Walk

namespace Mmu

section Update

variable {c : CsrFile} {ram : Ram} {addr : UInt64} {kind : AccessKind} {mode : Privilege} {w : Walk}
  (walked : Walk.run ram c addr kind mode = .ok w)
include walked

private theorem leaf_first_byte :
    ∃ n, c.pagingMode.entryWidth.bytes = n + 1 ∧ n < 8 ∧
      ram.contains w.leafAddr (n + 1) ∧
      ram.readAt (Ram.offset w.leafAddr) (n + 1) = w.leaf ∧
      ram.byteAt (Ram.offset w.leafAddr) = w.leaf.toUInt8 := by
  obtain ⟨n, count, short⟩ : ∃ n, c.pagingMode.entryWidth.bytes = n + 1 ∧ n < 8 := by
    cases c.pagingMode.entryWidth <;> exact ⟨_, rfl, by decide⟩
  have loaded := (Walk.leaf_of_run walked).2.1
  unfold Ram.load Ram.read at loaded
  rw [count] at loaded
  split at loaded
  next within =>
    have content := Except.ok.inj loaded
    exact ⟨n, count, short, within, content, by rw [← content, Ram.readAt_succ_toUInt8 _ _ short]⟩
  · contradiction

theorem updateLeaf_eq_setByteAt :
    updateLeaf ram c (.walked addr (.ok w)) =
      ram.setByteAt (Ram.offset w.leafAddr)
        (ram.byteAt (Ram.offset w.leafAddr) ||| (Pte.marksOf kind).toUInt8) := by
  obtain ⟨n, count, short, -, content, first⟩ := leaf_first_byte walked
  obtain ⟨-, -, marked, done⟩ := Walk.leaf_of_run walked
  have byte : w.touched.toUInt8 =
      ram.byteAt (Ram.offset w.leafAddr) ||| (Pte.marksOf kind).toUInt8 := by
    rw [marked, UInt64.toUInt8_or, first]
  rw [← byte]
  cases update : w.update with
  | none =>
    simp only [updateLeaf, update]
    rw [done update, ← first, Ram.setByteAt_byteAt]
  | some value =>
    have same : w.touched = value := by simp only [Walk.touched, update, Option.getD_some]
    have upper : value >>> 8 = w.leaf >>> 8 := by
      rw [← same, marked]
      exact Pte.or_shiftRight (Pte.marksOf_within kind) w.leaf (by decide) (by decide)
    simp only [updateLeaf, update, Ram.write]
    rw [count, same, Ram.writeAt_eq_setByteAt ram _ value short (by rw [content, upper])]

theorem updateLeaf_byteAt (i : Nat) :
    (updateLeaf ram c (.walked addr (.ok w))).byteAt i = ram.byteAt i ∨
      Ram.offset w.leafAddr = i ∧
        (updateLeaf ram c (.walked addr (.ok w))).byteAt i =
          ram.byteAt i ||| (Pte.marksOf kind).toUInt8 := by
  rw [updateLeaf_eq_setByteAt walked, Ram.byteAt_setByteAt]
  split
  next here => exact .inr ⟨here.1, by rw [here.1]⟩
  · exact .inl rfl

private theorem updateLeaf_size : (updateLeaf ram c (.walked addr (.ok w))).size = ram.size := by
  rw [updateLeaf_eq_setByteAt walked, Ram.size_setByteAt]

private theorem updateLeaf_marking :
    Marking c.pagingMode.entryWidth ram (updateLeaf ram c (.walked addr (.ok w))) := by
  refine ⟨updateLeaf_size walked, fun i => ?_⟩
  obtain same | ⟨rfl, marked⟩ := updateLeaf_byteAt walked i
  · exact .inl same
  · have aligned := offset_aligned _ (Walk.leaf_of_run walked).1
    exact .inr ⟨aligned, _, by cases kind <;> decide, marked⟩

theorem load_updateLeaf :
    (updateLeaf ram c (.walked addr (.ok w))).load w.leafAddr c.pagingMode.entryWidth =
      .ok w.touched := by
  obtain ⟨n, count, short, within, content, -⟩ := leaf_first_byte walked
  have place : Ram.offset w.leafAddr < ram.size := by
    have bound := of_decide_eq_true (Bool.and_eq_true_iff.1 within).2
    omega
  have first := Ram.byteAt_setByteAt ram (Ram.offset w.leafAddr) (Ram.offset w.leafAddr)
    (ram.byteAt (Ram.offset w.leafAddr) ||| (Pte.marksOf kind).toUInt8)
  rw [if_pos ⟨rfl, place⟩, ← updateLeaf_eq_setByteAt walked] at first
  have value := ram.readAt_or_first _ _ n _ first fun j low high => by
    rw [updateLeaf_eq_setByteAt walked, Ram.byteAt_setByteAt_of_ne _ _ (by omega)]
  have wide : (Pte.marksOf kind).toUInt8.toUInt64 = Pte.marksOf kind := by cases kind <;> rfl
  have size := updateLeaf_size walked
  rw [content, wide, ← (Walk.leaf_of_run walked).2.2.1] at value
  unfold Ram.load Ram.read
  rw [count, value]
  unfold Ram.contains at within ⊢
  rw [size, if_pos within]

/-- After its leaf was touched, a walk finds the leaf as it was left. -/
theorem run_updateLeaf :
    Walk.run (updateLeaf ram c (.walked addr (.ok w))) c addr kind mode =
      .ok { w with leaf := w.touched, update := none } := by
  obtain ⟨bits, -, after⟩ := Walk.run_marking_ok (updateLeaf_marking walked) walked
  have leaf : w.leaf ||| bits = w.touched :=
    Except.ok.inj ((Walk.leaf_of_run after).2.1.symm.trans (load_updateLeaf walked))
  have touched := (Walk.leaf_of_run walked).2.2.1
  have again : w.touched ||| bits = w.touched := by
    rw [← leaf, UInt64.or_assoc, UInt64.or_self]
  rw [after]
  unfold Walk.mark
  unfold Walk.touched at leaf again ⊢
  simp only [again, leaf, if_true]

end Update

/-- A translation writes marks at most. -/
theorem updateLeaf_onlyMarks (u : Mmu) (ram : Ram) (c : CsrFile) (vaddr : UInt64)
    (kind : AccessKind) : OnlyMarks c ram (updateLeaf ram c (u.plan ram c vaddr kind)) := by
  by_cases translated : isTranslated c kind
  · simp only [plan, if_pos translated]
    cases u.cached? c (c.xlen.truncate vaddr) kind with
    | some entry => exact .refl c ram
    | none =>
      cases walked : Walk.run ram c (c.xlen.truncate vaddr) kind (c.effectivePrivilege kind) with
      | error f => exact .refl c ram
      | ok w =>
        refine ⟨updateLeaf_size walked, fun i => ?_⟩
        obtain same | ⟨place, marked⟩ := updateLeaf_byteAt walked i
        · exact .inl same
        · have leaf : LeafAt c ram i := ⟨vaddr, kind, w, translated, walked, place⟩
          exact .inr ⟨leaf, _, by cases kind <;> decide, marked⟩
  · simp only [plan, if_neg translated]
    exact .refl c ram

theorem updateLeaf_of_fault {u : Mmu} {ram : Ram} {c : CsrFile} {vaddr : UInt64}
    {kind : AccessKind} {f : MemFault} (failed : (u.plan ram c vaddr kind).result = .error f) :
    updateLeaf ram c (u.plan ram c vaddr kind) = ram := by
  cases planned : u.plan ram c vaddr kind with
  | identity addr => rfl
  | cached result => rfl
  | walked addr result =>
    cases result with
    | error g => rfl
    | ok w =>
      rw [planned] at failed
      contradiction

end Mmu

end RiscvBoard
