import Mathlib.Tactic.IntervalCases
import RiscvBoard.Paging.Walk

/-!
The page table walk in two parts. The search for the leaf reads memory and looks at nothing but the
paging mode and the page of the address; the check of the leaf looks at the access and at the
permission settings and reads no memory.
-/

set_option autoImplicit false

namespace RiscvBoard

theorem toNat_pageOffset (addr : UInt64) : (pageOffset addr).toNat = addr.toNat % 2 ^ 12 :=
  Nat.and_two_pow_sub_one_eq_mod _ 12

namespace Walk

inductive Defect where
  /-- A table entry lies outside memory. -/
  | outside
  /-- A table entry is malformed, or the last table holds one more pointer. -/
  | invalid
  deriving DecidableEq

def Defect.fault (kind : AccessKind) (addr : UInt64) : Defect → MemFault
  | outside => .access kind addr
  | invalid => .page kind addr

structure Leaf where
  addr : UInt64
  entry : UInt64
  level : Nat

def find (ram : Ram) (paging : PagingMode) (addr : UInt64) : Nat → UInt64 → Except Defect Leaf
  | 0, _ => .error .invalid
  | level + 1, table =>
    let entryAddr := paging.entryAddr table addr level
    match ram.load entryAddr paging.entryWidth with
    | .error _ => .error .outside
    | .ok entry =>
      if paging.isMalformed entry then .error .invalid
      else if Pte.isPointer entry then
        find ram paging addr level (paging.entryPage entry <<< pageShift)
      else .ok ⟨entryAddr, entry, level⟩

def Leaf.paddr (l : Leaf) (paging : PagingMode) (addr : UInt64) : UInt64 :=
  let mask := paging.offsetMask l.level
  ((paging.entryPage l.entry <<< pageShift) &&& ~~~mask) ||| (addr &&& mask)

def Leaf.grants (l : Leaf) (c : CsrFile) (kind : AccessKind) (mode : Privilege) : Bool :=
  Pte.permits l.entry kind mode c &&
    c.pagingMode.isAligned (c.pagingMode.entryPage l.entry) l.level

def Leaf.walk (l : Leaf) (paging : PagingMode) (addr : UInt64) (kind : AccessKind) : Walk where
  paddr := l.paddr paging addr
  leaf := l.entry
  leafAddr := l.addr
  update := if Pte.touch l.entry kind = l.entry then none else some (Pte.touch l.entry kind)

def finish (c : CsrFile) (addr : UInt64) (kind : AccessKind) (mode : Privilege) :
    Except Defect Leaf → Except MemFault Walk
  | .error d => .error (d.fault kind addr)
  | .ok l =>
    if l.grants c kind mode then .ok (l.walk c.pagingMode addr kind) else .error (.page kind addr)

private theorem descend_eq_finish (ram : Ram) (c : CsrFile) (addr : UInt64) (kind : AccessKind)
    (mode : Privilege) (n : Nat) (table : UInt64) :
    descend ram c addr kind mode n table =
      finish c addr kind mode (find ram c.pagingMode addr n table) := by
  induction n generalizing table with
  | zero => rfl
  | succ level ih =>
    simp only [descend, find]
    cases ram.load (c.pagingMode.entryAddr table addr level) c.pagingMode.entryWidth with
    | error f => rfl
    | ok entry =>
      by_cases malformed : c.pagingMode.isMalformed entry
      · simp only [if_pos malformed]
        rfl
      simp only [if_neg malformed]
      by_cases pointer : Pte.isPointer entry
      · simp only [if_pos pointer]
        exact ih _
      simp only [if_neg pointer]
      cases permitted : Pte.permits entry kind mode c <;>
        cases aligned : c.pagingMode.isAligned (c.pagingMode.entryPage entry) level <;>
          simp [finish, Leaf.grants, Leaf.walk, Leaf.paddr, permitted, aligned]

def locate (ram : Ram) (c : CsrFile) (addr : UInt64) : Except Defect Leaf :=
  if c.pagingMode.isCanonical addr then
    find ram c.pagingMode addr c.pagingMode.levels (c.rootPage <<< pageShift)
  else .error .invalid

theorem run_eq_finish (ram : Ram) (c : CsrFile) (addr : UInt64) (kind : AccessKind)
    (mode : Privilege) :
    run ram c addr kind mode = finish c addr kind mode (locate ram c addr) := by
  unfold run locate
  split
  · exact descend_eq_finish _ _ _ _ _ _ _
  · rfl

private theorem finish_eq_ok {c : CsrFile} {addr : UInt64} {kind : AccessKind} {mode : Privilege}
    {found : Except Defect Leaf} {w : Walk} :
    finish c addr kind mode found = .ok w ↔
      ∃ l, found = .ok l ∧ l.grants c kind mode ∧ l.walk c.pagingMode addr kind = w := by
  cases found with
  | error d => simp [finish]
  | ok l =>
    simp only [finish]
    split <;> simp_all

/-- A walk succeeds when its search ends at a leaf that grants the access. -/
theorem run_eq_ok {ram : Ram} {c : CsrFile} {addr : UInt64} {kind : AccessKind} {mode : Privilege}
    {w : Walk} :
    run ram c addr kind mode = .ok w ↔
      ∃ l, locate ram c addr = .ok l ∧ l.grants c kind mode ∧
        l.walk c.pagingMode addr kind = w := by
  rw [run_eq_finish, finish_eq_ok]

theorem run_eq_error {ram : Ram} {c : CsrFile} {addr : UInt64} {kind : AccessKind}
    {mode : Privilege} {f : MemFault} (failed : run ram c addr kind mode = .error f) :
    ∃ d : Defect, f = d.fault kind addr := by
  rw [run_eq_finish] at failed
  cases found : locate ram c addr with
  | error d =>
    rw [found] at failed
    exact ⟨d, (Except.error.inj failed).symm⟩
  | ok l =>
    simp only [found, finish] at failed
    split at failed
    · contradiction
    · exact ⟨.invalid, (Except.error.inj failed).symm⟩

/-! ### The place of a leaf -/

theorem entryAddr_aligned (paging : PagingMode) (table addr : UInt64) (level : Nat)
    (aligned : table.toNat % 8 = 0) :
    (paging.entryAddr table addr level).toNat % paging.entryWidth.bytes = 0 := by
  cases paging <;>
    simp only [PagingMode.entryAddr, PagingMode.entryWidth, Width.bytes, UInt64.toNat_add,
      UInt64.toNat_mul] <;>
    simp <;> omega

theorem page_aligned (page : UInt64) : (page <<< pageShift).toNat % 8 = 0 := by
  simp only [pageShift, UInt64.toNat_shiftLeft, Nat.shiftLeft_eq]
  simp
  omega

private theorem find_eq_ok {ram : Ram} {paging : PagingMode} {addr : UInt64} {n : Nat}
    {table : UInt64}
    {l : Leaf} (aligned : table.toNat % 8 = 0) (found : find ram paging addr n table = .ok l) :
    l.level < n ∧ l.addr.toNat % paging.entryWidth.bytes = 0 ∧
      ram.load l.addr paging.entryWidth = .ok l.entry := by
  induction n generalizing table with
  | zero => simp [find] at found
  | succ level ih =>
    simp only [find] at found
    cases loaded : ram.load (paging.entryAddr table addr level) paging.entryWidth with
    | error f => simp [loaded] at found
    | ok entry =>
      simp only [loaded] at found
      split at found
      · contradiction
      split at found
      · obtain ⟨low, place, content⟩ := ih (page_aligned _) found
        exact ⟨by omega, place, content⟩
      · obtain rfl := Except.ok.inj found
        exact ⟨Nat.lt_succ_self level, entryAddr_aligned paging table addr level aligned, loaded⟩

theorem locate_eq_ok {ram : Ram} {c : CsrFile} {addr : UInt64} {l : Leaf}
    (found : locate ram c addr = .ok l) :
    l.level < c.pagingMode.levels ∧ l.addr.toNat % c.pagingMode.entryWidth.bytes = 0 ∧
      ram.load l.addr c.pagingMode.entryWidth = .ok l.entry := by
  unfold locate at found
  split at found
  · exact find_eq_ok (page_aligned _) found
  · contradiction

/-! ### Addresses of one page -/

private theorem levelShift_range (paging : PagingMode) {level : Nat}
    (inside : level < paging.levels) :
    12 ≤ (paging.levelShift level).toNat ∧ (paging.levelShift level).toNat < 64 := by
  cases paging <;> simp only [PagingMode.levels] at inside <;> interval_cases level <;> decide

private theorem shiftRight_of_page {addr other : UInt64} (page : addr >>> 12 = other >>> 12)
    (shift : UInt64) (low : 12 ≤ shift.toNat) (high : shift.toNat < 64) :
    addr >>> shift = other >>> shift := by
  have split (x : UInt64) : (x >>> shift).toNat = (x >>> 12).toNat / 2 ^ (shift.toNat - 12) := by
    have power : 2 ^ shift.toNat = 2 ^ 12 * 2 ^ (shift.toNat - 12) := by
      rw [← Nat.pow_add]
      congr 1
      omega
    simp only [UInt64.toNat_shiftRight, Nat.shiftRight_eq_div_pow, Nat.mod_eq_of_lt high, power,
      Nat.div_div_eq_div_mul]
    rfl
  apply UInt64.toNat_inj.1
  rw [split, split, page]

private theorem index_of_page (paging : PagingMode) {addr other : UInt64}
    (page : addr >>> 12 = other >>> 12) {level : Nat} (inside : level < paging.levels) :
    paging.index addr level = paging.index other level := by
  obtain ⟨low, high⟩ := levelShift_range paging inside
  simp only [PagingMode.index, shiftRight_of_page page _ low high]

private theorem bit_of_page {addr other : UInt64} (page : addr >>> 12 = other >>> 12) {i : Nat}
    (upper : 12 ≤ i) : addr.toBitVec.getLsbD i = other.toBitVec.getLsbD i := by
  have bit := congrArg (fun x : UInt64 => x.toBitVec.getLsbD (i - 12)) page
  simpa [show 12 + (i - 12) = i by omega] using bit

theorem signExtended_iff (x : BitVec 64) {unused : Nat} (small : unused < 64) :
    (x <<< unused).sshiftRight unused = x ↔
      ∀ i, 64 - unused ≤ i → i < 64 → x.getLsbD i = x.getLsbD (63 - unused) := by
  have bit (i : Nat) (inside : i < 64) : ((x <<< unused).sshiftRight unused).getLsbD i =
      if i < 64 - unused then x.getLsbD i else x.getLsbD (63 - unused) := by
    rw [BitVec.getLsbD_sshiftRight, BitVec.msb_eq_getLsbD_last, BitVec.getLsbD_shiftLeft,
      BitVec.getLsbD_shiftLeft]
    by_cases h : i < 64 - unused
    · simp [h, inside, show unused + i < 64 by omega, show ¬ 64 ≤ i by omega]
    · simp [h, show ¬ unused + i < 64 by omega, show ¬ 64 ≤ i by omega,
        show ¬ 63 < unused by omega]
  constructor
  · intro same i upper inside
    have copied := bit i inside
    rwa [same, if_neg (by omega)] at copied
  · intro upper
    apply BitVec.eq_of_getLsbD_eq
    intro i inside
    rw [bit i inside]
    split
    · rfl
    · exact (upper i (by omega) inside).symm

private theorem signExtended_of_page {addr other : UInt64} (page : addr >>> 12 = other >>> 12)
    {unused : Nat} (small : unused < 52)
    (extended : (addr.toBitVec <<< unused).sshiftRight unused = addr.toBitVec) :
    (other.toBitVec <<< unused).sshiftRight unused = other.toBitVec := by
  rw [signExtended_iff _ (by omega)] at extended ⊢
  intro i upper inside
  rw [← bit_of_page page (i := i) (by omega), ← bit_of_page page (i := 63 - unused) (by omega)]
  exact extended i upper inside

private theorem isCanonical_imp_of_page (paging : PagingMode) {addr other : UInt64}
    (page : addr >>> 12 = other >>> 12) (canonical : paging.isCanonical addr) :
    paging.isCanonical other := by
  cases paging with
  | bare => rfl
  | sv32 => rfl
  | sv39 =>
    have extended := UInt64.toBitVec_inj.2 (beq_iff_eq.1 canonical)
    exact beq_iff_eq.2 (UInt64.toBitVec_inj.1 (signExtended_of_page page (by decide) extended))
  | sv48 =>
    have extended := UInt64.toBitVec_inj.2 (beq_iff_eq.1 canonical)
    exact beq_iff_eq.2 (UInt64.toBitVec_inj.1 (signExtended_of_page page (by decide) extended))

private theorem isCanonical_of_page (paging : PagingMode) {addr other : UInt64}
    (page : addr >>> 12 = other >>> 12) : paging.isCanonical addr = paging.isCanonical other := by
  rw [Bool.eq_iff_iff]
  exact ⟨isCanonical_imp_of_page paging page, isCanonical_imp_of_page paging page.symm⟩

private theorem find_of_page (ram : Ram) (paging : PagingMode) {addr other : UInt64}
    (page : addr >>> 12 = other >>> 12) {n : Nat} (inside : n ≤ paging.levels) (table : UInt64) :
    find ram paging addr n table = find ram paging other n table := by
  induction n generalizing table with
  | zero => rfl
  | succ level ih =>
    have below : level < paging.levels := by omega
    simp only [find, PagingMode.entryAddr, index_of_page paging page below, ih (by omega)]

private theorem locate_of_page (ram : Ram) (c : CsrFile) {addr other : UInt64}
    (page : addr >>> 12 = other >>> 12) : locate ram c addr = locate ram c other := by
  unfold locate
  rw [isCanonical_of_page c.pagingMode page, find_of_page ram c.pagingMode page le_rfl]

private theorem getElem_pageMask {i : Nat} (inside : i < 64) :
    (4095#64)[i] = decide (i < 12) := by
  rw [← BitVec.getLsbD_eq_getElem, BitVec.getLsbD_ofNat, show 4095 = 2 ^ 12 - 1 from rfl,
    Nat.testBit_two_pow_sub_one]
  simp [inside]

private theorem offsetMask_page (paging : PagingMode) {level : Nat}
    (inside : level < paging.levels) : paging.offsetMask level &&& 0xfff = 0xfff := by
  cases paging <;> simp only [PagingMode.levels] at inside <;> interval_cases level <;> decide

private theorem paddr_of_page (l : Leaf) (paging : PagingMode) (inside : l.level < paging.levels)
    {addr other : UInt64} (page : addr >>> 12 = other >>> 12) :
    l.paddr paging other =
      ((l.paddr paging addr >>> pageShift) <<< pageShift) ||| pageOffset other := by
  have low := offsetMask_page paging inside
  unfold Leaf.paddr pageOffset pageShift
  generalize paging.offsetMask l.level = mask at low
  rw [← UInt64.toBitVec_inj] at low ⊢
  apply BitVec.eq_of_getLsbD_eq
  intro i inside
  have masked : (mask &&& 0xfff).toBitVec[i] = (4095#64)[i] := by rw [low]; rfl
  by_cases upper : 12 ≤ i
  · have same := bit_of_page page upper
    rw [BitVec.getLsbD_eq_getElem inside, BitVec.getLsbD_eq_getElem inside] at same
    simp [getElem_pageMask inside, upper, inside, same, show ¬ i < 12 by omega]
  · have masked : mask.toBitVec[i] = true := by
      simpa [getElem_pageMask inside, show i < 12 by omega] using masked
    simp [getElem_pageMask inside, inside, masked, show i < 12 by omega]

theorem run_of_page {ram : Ram} {c : CsrFile} {addr other : UInt64} {kind : AccessKind}
    {mode : Privilege} {w : Walk} (page : addr >>> 12 = other >>> 12)
    (walked : run ram c addr kind mode = .ok w) :
    run ram c other kind mode =
      .ok { w with paddr := ((w.paddr >>> pageShift) <<< pageShift) ||| pageOffset other } := by
  obtain ⟨l, found, granted, rfl⟩ := run_eq_ok.1 walked
  refine run_eq_ok.2 ⟨l, locate_of_page ram c page ▸ found, granted, ?_⟩
  have low := (locate_eq_ok found).1
  simp only [Leaf.walk, ← paddr_of_page l c.pagingMode low page]

/-! ### Permission settings -/

private theorem permits_congr (entry : UInt64) (kind : AccessKind) (mode : Privilege)
    {c d : CsrFile} (sum : c.statusBit Status.sum = d.statusBit Status.sum)
    (mxr : c.statusBit Status.mxr = d.statusBit Status.mxr) :
    Pte.permits entry kind mode c = Pte.permits entry kind mode d := by
  simp only [Pte.permits, sum, mxr]

section SameRoot

variable {c d : CsrFile} (xlen : c.xlen = d.xlen) (satp : c.satp = d.satp)
include xlen satp

theorem pagingMode_congr : c.pagingMode = d.pagingMode := by
  simp only [CsrFile.pagingMode, xlen, satp]

private theorem locate_congr (ram : Ram) (addr : UInt64) :
    locate ram c addr = locate ram d addr := by
  simp only [locate, pagingMode_congr xlen satp, CsrFile.rootPage, xlen, satp]

theorem run_congr (ram : Ram) (addr : UInt64) (kind : AccessKind) (mode : Privilege)
    (sum : c.statusBit Status.sum = d.statusBit Status.sum)
    (mxr : c.statusBit Status.mxr = d.statusBit Status.mxr) :
    run ram c addr kind mode = run ram d addr kind mode := by
  rw [run_eq_finish, run_eq_finish, locate_congr xlen satp]
  cases locate ram d addr with
  | error defect => rfl
  | ok l =>
    have same : l.grants c kind mode = l.grants d kind mode := by
      simp only [Leaf.grants, permits_congr _ kind mode sum mxr, pagingMode_congr xlen satp]
    simp only [finish, same, pagingMode_congr xlen satp]

/-- Under other permission settings a walk that succeeded meets the same leaf, and fails only if
that leaf does not permit the access any more. -/
theorem run_of_settings {ram : Ram} {addr : UInt64} {kind : AccessKind} {mode : Privilege}
    {w : Walk} (walked : run ram c addr kind mode = .ok w) :
    run ram d addr kind mode =
      if Pte.permits w.leaf kind mode d then .ok w else .error (.page kind addr) := by
  obtain ⟨l, found, granted, rfl⟩ := run_eq_ok.1 walked
  have aligned := (Bool.and_eq_true_iff.1 granted).2
  rw [pagingMode_congr xlen satp] at aligned
  rw [run_eq_finish, ← locate_congr xlen satp, found]
  simp only [finish, Leaf.grants, aligned, Bool.and_true, Leaf.walk, pagingMode_congr xlen satp]

end SameRoot

end Walk
end RiscvBoard
