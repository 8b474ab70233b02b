import RiscvBoard.Proofs.Machine.Straddling
import RiscvBoard.Proofs.Paging.Probing

/-!
The translation of an access, byte by byte, while the cache is not in use. An access translates at
most two addresses; it finds all of its bytes where a probe of each byte finds them, leaves the
marks of all of them, and fails with the fault of the first byte whose probe fails.
-/

set_option autoImplicit false

namespace RiscvBoard

namespace Machine

/-! ### The bytes of an access -/

/-- The virtual address of the `i`-th byte of an access; addresses wrap around at the register
width. -/
def byteVaddr (m : Machine) (vaddr : UInt64) (i : Nat) : UInt64 :=
  m.xlen.truncate (vaddr + i.toUInt64)

def probeByte (m : Machine) (vaddr : UInt64) (kind : AccessKind) (i : Nat) :
    Except MemFault UInt64 :=
  Mmu.probe m.bus.ram m.hart.csrs (m.byteVaddr vaddr i) kind

/-- Guest memory after the first `n` bytes of an access were translated, one after the other, and
their leaves were marked. -/
def markedRam (m : Machine) (vaddr : UInt64) (kind : AccessKind) : Nat → Ram
  | 0 => m.bus.ram
  | n + 1 =>
    (m.mmu.translate (m.markedRam vaddr kind n) m.hart.csrs (m.byteVaddr vaddr n) kind).2.2

def withRam (m : Machine) (ram : Ram) : Machine :=
  { m with bus := { m.bus with ram } }

/-- The first byte of an access that cannot be translated, and its fault. -/
structure FirstFault (m : Machine) (vaddr : UInt64) (kind : AccessKind) (w : Width) (i : Nat)
    (f : MemFault) : Prop where
  short : i < w.bytes
  fault : m.probeByte vaddr kind i = .error f
  before : ∀ j < i, ∃ p, m.probeByte vaddr kind j = .ok p

/-- How the translation of an access ends, told by the probes of its bytes. -/
inductive TranslatesBytes (m : Machine) (vaddr : UInt64) (kind : AccessKind) (w : Width) :
    EStateM.Result MemFault Machine Span → Prop where
  /-- All bytes are where the probes find them, and their leaves are marked. -/
  | found (span : Span) (bytes : ∀ i < w.bytes, m.probeByte vaddr kind i = .ok (span.byteAddr i)) :
    TranslatesBytes m vaddr kind w (.ok span (m.withRam (m.markedRam vaddr kind w.bytes)))
  /-- The first probe that fails gives the fault. -/
  | fault {i : Nat} {f : MemFault} (first : m.FirstFault vaddr kind w i f) (m' : Machine) :
    TranslatesBytes m vaddr kind w (.error f m')

section Bytes

variable {m : Machine} {vaddr : UInt64} {kind : AccessKind} {w : Width} {i j : Nat}

theorem FirstFault.unique {f g : MemFault} (first : m.FirstFault vaddr kind w i f)
    (second : m.FirstFault vaddr kind w j g) : i = j ∧ f = g := by
  have apart {i j : Nat} {f g : MemFault} (first : m.FirstFault vaddr kind w i f)
      (second : m.FirstFault vaddr kind w j g) : ¬ i < j := by
    intro earlier
    rcases second.before i earlier with ⟨p, done⟩
    rw [first.fault] at done
    contradiction
  have same : i = j := by
    have := apart first second
    have := apart second first
    omega
  subst same
  have fault := first.fault
  rw [second.fault] at fault
  exact ⟨rfl, (Except.error.inj fault).symm⟩

theorem toNat_byteVaddr (m : Machine) (vaddr : UInt64) (short : i < 8) :
    (m.byteVaddr vaddr i).toNat = m.xlen.byteAddr vaddr i := by
  have small : i.toUInt64.toNat = i := by
    show i % 2 ^ 64 = i
    omega
  rw [byteVaddr, Xlen.toNat_truncate, UInt64.toNat_add, small, Xlen.byteAddr]
  cases m.xlen with
  | rv32 => exact Nat.mod_mod_of_dvd _ (by decide)
  | rv64 => exact Nat.mod_mod _ _

theorem byteVaddr_zero (m : Machine) (vaddr : UInt64) :
    m.byteVaddr vaddr 0 = m.xlen.truncate vaddr := by
  rw [byteVaddr]
  exact congrArg _ (UInt64.add_zero vaddr)

theorem truncate_byteVaddr (m : Machine) (vaddr : UInt64) (i : Nat) :
    m.xlen.truncate (m.byteVaddr vaddr i) = m.byteVaddr vaddr i :=
  Xlen.truncate_truncate _ _

private theorem pageOf_byteVaddr (below : i ≤ j) (short : j < 8)
    (inside : (m.byteVaddr vaddr i).toNat % 2 ^ 12 + (j - i) < 2 ^ 12) :
    Mmu.pageOf m.hart.csrs (m.byteVaddr vaddr j) = Mmu.pageOf m.hart.csrs (m.byteVaddr vaddr i) ∧
      (m.byteVaddr vaddr j).toNat % 2 ^ 12 = (m.byteVaddr vaddr i).toNat % 2 ^ 12 + (j - i) := by
  have first := m.toNat_byteVaddr vaddr (i := i) (by omega)
  have last := m.toNat_byteVaddr vaddr short
  have shift (x : UInt64) : (x >>> pageShift).toNat = x.toNat / 2 ^ 12 := by
    have amount : pageShift.toNat % 64 = 12 := rfl
    rw [UInt64.toNat_shiftRight, amount, Nat.shiftRight_eq_div_pow]
  have page (k : Nat) : Mmu.pageOf m.hart.csrs (m.byteVaddr vaddr k) =
      m.byteVaddr vaddr k >>> pageShift :=
    congrArg (· >>> pageShift) (m.truncate_byteVaddr vaddr k)
  rw [page, page, ← UInt64.toNat_inj, shift, shift]
  rw [first] at inside ⊢
  rw [last]
  unfold Xlen.byteAddr at inside ⊢
  generalize m.xlen = xlen at inside ⊢
  cases xlen <;> (simp only [Xlen.bits] at inside ⊢; omega)

private theorem nextPage_of_crossing (m : Machine) (vaddr : UInt64) {split : Nat}
    (rest : (pageOffset (m.xlen.truncate vaddr)).toNat + split = pageSize) (short : split < 8) :
    nextPage m.xlen (m.xlen.truncate vaddr) = m.byteVaddr vaddr split ∧
      (m.byteVaddr vaddr split).toNat % 2 ^ 12 = 0 := by
  have size : pageSize = 2 ^ 12 := rfl
  have next : nextPage m.xlen (m.xlen.truncate vaddr) = m.byteVaddr vaddr split := by
    apply UInt64.toNat_inj.1
    rw [toNat_pageOffset, size, Xlen.toNat_truncate] at rest
    rw [toNat_nextPage, m.toNat_byteVaddr vaddr short, Xlen.byteAddr, Xlen.toNat_truncate]
    generalize m.xlen = xlen at rest ⊢
    cases xlen <;> (simp only [Xlen.bits] at rest ⊢; omega)
  refine ⟨next, ?_⟩
  rw [← next, toNat_nextPage]
  cases m.xlen <;> (simp only [Xlen.bits]; omega)

theorem probeByte_add {p : UInt64} (below : i ≤ j) (short : j < 8)
    (inside : (m.byteVaddr vaddr i).toNat % 2 ^ 12 + (j - i) < 2 ^ 12)
    (probed : m.probeByte vaddr kind i = .ok p) :
    m.probeByte vaddr kind j = .ok (p + (j - i).toUInt64) := by
  rcases pageOf_byteVaddr below short inside with ⟨page, place⟩
  have offset (k : Nat) : (pageOffset (m.hart.csrs.xlen.truncate (m.byteVaddr vaddr k))).toNat =
      (m.byteVaddr vaddr k).toNat % 2 ^ 12 := by
    have same : m.hart.csrs.xlen.truncate (m.byteVaddr vaddr k) = m.byteVaddr vaddr k :=
      m.truncate_byteVaddr vaddr k
    rw [same, toNat_pageOffset]
  exact Mmu.probe_add page (by rw [offset, offset, place]) probed

end Bytes

/-! ### Translation of all bytes -/

section Uncached

variable {m : Machine} {vaddr : UInt64} {kind : AccessKind} {w : Width}
variable (off : m.mmu.cacheEnabled = false)
include off

theorem translate_of_probe_ok {p : UInt64}
    (probed : Mmu.probe m.bus.ram m.hart.csrs vaddr kind = .ok p) :
    translate vaddr kind m = .ok p (m.withRam (Mmu.marked m.bus.ram m.hart.csrs vaddr kind)) := by
  simp only [translate, Mmu.plan_of_uncached off, Mmu.result_plan_reset, probed,
    Mmu.afterPlan_of_uncached off]
  rfl

theorem translate_of_probe_error {f : MemFault}
    (failed : Mmu.probe m.bus.ram m.hart.csrs vaddr kind = .error f) :
    translate vaddr kind m = .error f m := by
  have unmarked : Mmu.updateLeaf m.bus.ram m.hart.csrs
      (Mmu.reset.plan m.bus.ram m.hart.csrs vaddr kind) = m.bus.ram := Mmu.marked_of_error failed
  simp only [translate, Mmu.plan_of_uncached off, Mmu.result_plan_reset, failed, unmarked,
    Mmu.afterPlan_of_uncached off]

theorem markedRam_succ (n : Nat) : m.markedRam vaddr kind (n + 1) =
    Mmu.marked (m.markedRam vaddr kind n) m.hart.csrs (m.byteVaddr vaddr n) kind := by
  rw [markedRam, Mmu.translate_of_uncached off]

theorem markedRam_onlyMarks (vaddr : UInt64) (kind : AccessKind) (n : Nat) :
    OnlyMarks m.hart.csrs m.bus.ram (m.markedRam vaddr kind n) := by
  induction n with
  | zero => exact .refl _ _
  | succ n ih =>
    rw [markedRam_succ off]
    exact ih.trans (Mmu.marked_onlyMarks _ _ _ _)

private theorem probe_markedRam (vaddr : UInt64) (kind : AccessKind) (n i : Nat) :
    Mmu.probe (m.markedRam vaddr kind n) m.hart.csrs (m.byteVaddr vaddr i) kind =
      m.probeByte vaddr kind i :=
  Mmu.probe_of_onlyMarks (markedRam_onlyMarks off vaddr kind n) _ _

private theorem markedRam_of_page {i n : Nat} {p : UInt64}
    (probed : m.probeByte vaddr kind i = .ok p) (some : i < n) (page : ∀ j, i ≤ j → j < n →
      Mmu.pageOf m.hart.csrs (m.byteVaddr vaddr j) = Mmu.pageOf m.hart.csrs (m.byteVaddr vaddr i)) :
    m.markedRam vaddr kind n = m.markedRam vaddr kind (i + 1) := by
  have before := probe_markedRam off vaddr kind i i
  rw [probed] at before
  induction n, some using Nat.le_induction with
  | base => rfl
  | succ n low ih =>
    have earlier := ih fun j above below => page j above (by omega)
    have again := Mmu.marked_of_page (page n (by omega) (by omega)) before
    rw [← markedRam_succ off] at again
    rw [markedRam_succ off, earlier, again]

private theorem first_page {p : UInt64} {n : Nat} (first : m.probeByte vaddr kind 0 = .ok p)
    (some : 0 < n) (few : n ≤ 8)
    (inside : (pageOffset (m.xlen.truncate vaddr)).toNat + n ≤ pageSize) :
    translate (m.xlen.truncate vaddr) kind m = .ok p (m.withRam (m.markedRam vaddr kind n)) ∧
      ∀ i < n, m.probeByte vaddr kind i = .ok (p + i.toUInt64) := by
  have start := m.byteVaddr_zero vaddr
  rw [toNat_pageOffset, ← start, pageSize] at inside
  have marks : m.markedRam vaddr kind n = m.markedRam vaddr kind 1 :=
    markedRam_of_page off first some fun j above below =>
      (pageOf_byteVaddr above (by omega) (by omega)).1
  constructor
  · rw [marks, ← start, markedRam_succ off]
    exact translate_of_probe_ok off first
  · intro i short
    exact probeByte_add (Nat.zero_le i) (by omega) (by omega) first

private theorem second_page {q : UInt64} {split : Nat} (short : split < w.bytes)
    (second : m.probeByte vaddr kind split = .ok q)
    (begins : (m.byteVaddr vaddr split).toNat % 2 ^ 12 = 0) :
    translate (m.byteVaddr vaddr split) kind (m.withRam (m.markedRam vaddr kind split)) =
        .ok q (m.withRam (m.markedRam vaddr kind w.bytes)) ∧
      ∀ i < w.bytes, split ≤ i → m.probeByte vaddr kind i = .ok (q + (i - split).toUInt64) := by
  have few := w.bytes_le
  have marks : m.markedRam vaddr kind w.bytes = m.markedRam vaddr kind (split + 1) :=
    markedRam_of_page off second short fun j above below =>
      (pageOf_byteVaddr above (by omega) (by omega)).1
  constructor
  · rw [marks, markedRam_succ off]
    rw [← probe_markedRam off vaddr kind split split] at second
    exact translate_of_probe_ok (m := m.withRam (m.markedRam vaddr kind split)) off second
  · intro i low above
    exact probeByte_add above (by omega) (by omega) second

private theorem translateSpan_of_crossing {p : UInt64} (first : m.probeByte vaddr kind 0 = .ok p)
    (crossing : ¬ (pageOffset (m.xlen.truncate vaddr)).toNat + w.bytes ≤ pageSize) :
    m.TranslatesBytes vaddr kind w (translateSpan (m.xlen.truncate vaddr) w kind m) := by
  have few := w.bytes_le
  have place := toNat_pageOffset (m.xlen.truncate vaddr)
  have size : pageSize = 2 ^ 12 := rfl
  obtain ⟨split, crosses⟩ : ∃ split,
      split = pageSize - (pageOffset (m.xlen.truncate vaddr)).toNat := ⟨_, rfl⟩
  have whole : (pageOffset (m.xlen.truncate vaddr)).toNat + split = pageSize := by omega
  rcases m.nextPage_of_crossing vaddr whole (by omega) with ⟨next, begins⟩
  rcases first_page (n := split) off first (by omega) (by omega) whole.le with ⟨here, bytes⟩
  have same : (m.withRam (m.markedRam vaddr kind split)).xlen = m.xlen := rfl
  cases second : m.probeByte vaddr kind split with
  | error f =>
    have fault : m.FirstFault vaddr kind w split f :=
      ⟨by omega, second, fun j low => ⟨_, bytes j low⟩⟩
    rw [← probe_markedRam off vaddr kind split split] at second
    have fails := translate_of_probe_error (m := m.withRam (m.markedRam vaddr kind split)) off second
    simp only [translateSpan, bind_of_ok here, if_neg crossing, bind_get, same, next,
      bind_of_error fails]
    exact .fault fault _
  | ok q =>
    rcases second_page (w := w) off (by omega) second begins with ⟨there, rest⟩
    simp only [translateSpan, bind_of_ok here, if_neg crossing, bind_get, same, next,
      bind_of_ok there, ← crosses]
    refine .found ⟨p, some (q, split)⟩ fun i short => ?_
    simp only [Span.byteAddr]
    split
    next low => exact bytes i low
    next high => exact rest i short (Nat.le_of_not_lt high)

/-- The translation of an access finds all its bytes where the probes find them, and leaves the
marks of all of them. If it fails, it reports the first byte whose probe fails. -/
theorem translateSpan_bytes (vaddr : UInt64) (kind : AccessKind) (w : Width) :
    m.TranslatesBytes vaddr kind w (translateSpan (m.xlen.truncate vaddr) w kind m) := by
  have start := m.byteVaddr_zero vaddr
  cases first : m.probeByte vaddr kind 0 with
  | error f =>
    have fault : m.FirstFault vaddr kind w 0 f := ⟨w.bytes_pos, first, nofun⟩
    rw [probeByte, start] at first
    rw [translateSpan, bind_of_error (translate_of_probe_error off first)]
    exact .fault fault m
  | ok p =>
    by_cases inside : (pageOffset (m.xlen.truncate vaddr)).toNat + w.bytes ≤ pageSize
    · rcases first_page off first w.bytes_pos w.bytes_le inside with ⟨here, bytes⟩
      simp only [translateSpan, bind_of_ok here, if_pos inside]
      exact .found ⟨p, none⟩ bytes
    · exact translateSpan_of_crossing off first inside

end Uncached

end Machine

end RiscvBoard
