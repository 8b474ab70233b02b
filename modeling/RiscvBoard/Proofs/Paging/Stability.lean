import RiscvBoard.Proofs.Paging.Probing
import RiscvBoard.Proofs.Paging.Transparency
import RiscvBoard.Proofs.Region

/-!
A translation marks the leaf that its walk used, and the marks change no translation: neither that
of another address, another access or another mode, nor its own when it is repeated. The walk of
another address may well use the marked entry, as its leaf or as a pointer; entries are aligned to
their size, so that it meets the whole entry or nothing of it, and reads everything but the marks.
-/

set_option autoImplicit false

namespace RiscvBoard

namespace Mmu

structure LeafMarked (c : CsrFile) (kind : AccessKind) (w : Walk) (before after : Ram) : Prop where
  found : before.load w.leafAddr c.pagingMode.entryWidth = .ok w.leaf
  marked : after.load w.leafAddr c.pagingMode.entryWidth = .ok (w.leaf ||| Pte.marksOf kind)
  same : SameOutside (Region.Covers ⟨w.leafAddr, c.pagingMode.entryWidth.bytes⟩)
    before.bytes after.bytes

/-- What a translation without an answer of the cache comes to: its result, and memory after it. -/
inductive Outcome (ram : Ram) (c : CsrFile) (vaddr : UInt64) (kind : AccessKind) :
    Except MemFault UInt64 → Ram → Prop where
  /-- The access is not translated. -/
  | plain : isTranslated c kind = false → Outcome ram c vaddr kind (.ok (c.xlen.truncate vaddr)) ram
  /-- The walk fails. -/
  | failed (f : MemFault) : isTranslated c kind →
      Walk.run ram c (c.xlen.truncate vaddr) kind (c.effectivePrivilege kind) = .error f →
      Outcome ram c vaddr kind (.error f) ram
  /-- The walk ends at a leaf, which is marked. -/
  | marked (w : Walk) (after : Ram) : isTranslated c kind →
      Walk.run ram c (c.xlen.truncate vaddr) kind (c.effectivePrivilege kind) = .ok w →
      LeafMarked c kind w ram after → Outcome ram c vaddr kind (.ok w.paddr) after

/-- Whether every walk from the root of a control state has the same answer in both memories:
for each address and access, in each mode, and under all permission settings. -/
def SameAnswers (c : CsrFile) (before after : Ram) : Prop :=
  ∀ (d : CsrFile) (addr : UInt64) (kind : AccessKind) (mode : Privilege),
    d.xlen = c.xlen → d.satp = c.satp →
      (Walk.run after d addr kind mode).map Walk.paddr =
        (Walk.run before d addr kind mode).map Walk.paddr

/-! ### The marks of one access -/

private theorem leafMarked {c : CsrFile} {ram : Ram} {addr : UInt64} {kind : AccessKind}
    {mode : Privilege} {w : Walk} (walked : Walk.run ram c addr kind mode = .ok w) :
    LeafMarked c kind w ram (updateLeaf ram c (.walked addr (.ok w))) := by
  obtain ⟨-, loaded, touched, -⟩ := Walk.leaf_of_run walked
  refine ⟨loaded, touched ▸ load_updateLeaf walked, ?_⟩
  have place := Ram.toNat_eq_offset (Ram.contains_of_load loaded)
  have some : 0 < c.pagingMode.entryWidth.bytes := by cases c.pagingMode <;> decide
  rw [updateLeaf_eq_setByteAt walked]
  refine (Ram.sameOutside_setByteAt ram _ _).mono fun i first => ?_
  subst first
  unfold Region.Covers
  dsimp only
  omega

private theorem outcome_marked (ram : Ram) (c : CsrFile) (vaddr : UInt64) (kind : AccessKind) :
    Outcome ram c vaddr kind (probe ram c vaddr kind) (marked ram c vaddr kind) := by
  rw [probe_eq, marked, plan_reset]
  by_cases translated : isTranslated c kind
  · simp only [if_pos translated]
    cases walked : Walk.run ram c (c.xlen.truncate vaddr) kind (c.effectivePrivilege kind) with
    | error f => exact .failed f translated walked
    | ok w => exact .marked w _ translated walked (leafMarked walked)
  · simp only [if_neg translated]
    exact .plain (Bool.eq_false_iff.2 translated)

private theorem sameAnswers_of_onlyMarks {c : CsrFile} {r s : Ram} (only : OnlyMarks c r s) :
    SameAnswers c r s := by
  intro d addr kind mode xlen satp
  have marking := only.marking
  rw [← Walk.pagingMode_congr xlen satp] at marking
  obtain ⟨bits, -, same⟩ := Walk.run_marking marking addr kind mode
  rw [same]
  cases Walk.run r d addr kind mode <;> rfl

/-! ### The same access once more -/

section Again

variable {u : Mmu} {ram : Ram} {c : CsrFile} {vaddr : UInt64} {kind : AccessKind}

private theorem marked_again :
    marked (marked ram c vaddr kind) c vaddr kind = marked ram c vaddr kind := by
  cases probed : probe ram c vaddr kind with
  | ok p => exact marked_of_page rfl probed
  | error f =>
    have nothing := marked_of_error probed
    rw [nothing, nothing]

private theorem plan_of_backed {entry : CacheEntry} (translated : isTranslated c kind)
    (cached : u.cached? c (c.xlen.truncate vaddr) kind = some entry)
    (backed : Backed ram c (cacheKey c (c.xlen.truncate vaddr) kind) entry) :
    (u.plan ram c vaddr kind).result = probe ram c vaddr kind ∧
      updateLeaf ram c (u.plan ram c vaddr kind) = ram := by
  simp only [plan, if_pos translated, cached, probe_eq, Plan.result, updateLeaf, backed.run.1,
    and_self]

variable (missed : u.cached? c (c.xlen.truncate vaddr) kind = none)
include missed

private theorem translate_of_missed (ram : Ram) :
    u.translate ram c vaddr kind =
      (probe ram c vaddr kind, u.afterPlan c kind (reset.plan ram c vaddr kind),
        marked ram c vaddr kind) := by
  simp only [translate, plan_of_missed missed, result_plan_reset, marked]

/-- If the cache answers after a translation that it did not answer, its answer is that of the
walk. -/
private theorem backed_of_remembered {entry : CacheEntry}
    (remembered : (u.afterPlan c kind (reset.plan ram c vaddr kind)).cached? c
      (c.xlen.truncate vaddr) kind = some entry) :
    isTranslated c kind ∧
      Backed (marked ram c vaddr kind) c (cacheKey c (c.xlen.truncate vaddr) kind) entry := by
  by_cases translated : isTranslated c kind
  swap
  · rw [plan_reset, if_neg translated] at remembered
    exact nomatch missed.symm.trans remembered
  refine ⟨translated, ?_⟩
  rw [plan_reset, if_pos translated] at remembered
  rw [marked, plan_reset, if_pos translated]
  unfold cached? at missed remembered
  rw [cacheEnabled_afterPlan] at remembered
  cases enabled : u.cacheEnabled with
  | false => simp [enabled] at remembered
  | true =>
    cases walked : Walk.run ram c (c.xlen.truncate vaddr) kind (c.effectivePrivilege kind) with
    | error f => simp_all [afterPlan]
    | ok w =>
      simp only [walked, afterPlan, enabled, if_true, PageCache.find?_insert_self] at remembered
      obtain rfl := Option.some.inj remembered
      exact backed_entryOf walked

private theorem translate_again (ram : Ram) :
    let first := u.translate ram c vaddr kind
    let second := first.2.1.translate first.2.2 c vaddr kind
    second.1 = first.1 ∧ second.2.2 = first.2.2 := by
  have same := probe_of_onlyMarks (marked_onlyMarks ram c vaddr kind) vaddr kind
  simp only [translate_of_missed missed]
  cases remembered : (u.afterPlan c kind (reset.plan ram c vaddr kind)).cached? c
      (c.xlen.truncate vaddr) kind with
  | none =>
    rw [translate_of_missed remembered]
    exact ⟨same, marked_again⟩
  | some entry =>
    obtain ⟨translated, backed⟩ := backed_of_remembered missed remembered
    obtain ⟨answer, nothing⟩ := plan_of_backed translated remembered backed
    exact ⟨answer.trans same, nothing⟩

end Again

/-- What a translation without an answer of the cache leaves alone. -/
structure Stable (ram : Ram) (c : CsrFile) (vaddr : UInt64) (kind : AccessKind)
    (after : Except MemFault UInt64 × Mmu × Ram) : Prop where
  /-- Memory has the marks of the access in the leaf that it used; a fault writes nothing. -/
  outcome : Outcome ram c vaddr kind after.1 after.2.2
  /-- No other translation from the same root changes. -/
  answers : SameAnswers c ram after.2.2
  /-- Once more, the access has the same answer and writes nothing. -/
  again : (after.2.1.translate after.2.2 c vaddr kind).1 = after.1 ∧
    (after.2.1.translate after.2.2 c vaddr kind).2.2 = after.2.2
  /-- A probe has the same answer, before and after. -/
  probed : probe ram c vaddr kind = after.1 ∧ probe after.2.2 c vaddr kind = after.1

/-- The accessed and dirty bits never change a translation. An access that the cache does not
answer writes at most the marks of the leaf that its walk used; every walk from the same root finds
afterwards what it found before; and the access itself, repeated or probed, has the answer that it
had. -/
theorem translate_stable (u : Mmu) (ram : Ram) (c : CsrFile) (vaddr : UInt64) (kind : AccessKind)
    (missed : u.cached? c (c.xlen.truncate vaddr) kind = none) :
    Stable ram c vaddr kind (u.translate ram c vaddr kind) where
  outcome := by
    rw [translate_of_missed missed]
    exact outcome_marked ram c vaddr kind
  answers := by
    rw [translate_of_missed missed]
    exact sameAnswers_of_onlyMarks (marked_onlyMarks ram c vaddr kind)
  again := translate_again missed ram
  probed := by
    rw [translate_of_missed missed]
    exact ⟨rfl, probe_of_onlyMarks (marked_onlyMarks ram c vaddr kind) vaddr kind⟩

/-- A store into its own leaf, through a table that is its own next level. -/
theorem translate_stable_ownLeaf :
    let ram : Ram := ⟨⟨#[0x01, 0, 0, 0x20, 0x07, 0, 0, 0x20]⟩⟩
    let c := { CsrFile.reset .rv32 with satp := 0x80080000, privilege := .supervisor }
    let u : Mmu := ⟨.empty, true⟩
    u.cached? c (c.xlen.truncate 0x1004) .store = none ∧
      (u.translate ram c 0x1004 .store).1 = .ok 0x80000004 ∧
      (u.translate ram c 0x1004 .store).2.2.load 0x80000004 .word = .ok 0x200000c7 ∧
      Stable ram c 0x1004 .store (u.translate ram c 0x1004 .store) := by
  intro ram c u
  have missed : u.cached? c (c.xlen.truncate 0x1004) .store = none := PageCache.find?_of_size rfl _
  have walked := translate_of_missed missed ram
  refine ⟨missed, ?_, ?_, translate_stable u ram c 0x1004 .store missed⟩
  · rw [walked]
    decide +kernel
  · rw [walked]
    decide +kernel

end Mmu

end RiscvBoard
