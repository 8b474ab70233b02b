import RiscvBoard.Proofs.Paging.Marks

/-!
The page cache is transparent: a paging unit with the cache answers every translation, and marks
every page table entry, as the unit without it does. What carries the argument is that each
remembered page is backed by a walk that would succeed now, under some permission settings, and
would have nothing left to mark.
-/

set_option autoImplicit false

namespace RiscvBoard

namespace PageCache

theorem find?_of_size {t : PageCache} (empty : t.size = 0) (key : CacheKey) :
    t.find? key = none := by
  have none : t.entries.isEmpty := by
    rw [Std.HashMap.isEmpty_eq_size_eq_zero]
    exact beq_iff_eq.2 empty
  exact Std.HashMap.getElem?_of_isEmpty none

@[simp] theorem find?_count (t : PageCache) (hit : Bool) (key : CacheKey) :
    (t.count hit).find? key = t.find? key := by
  cases hit <;> rfl

@[simp] theorem find?_flush (t : PageCache) (key : CacheKey) : t.flush.find? key = none :=
  Std.HashMap.getElem?_empty

@[simp] theorem find?_insert_self (t : PageCache) (key : CacheKey) (entry : CacheEntry) :
    (t.insert key entry).find? key = some entry := by
  simp [insert, find?]

private theorem find?_insert {t : PageCache} {key other : CacheKey} {entry found : CacheEntry}
    (present : (t.insert key entry).find? other = some found) :
    (other = key ∧ found = entry) ∨ t.find? other = some found := by
  simp only [insert, find?, Std.HashMap.getElem?_insert] at present
  split at present
  next same => exact .inl ⟨(beq_iff_eq.1 same).symm, (Option.some.inj present).symm⟩
  · split at present
    · simp at present
    · exact .inr present

end PageCache

namespace Mmu

structure System where
  mmu : Mmu
  ram : Ram
  csrs : CsrFile

def accessBits : UInt64 :=
  Status.sum ||| Status.mxr ||| Status.mprv ||| Status.mpp

inductive Operation where
  /-- An address is translated for an access. -/
  | translate (vaddr : UInt64) (kind : AccessKind)
  /-- The privilege mode changes. -/
  | setMode (mode : Privilege)
  /-- The status word gets the given bits among those on which translations depend. -/
  | setStatus (value : UInt64)
  /-- The root of the page tables changes, and the cache is flushed. -/
  | setRoot (satp : UInt64)
  | flush
  /-- Memory is written. -/
  | writeRam (change : Ram → Ram)

def withSettings (c : CsrFile) (sum mxr : Bool) : CsrFile :=
  (c.setStatusBit Status.sum sum).setStatusBit Status.mxr mxr

private theorem statusBit_sum_withSettings (c : CsrFile) (sum mxr : Bool) :
    (withSettings c sum mxr).statusBit Status.sum = sum := by
  rw [withSettings, CsrFile.statusBit_setStatusBit_of_disjoint _ (by decide),
    CsrFile.statusBit_setStatusBit _ (by decide)]

private theorem statusBit_mxr_withSettings (c : CsrFile) (sum mxr : Bool) :
    (withSettings c sum mxr).statusBit Status.mxr = mxr := by
  rw [withSettings, CsrFile.statusBit_setStatusBit _ (by decide)]

/-- Whether every walk has the same outcome in both memories, in each mode and under all permission
settings. -/
def SameWalks (c : CsrFile) (before after : Ram) : Prop :=
  ∀ vaddr kind mode sum mxr,
    Walk.run after (withSettings c sum mxr) vaddr kind mode =
      Walk.run before (withSettings c sum mxr) vaddr kind mode

namespace System

def apply (s : System) : Operation → System
  | .translate vaddr kind =>
    let (_, mmu, ram) := s.mmu.translate s.ram s.csrs vaddr kind
    { s with mmu := mmu, ram := ram }
  | .setMode mode => { s with csrs := { s.csrs with privilege := mode } }
  | .setStatus value =>
    { s with csrs := { s.csrs with mstatus := CsrFile.merge accessBits s.csrs.mstatus value } }
  | .setRoot satp => { s with csrs := { s.csrs with satp := satp }, mmu := s.mmu.flush }
  | .flush => { s with mmu := s.mmu.flush }
  | .writeRam change => { s with ram := change s.ram }

def answer? (s : System) : Operation → Option (Except MemFault UInt64)
  | .translate vaddr kind => some (s.mmu.translate s.ram s.csrs vaddr kind).1
  | _ => none

def observe : List Operation → System → List (Option (Except MemFault UInt64) × Ram)
  | [], _ => []
  | op :: ops, s => (s.answer? op, (s.apply op).ram) :: observe ops (s.apply op)

/-- Whether an operation leaves the page tables alone: a write to memory may change no walk. -/
def Allows (s : System) : Operation → Prop
  | .writeRam change => SameWalks s.csrs s.ram (change s.ram)
  | _ => True

def AllowsAll : System → List Operation → Prop
  | _, [] => True
  | s, op :: ops => s.Allows op ∧ (s.apply op).AllowsAll ops

end System

/-! ### Remembered pages -/

/-- A cache entry is backed when a walk from the current root succeeds for an address of its page,
has nothing left to mark, arrives at its page, and finds a leaf with its permissions. -/
def Backed (ram : Ram) (c : CsrFile) (key : CacheKey) (entry : CacheEntry) : Prop :=
  ∃ d addr w, d.xlen = c.xlen ∧ d.satp = c.satp ∧ addr >>> pageShift = key.page ∧
    Walk.run ram d addr key.kind key.mode = .ok w ∧ w.update = none ∧
    entry.page = w.paddr >>> pageShift ∧
    ∀ e, Pte.permits entry.perms.toUInt64 key.kind key.mode e =
      Pte.permits w.leaf key.kind key.mode e

namespace Backed

variable {ram r s : Ram} {c d : CsrFile} {key : CacheKey} {entry : CacheEntry}

private theorem congr (backed : Backed ram c key entry) (xlen : c.xlen = d.xlen)
    (satp : c.satp = d.satp) : Backed ram d key entry := by
  obtain ⟨e, addr, w, sameXlen, sameSatp, rest⟩ := backed
  exact ⟨e, addr, w, sameXlen.trans xlen, sameSatp.trans satp, rest⟩

private theorem marking (backed : Backed r c key entry)
    (marking : Marking c.pagingMode.entryWidth r s) : Backed s c key entry := by
  obtain ⟨d, addr, w, xlen, satp, page, walked, done, place, perms⟩ := backed
  rw [← Walk.pagingMode_congr xlen satp] at marking
  obtain ⟨bits, inside, after⟩ := Walk.run_marking_ok marking walked
  have unmarked := Walk.mark_update_of_none done bits
  refine ⟨d, addr, w.mark bits, xlen, satp, page, after, unmarked, place, ?_⟩
  intro e
  rw [perms e]
  exact (Pte.permits_or inside w.leaf key.kind key.mode e).symm

private theorem sameWalks (backed : Backed r c key entry) (same : SameWalks c r s) :
    Backed s c key entry := by
  obtain ⟨d, addr, w, xlen, satp, page, walked, rest⟩ := backed
  refine ⟨d, addr, w, xlen, satp, page, ?_, rest⟩
  have settings (m : Ram) := Walk.run_congr
    (d := withSettings c (d.statusBit Status.sum) (d.statusBit Status.mxr)) xlen satp m addr
    key.kind key.mode (statusBit_sum_withSettings _ _ _).symm
    (statusBit_mxr_withSettings _ _ _).symm
  rw [settings, same, ← settings, walked]

end Backed

private theorem has_toUInt8 (entry : UInt64) {asked : UInt64} (low : asked &&& 0xff = asked) :
    Pte.has entry.toUInt8.toUInt64 asked = Pte.has entry asked := by
  have byte : entry.toUInt8.toUInt64 = entry &&& 0xff := by
    rw [← UInt64.toNat_inj, UInt8.toNat_toUInt64, UInt64.toNat_toUInt8, UInt64.toNat_and]
    exact (Nat.and_two_pow_sub_one_eq_mod _ 8).symm
  simp only [Pte.has, byte, UInt64.and_assoc]
  rw [UInt64.and_comm 0xff, low]

private theorem permits_toUInt8 (entry : UInt64) (kind : AccessKind) (mode : Privilege)
    (c : CsrFile) :
    Pte.permits entry.toUInt8.toUInt64 kind mode c = Pte.permits entry kind mode c := by
  simp only [Pte.permits, has_toUInt8 entry (show Pte.user &&& 0xff = Pte.user by decide),
    has_toUInt8 entry (show Pte.readable &&& 0xff = Pte.readable by decide),
    has_toUInt8 entry (show Pte.writable &&& 0xff = Pte.writable by decide),
    has_toUInt8 entry (show Pte.executable &&& 0xff = Pte.executable by decide)]

theorem cacheEnabled_afterPlan (u : Mmu) (c : CsrFile) (kind : AccessKind) (plan : Plan) :
    (u.afterPlan c kind plan).cacheEnabled = u.cacheEnabled := by
  unfold afterPlan
  split <;> try rfl
  split <;> try rfl
  split <;> rfl

/-- What a backed entry answers is what a walk answers, and the walk has nothing to mark. -/
theorem Backed.run {ram : Ram} {c : CsrFile} {addr : UInt64} {kind : AccessKind}
    {entry : CacheEntry} (backed : Backed ram c (cacheKey c addr kind) entry) :
    (Walk.run ram c addr kind (c.effectivePrivilege kind)).map Walk.paddr =
        cachedAddr c addr kind entry ∧
      ∀ w, Walk.run ram c addr kind (c.effectivePrivilege kind) = .ok w → w.update = none := by
  obtain ⟨d, other, w, xlen, satp, page, walked, done, place, perms⟩ := backed
  have here : Walk.run ram c addr kind (c.effectivePrivilege kind) =
      if Pte.permits w.leaf kind (c.effectivePrivilege kind) c then
        .ok { w with paddr := ((w.paddr >>> pageShift) <<< pageShift) ||| pageOffset addr }
      else .error (.page kind addr) :=
    Walk.run_of_settings xlen satp (Walk.run_of_page page walked)
  simp only [cacheKey] at perms
  rw [here, cachedAddr, perms, place]
  by_cases granted : Pte.permits w.leaf kind (c.effectivePrivilege kind) c
  · simp only [if_pos granted]
    refine ⟨rfl, fun v found => ?_⟩
    obtain rfl := Except.ok.inj found
    exact done
  · simp only [if_neg granted]
    exact ⟨rfl, fun v found => by contradiction⟩

theorem backed_entryOf {ram : Ram} {c : CsrFile} {addr : UInt64} {kind : AccessKind} {w : Walk}
    (walked : Walk.run ram c addr kind (c.effectivePrivilege kind) = .ok w) :
    Backed (updateLeaf ram c (.walked addr (.ok w))) c (cacheKey c addr kind) (entryOf w) :=
  ⟨c, addr, _, rfl, rfl, rfl, run_updateLeaf walked, rfl, rfl, fun e => permits_toUInt8 _ _ _ e⟩

/-- A paging unit is coherent when every page that it remembers is backed. -/
def Coherent (ram : Ram) (c : CsrFile) (u : Mmu) : Prop :=
  ∀ key entry, u.cache.find? key = some entry → Backed ram c key entry

namespace Coherent

variable {ram : Ram} {c : CsrFile} {u v : Mmu}

private theorem of_empty (none : ∀ key, u.cache.find? key = none) : Coherent ram c u := by
  intro key entry found
  rw [none key] at found
  contradiction

private theorem backed_of_cached (coherent : Coherent ram c u) {addr : UInt64} {kind : AccessKind}
    {entry : CacheEntry} (found : u.cached? c addr kind = some entry) :
    Backed ram c (cacheKey c addr kind) entry := by
  unfold cached? at found
  split at found
  · exact coherent _ _ found
  · contradiction

/-- A translation answers as it would without the cache, and marks the same leaf. -/
private theorem translate_eq (coherent : Coherent ram c u) (off : v.cacheEnabled = false)
    (vaddr : UInt64) (kind : AccessKind) :
    (u.plan ram c vaddr kind).result = (v.plan ram c vaddr kind).result ∧
      updateLeaf ram c (u.plan ram c vaddr kind) = updateLeaf ram c (v.plan ram c vaddr kind) := by
  by_cases translated : isTranslated c kind
  · have unused : v.cached? c (c.xlen.truncate vaddr) kind = none := by simp [cached?, off]
    simp only [plan, if_pos translated, unused]
    cases found : u.cached? c (c.xlen.truncate vaddr) kind with
    | none => exact ⟨rfl, rfl⟩
    | some entry =>
      obtain ⟨answer, done⟩ := (coherent.backed_of_cached found).run
      refine ⟨answer.symm, ?_⟩
      cases walked : Walk.run ram c (c.xlen.truncate vaddr) kind (c.effectivePrivilege kind) with
      | error f => rfl
      | ok w => simp only [updateLeaf, done w walked]
  · simp [plan, translated]

private theorem marking {r s : Ram} (coherent : Coherent r c u)
    (marking : Marking c.pagingMode.entryWidth r s) : Coherent s c u :=
  fun key entry found => (coherent key entry found).marking marking

/-- A translation leaves the unit coherent: what it adds to the cache is backed. -/
private theorem afterPlan (coherent : Coherent ram c u) (vaddr : UInt64) (kind : AccessKind) :
    Coherent (updateLeaf ram c (u.plan ram c vaddr kind)) c
      (u.afterPlan c kind (u.plan ram c vaddr kind)) := by
  -- What was remembered before survives the marks; a new entry is backed by the walk it comes from.
  have marked := coherent.marking (updateLeaf_onlyMarks u ram c vaddr kind).marking
  intro key entry found
  by_cases translated : isTranslated c kind
  swap
  · simp only [plan, if_neg translated] at found marked ⊢
    exact marked key entry found
  simp only [plan, if_pos translated] at found marked ⊢
  cases cached : u.cached? c (c.xlen.truncate vaddr) kind with
  | some known =>
    simp only [cached, Mmu.afterPlan, PageCache.find?_count] at found marked ⊢
    exact marked key entry found
  | none =>
    simp only [cached] at found marked ⊢
    cases walked : Walk.run ram c (c.xlen.truncate vaddr) kind (c.effectivePrivilege kind) with
    | error f =>
      simp only [walked, Mmu.afterPlan] at found marked ⊢
      split at found <;> exact marked key entry (by simpa using found)
    | ok w =>
      simp only [walked, Mmu.afterPlan] at found marked
      split at found
      · obtain ⟨rfl, rfl⟩ | before := PageCache.find?_insert found
        · exact backed_entryOf walked
        · exact marked key entry (by simpa using before)
      · exact marked key entry found

end Coherent

namespace System

structure Agree (s t : System) : Prop where
  ram : s.ram = t.ram
  csrs : s.csrs = t.csrs
  off : t.mmu.cacheEnabled = false
  coherent : Coherent s.ram s.csrs s.mmu

private theorem Agree.apply {s t : System} (agree : Agree s t) {op : Operation}
    (allowed : t.Allows op) : s.answer? op = t.answer? op ∧ Agree (s.apply op) (t.apply op) := by
  obtain ⟨mmu, ram, c⟩ := s
  obtain ⟨plain, ram', c'⟩ := t
  obtain ⟨rfl, rfl, off, coherent⟩ := agree
  simp only at off coherent
  cases op with
  | translate vaddr kind =>
    obtain ⟨answer, marked⟩ := coherent.translate_eq off vaddr kind
    have stays : (plain.translate ram c vaddr kind).2.1.cacheEnabled = false := by
      rw [← off]
      exact cacheEnabled_afterPlan _ _ _ _
    exact ⟨congrArg some answer, marked, rfl, stays, coherent.afterPlan vaddr kind⟩
  | setMode mode =>
    exact ⟨rfl, rfl, rfl, off, fun key entry found => (coherent key entry found).congr rfl rfl⟩
  | setStatus value =>
    exact ⟨rfl, rfl, rfl, off, fun key entry found => (coherent key entry found).congr rfl rfl⟩
  | setRoot satp =>
    exact ⟨rfl, rfl, rfl, off, .of_empty (PageCache.find?_flush mmu.cache)⟩
  | flush => exact ⟨rfl, rfl, rfl, off, .of_empty (PageCache.find?_flush mmu.cache)⟩
  | writeRam change =>
    refine ⟨rfl, rfl, rfl, off, fun key entry found => ?_⟩
    exact (coherent key entry found).sameWalks allowed

private theorem Agree.observe {s t : System} (agree : Agree s t) {ops : List Operation}
    (allowed : t.AllowsAll ops) : observe ops s = observe ops t := by
  induction ops generalizing s t with
  | nil => rfl
  | cons op ops ih =>
    obtain ⟨answer, next⟩ := agree.apply allowed.1
    simp only [System.observe, answer, next.ram, ih next allowed.2]

/-- The page cache is transparent: from an empty cache on, whatever happens to the mode, to the
permission settings and to the root, and as long as other writes to memory leave the page tables
alone, every translation answers as it would without the cache, and memory stays the same. -/
theorem observe_cached (ram : Ram) (c : CsrFile) (u v : Mmu) (empty : u.cache.size = 0)
    (off : v.cacheEnabled = false) (ops : List Operation) (allowed : AllowsAll ⟨v, ram, c⟩ ops) :
    observe ops ⟨u, ram, c⟩ = observe ops ⟨v, ram, c⟩ := by
  have start : Agree ⟨u, ram, c⟩ ⟨v, ram, c⟩ :=
    ⟨rfl, rfl, off, .of_empty (PageCache.find?_of_size empty)⟩
  exact start.observe allowed

/-- A load and a store through one large page, before and after the supervisor may touch user
pages. -/
theorem observe_cached_gigapage :
    let ram := (Ram.zeros 4096).write 0x80000010 .double 0x2000001f
    let c := { CsrFile.reset .rv64 with satp := 0x8000000000080000, privilege := .supervisor }
    let ops := [.translate 0x80000123 .load, .setStatus Status.sum, .translate 0x80000123 .load,
      .translate 0x80000456 .store, .writeRam id, .flush, .translate 0x80000123 .load]
    AllowsAll ⟨.reset, ram, c⟩ ops ∧
      observe ops ⟨⟨.empty, true⟩, ram, c⟩ = observe ops ⟨.reset, ram, c⟩ := by
  intro ram c ops
  have allowed : AllowsAll ⟨.reset, ram, c⟩ ops :=
    ⟨trivial, trivial, trivial, trivial, fun _ _ _ _ _ => rfl, trivial, trivial, trivial⟩
  exact ⟨allowed, observe_cached ram c ⟨.empty, true⟩ .reset rfl rfl ops allowed⟩

end System

end Mmu

end RiscvBoard
