import RiscvBoard.Proofs.Paging.Marks

/-!
Translation without the cache: a probe of the page tables, and then the marks of the leaf. Marks
change the answer of no probe. All addresses of a page have one leaf, so that a probe of one address
answers for its page, and an access to a page that was marked for an earlier one marks nothing.
-/

set_option autoImplicit false

namespace RiscvBoard

private theorem toNat_page_or (page : UInt64) {place : UInt64} (short : place.toNat < 2 ^ 12) :
    ((page <<< pageShift) ||| place).toNat = page.toNat * 2 ^ 12 % 2 ^ 64 + place.toNat := by
  have start : (page <<< pageShift).toNat = (page.toNat % 2 ^ 52) <<< 12 := by
    have shift : pageShift.toNat % 64 = 12 := rfl
    rw [UInt64.toNat_shiftLeft, shift, Nat.shiftLeft_eq, Nat.shiftLeft_eq]
    omega
  rw [UInt64.toNat_or, start, ← Nat.shiftLeft_add_eq_or_of_lt short, Nat.shiftLeft_eq]
  omega

private theorem page_or_pageOffset (addr : UInt64) :
    ((addr >>> pageShift) <<< pageShift) ||| pageOffset addr = addr := by
  have place := toNat_pageOffset addr
  have page : (addr >>> pageShift).toNat = addr.toNat / 2 ^ 12 := by
    have shift : pageShift.toNat % 64 = 12 := rfl
    rw [UInt64.toNat_shiftRight, shift, Nat.shiftRight_eq_div_pow]
  have bound := addr.toNat_lt
  apply UInt64.toNat_inj.1
  rw [toNat_page_or _ (by omega), place, page]
  omega

private theorem page_or_add {page first last : UInt64} {k : Nat} (short : last.toNat < 2 ^ 12)
    (apart : last.toNat = first.toNat + k) :
    (page <<< pageShift) ||| last = ((page <<< pageShift) ||| first) + k.toUInt64 := by
  have small : k.toUInt64.toNat = k := by
    show k % 2 ^ 64 = k
    omega
  apply UInt64.toNat_inj.1
  rw [UInt64.toNat_add, toNat_page_or page short, toNat_page_or page (by omega), small]
  omega

namespace Mmu

variable {c : CsrFile} {ram s : Ram} {u : Mmu} {vaddr other p : UInt64} {kind : AccessKind}

def marked (ram : Ram) (c : CsrFile) (vaddr : UInt64) (kind : AccessKind) : Ram :=
  updateLeaf ram c (reset.plan ram c vaddr kind)

def pageOf (c : CsrFile) (vaddr : UInt64) : UInt64 :=
  c.xlen.truncate vaddr >>> pageShift

/-! ### A probe and its marks -/

private theorem cached?_of_uncached (off : u.cacheEnabled = false) (c : CsrFile) (addr : UInt64)
    (kind : AccessKind) : u.cached? c addr kind = none := by
  simp [cached?, off]

theorem plan_of_missed (missed : u.cached? c (c.xlen.truncate vaddr) kind = none) (ram : Ram) :
    u.plan ram c vaddr kind = reset.plan ram c vaddr kind := by
  have unused := cached?_of_uncached (u := reset) rfl c (c.xlen.truncate vaddr) kind
  simp only [plan, missed, unused]

theorem plan_of_uncached (off : u.cacheEnabled = false) :
    u.plan ram c vaddr kind = reset.plan ram c vaddr kind :=
  plan_of_missed (cached?_of_uncached off c _ kind) ram

theorem plan_reset (ram : Ram) (c : CsrFile) (vaddr : UInt64) (kind : AccessKind) :
    reset.plan ram c vaddr kind =
      if isTranslated c kind then
        .walked (c.xlen.truncate vaddr)
          (Walk.run ram c (c.xlen.truncate vaddr) kind (c.effectivePrivilege kind))
      else .identity (c.xlen.truncate vaddr) := rfl

theorem probe_eq (ram : Ram) (c : CsrFile) (vaddr : UInt64) (kind : AccessKind) :
    probe ram c vaddr kind =
      if isTranslated c kind then
        (Walk.run ram c (c.xlen.truncate vaddr) kind (c.effectivePrivilege kind)).map Walk.paddr
      else .ok (c.xlen.truncate vaddr) := rfl

theorem result_plan_reset (ram : Ram) (c : CsrFile) (vaddr : UInt64) (kind : AccessKind) :
    (reset.plan ram c vaddr kind).result = probe ram c vaddr kind := by
  rw [plan_reset, probe_eq]
  split <;> rfl

theorem afterPlan_of_uncached (off : u.cacheEnabled = false) :
    u.afterPlan c kind (reset.plan ram c vaddr kind) = u := by
  rw [plan_reset]
  split
  · simp only [afterPlan, off]
    rfl
  · rfl

/-- Without the cache a translation is a probe, and marks the leaf. -/
theorem translate_of_uncached (off : u.cacheEnabled = false) (ram : Ram) (c : CsrFile)
    (vaddr : UInt64) (kind : AccessKind) :
    u.translate ram c vaddr kind = (probe ram c vaddr kind, u, marked ram c vaddr kind) := by
  simp only [translate, plan_of_uncached off, result_plan_reset, afterPlan_of_uncached off, marked]

theorem marked_onlyMarks (ram : Ram) (c : CsrFile) (vaddr : UInt64) (kind : AccessKind) :
    OnlyMarks c ram (marked ram c vaddr kind) :=
  updateLeaf_onlyMarks reset ram c vaddr kind

private theorem probe_eq_error {f : MemFault} (failed : probe ram c vaddr kind = .error f) :
    isTranslated c kind ∧
      Walk.run ram c (c.xlen.truncate vaddr) kind (c.effectivePrivilege kind) = .error f := by
  rw [probe_eq] at failed
  split at failed
  next translated =>
    cases walked : Walk.run ram c (c.xlen.truncate vaddr) kind (c.effectivePrivilege kind) with
    | ok w =>
      rw [walked] at failed
      contradiction
    | error g =>
      rw [walked] at failed
      obtain rfl := Except.error.inj failed
      exact ⟨translated, rfl⟩
  next => contradiction

private theorem probe_eq_ok (probed : probe ram c vaddr kind = .ok p) :
    (isTranslated c kind ∧ ∃ w,
      Walk.run ram c (c.xlen.truncate vaddr) kind (c.effectivePrivilege kind) = .ok w ∧
        w.paddr = p) ∨
    ¬ isTranslated c kind ∧ c.xlen.truncate vaddr = p := by
  rw [probe_eq] at probed
  split at probed
  next translated =>
    cases walked : Walk.run ram c (c.xlen.truncate vaddr) kind (c.effectivePrivilege kind) with
    | error f =>
      rw [walked] at probed
      contradiction
    | ok w =>
      rw [walked] at probed
      exact .inl ⟨translated, w, rfl, Except.ok.inj probed⟩
  next plain => exact .inr ⟨plain, Except.ok.inj probed⟩

theorem marked_of_error {f : MemFault} (failed : probe ram c vaddr kind = .error f) :
    marked ram c vaddr kind = ram := by
  obtain ⟨translated, walked⟩ := probe_eq_error failed
  rw [marked, plan_reset, if_pos translated, walked]
  rfl

theorem probe_error_fault {f : MemFault} (failed : probe ram c vaddr kind = .error f) :
    f = .access kind (c.xlen.truncate vaddr) ∨ f = .page kind (c.xlen.truncate vaddr) := by
  obtain ⟨-, walked⟩ := probe_eq_error failed
  obtain ⟨d, rfl⟩ := Walk.run_eq_error walked
  cases d with
  | outside => exact .inl rfl
  | invalid => exact .inr rfl

/-- Marks change no probe. -/
theorem probe_of_onlyMarks (only : OnlyMarks c ram s) (vaddr : UInt64) (kind : AccessKind) :
    probe s c vaddr kind = probe ram c vaddr kind := by
  obtain ⟨bits, -, same⟩ := Walk.run_marking only.marking (c.xlen.truncate vaddr) kind
    (c.effectivePrivilege kind)
  rw [probe_eq, probe_eq, same]
  split
  · cases Walk.run ram c (c.xlen.truncate vaddr) kind (c.effectivePrivilege kind) <;> rfl
  · rfl

/-! ### Addresses of one page -/

section Page

variable (page : pageOf c other = pageOf c vaddr)
include page

private theorem probe_of_page (probed : probe ram c vaddr kind = .ok p) :
    probe ram c other kind =
      .ok (((p >>> pageShift) <<< pageShift) ||| pageOffset (c.xlen.truncate other)) := by
  have same : c.xlen.truncate vaddr >>> pageShift = c.xlen.truncate other >>> pageShift := page.symm
  rcases probe_eq_ok probed with ⟨translated, w, walked, rfl⟩ | ⟨plain, rfl⟩
  · rw [probe_eq, if_pos translated, Walk.run_of_page same walked]
    rfl
  · rw [probe_eq, if_neg plain, same, page_or_pageOffset]

theorem marked_of_page (probed : probe ram c vaddr kind = .ok p) :
    marked (marked ram c vaddr kind) c other kind = marked ram c vaddr kind := by
  rcases probe_eq_ok probed with ⟨translated, w, walked, rfl⟩ | ⟨plain, rfl⟩
  · have again := Walk.run_of_page page.symm (run_updateLeaf walked)
    simp only [marked, plan_reset, if_pos translated, walked, again]
    rfl
  · simp only [marked, plan_reset, if_neg plain]
    rfl

end Page

private theorem pageOffset_of_probe (probed : probe ram c vaddr kind = .ok p) :
    ((p >>> pageShift) <<< pageShift) ||| pageOffset (c.xlen.truncate vaddr) = p := by
  have page : pageOf c vaddr = pageOf c vaddr := rfl
  have again := probe_of_page page probed
  rw [probed] at again
  exact (Except.ok.inj again).symm

theorem toNat_probe_mod (probed : probe ram c vaddr kind = .ok p) :
    p.toNat % 2 ^ 12 = (c.xlen.truncate vaddr).toNat % 2 ^ 12 := by
  have place := toNat_pageOffset (c.xlen.truncate vaddr)
  rw [← pageOffset_of_probe probed, toNat_page_or _ (by omega), place]
  omega

theorem toNat_plan_mod (planned : (u.plan ram c vaddr kind).result = .ok p) :
    p.toNat % 2 ^ 12 = (c.xlen.truncate vaddr).toNat % 2 ^ 12 := by
  cases found : u.cached? c (c.xlen.truncate vaddr) kind with
  | none =>
    rw [plan_of_missed found, result_plan_reset] at planned
    exact toNat_probe_mod planned
  | some entry =>
    unfold plan at planned
    split at planned
    · simp only [found, Plan.result, cachedAddr] at planned
      split at planned
      · have place := toNat_pageOffset (c.xlen.truncate vaddr)
        rw [← Except.ok.inj planned, toNat_page_or _ (by omega), place]
        omega
      · contradiction
    · rw [← Except.ok.inj planned]

/-- Bytes of one page that lie `k` apart virtually lie `k` apart physically. -/
theorem probe_add {k : Nat} (page : pageOf c other = pageOf c vaddr)
    (apart : (pageOffset (c.xlen.truncate other)).toNat =
      (pageOffset (c.xlen.truncate vaddr)).toNat + k)
    (probed : probe ram c vaddr kind = .ok p) :
    probe ram c other kind = .ok (p + k.toUInt64) := by
  have start := pageOffset_of_probe probed
  have short := toNat_pageOffset (c.xlen.truncate other)
  rw [probe_of_page page probed]
  congr 1
  rw [page_or_add (by omega) apart, start]

end Mmu

end RiscvBoard
