import RiscvBoard.Proofs.Machine.Storing
import RiscvBoard.Proofs.Paging.Marks

/-!
What the memory accesses of the machine leave alone. A load, and a store that fails, touch nothing
but the paging unit, the devices, the reservation and the marks of page table entries.
-/

set_option autoImplicit false

namespace RiscvBoard

namespace MemFault

def Fits (xlen : Xlen) : MemFault → Prop
  | outOfRange addr | access _ addr | page _ addr => xlen.Fits addr

private theorem fits_of_defect {xlen : Xlen} {kind : AccessKind} {addr : UInt64} (d : Walk.Defect)
    (fits : xlen.Fits addr) : (d.fault kind addr).Fits xlen := by
  cases d <;> exact fits

end MemFault

namespace Machine

/-- Whether a machine differs from another one in nothing but the paging unit, the devices, the
reservation and marks in the page tables. -/
structure Undisturbed (m m' : Machine) : Prop where
  hart : m'.hart = m.hart
  tohost : m'.tohost = m.tohost
  exitCode : m'.exitCode = m.exitCode
  ram : OnlyMarks m.hart.csrs m.bus.ram m'.bus.ram

namespace Undisturbed

variable {m m₁ m₂ : Machine}

theorem refl (m : Machine) : Undisturbed m m :=
  ⟨rfl, rfl, rfl, .refl _ _⟩

theorem trans (first : Undisturbed m m₁) (second : Undisturbed m₁ m₂) : Undisturbed m m₂ := by
  have rest := second.ram
  rw [first.hart] at rest
  exact ⟨second.hart.trans first.hart, second.tohost.trans first.tohost,
    second.exitCode.trans first.exitCode, first.ram.trans rest⟩

theorem xlen (same : Undisturbed m m₁) : m₁.xlen = m.xlen :=
  congrArg Hart.xlen same.hart

end Undisturbed

/-- How an access fails: it disturbs nothing, and reports an address of the register width. -/
def Failed (m : Machine) (f : MemFault) (m' : Machine) : Prop :=
  Undisturbed m m' ∧ f.Fits m.xlen

private theorem Failed.trans {m m₁ m₂ : Machine} {f : MemFault} (first : Undisturbed m m₁)
    (second : Failed m₁ f m₂) : Failed m f m₂ :=
  ⟨first.trans second.1, first.xlen ▸ second.2⟩

private theorem ends_access_bind {α β : Type} {x : Access α} {f : α → Access β} {m : Machine}
    (first : Ends x m (fun _ m₁ => Undisturbed m m₁) (Failed m))
    (second : ∀ a m₁, Undisturbed m m₁ →
      Ends (f a) m₁ (fun _ m₂ => Undisturbed m₁ m₂) (Failed m₁)) :
    Ends (x >>= f) m (fun _ m₂ => Undisturbed m m₂) (Failed m) := by
  refine first.bind fun a m₁ same => ?_
  exact (second a m₁ same).mono (fun _ _ rest => same.trans rest)
    (fun _ _ failed => Failed.trans same failed)

/-! ### Accesses -/

private theorem fits_of_plan {u : Mmu} {ram : Ram} {c : CsrFile} {vaddr : UInt64}
    {kind : AccessKind} {f : MemFault} (failed : (u.plan ram c vaddr kind).result = .error f) :
    f.Fits c.xlen := by
  have fits := c.xlen.fits_truncate vaddr
  by_cases translated : Mmu.isTranslated c kind
  swap
  · simp [Mmu.plan, translated, Mmu.Plan.result] at failed
  simp only [Mmu.plan, if_pos translated] at failed
  cases cached : u.cached? c (c.xlen.truncate vaddr) kind with
  | some entry =>
    simp only [cached, Mmu.Plan.result, Mmu.cachedAddr] at failed
    split at failed
    · contradiction
    · obtain rfl := Except.error.inj failed
      exact fits
  | none =>
    simp only [cached, Mmu.Plan.result] at failed
    cases walked : Walk.run ram c (c.xlen.truncate vaddr) kind (c.effectivePrivilege kind) with
    | ok w =>
      rw [walked] at failed
      contradiction
    | error g =>
      rw [walked] at failed
      obtain rfl := Except.error.inj failed
      obtain ⟨d, rfl⟩ := Walk.run_eq_error walked
      exact MemFault.fits_of_defect d fits

theorem ends_translate (vaddr : UInt64) (kind : AccessKind) (m : Machine) :
    Ends (translate vaddr kind) m (fun _ m' => Undisturbed m m') (Failed m) := by
  have only := Mmu.updateLeaf_onlyMarks m.mmu m.bus.ram m.hart.csrs vaddr kind
  cases result : (m.mmu.plan m.bus.ram m.hart.csrs vaddr kind).result with
  | ok paddr =>
    simp only [Ends, translate, result]
    exact ⟨rfl, rfl, rfl, only⟩
  | error f =>
    simp only [Ends, translate, result]
    exact ⟨⟨rfl, rfl, rfl, only⟩, fits_of_plan result⟩

theorem ends_translateSpan (vaddr : UInt64) (w : Width) (kind : AccessKind) (m : Machine) :
    Ends (translateSpan vaddr w kind) m (fun _ m' => Undisturbed m m') (Failed m) := by
  refine ends_access_bind (ends_translate vaddr kind m) fun first m₁ _ => ?_
  split
  · exact .refl m₁
  · refine ends_access_bind (show Ends get m₁ _ _ from .refl m₁) fun _ m₂ _ => ?_
    refine ends_access_bind (ends_translate _ kind m₂) fun second m₃ _ => ?_
    exact .refl m₃

inductive TranslatesSpan (m : Machine) (addr : UInt64) (w : Width) (kind : AccessKind) :
    EStateM.Result MemFault Machine Span → Prop where
  /-- The address of the access faults. -/
  | firstFault {f : MemFault} {m₁ : Machine} (first : translate addr kind m = .error f m₁) :
    TranslatesSpan m addr w kind (.error f m₁)
  /-- The access stays in its page. -/
  | whole {p : UInt64} {m₁ : Machine} (first : translate addr kind m = .ok p m₁)
    (inside : (pageOffset addr).toNat + w.bytes ≤ pageSize) :
    TranslatesSpan m addr w kind (.ok ⟨p, none⟩ m₁)
  /-- The access crosses into the next page, which faults. -/
  | nextFault {p : UInt64} {f : MemFault} {m₁ m₂ : Machine}
    (first : translate addr kind m = .ok p m₁)
    (crosses : ¬ (pageOffset addr).toNat + w.bytes ≤ pageSize)
    (second : translate (nextPage m.xlen addr) kind m₁ = .error f m₂) :
    TranslatesSpan m addr w kind (.error f m₂)
  /-- The access crosses into the next page. -/
  | split {p q : UInt64} {m₁ m₂ : Machine} (first : translate addr kind m = .ok p m₁)
    (crosses : ¬ (pageOffset addr).toNat + w.bytes ≤ pageSize)
    (second : translate (nextPage m.xlen addr) kind m₁ = .ok q m₂) :
    TranslatesSpan m addr w kind (.ok ⟨p, some (q, pageSize - (pageOffset addr).toNat)⟩ m₂)

theorem translatesSpan (m : Machine) (addr : UInt64) (w : Width) (kind : AccessKind) :
    TranslatesSpan m addr w kind (translateSpan addr w kind m) := by
  unfold translateSpan
  cases first : translate addr kind m with
  | error f m₁ =>
    rw [bind_of_error first]
    exact .firstFault first
  | ok p m₁ =>
    rw [bind_of_ok first]
    by_cases inside : (pageOffset addr).toNat + w.bytes ≤ pageSize
    · rw [if_pos inside]
      exact .whole first inside
    · have xlen : m₁.xlen = m.xlen := ((ends_translate addr kind m).of_ok first).xlen
      rw [if_neg inside, bind_get, xlen]
      cases second : translate (nextPage m.xlen addr) kind m₁ with
      | error f m₂ =>
        rw [bind_of_error second]
        exact .nextFault first inside second
      | ok q m₂ =>
        rw [bind_of_ok second]
        exact .split first inside second

private theorem afterLoad_ram (b : Bus) (offset : UInt64) (d : Device) :
    (b.afterLoad offset d).ram = b.ram := by
  cases d <;> rfl

theorem ends_loadPhys {paddr vaddr : UInt64} {m : Machine} (fits : m.xlen.Fits vaddr) (w : Width)
    (kind : AccessKind) :
    Ends (loadPhys paddr vaddr w kind) m (fun _ m' => Undisturbed m m') (Failed m) := by
  unfold Ends loadPhys Bus.load
  by_cases inside : m.bus.ram.contains paddr w.bytes
  · simp only [if_pos inside]
    exact .refl m
  · simp only [if_neg inside]
    cases Bus.device? paddr w with
    | none => exact ⟨.refl m, fits⟩
    | some found =>
      refine ⟨rfl, rfl, rfl, ?_⟩
      simp only [afterLoad_ram]
      exact .refl _ _

private theorem ends_loadBytes {vaddr : UInt64} {m : Machine} (fits : m.xlen.Fits vaddr) (s : Span)
    (n : Nat) (value : UInt64) :
    Ends (loadBytes s vaddr n value) m (fun _ m' => Undisturbed m m') (Failed m) := by
  induction n generalizing m value with
  | zero => exact .refl m
  | succ i ih =>
    refine ends_access_bind (ends_loadPhys fits .byte .load) fun byte m₁ same => ?_
    exact ih (same.xlen ▸ fits) _

theorem ends_load (vaddr : UInt64) (w : Width) (m : Machine) :
    Ends (load vaddr w) m (fun _ m' => Undisturbed m m') (Failed m) := by
  have fits := m.xlen.fits_truncate vaddr
  have spans := ends_translateSpan (m.xlen.truncate vaddr) w .load m
  unfold load
  rw [ends_bind, ends_get]
  refine ends_access_bind spans fun span m₁ same => ?_
  have here : m₁.xlen.Fits (m.xlen.truncate vaddr) := by rwa [same.xlen]
  cases span.next with
  | none => exact ends_loadPhys here w .load
  | some next => exact ends_loadBytes here span w.bytes 0

def SameHart (m m' : Machine) : Prop :=
  m'.hart = m.hart ∧ m'.tohost = m.tohost

private theorem SameHart.after {m m₁ m₂ : Machine} (same : Undisturbed m m₁)
    (rest : SameHart m₁ m₂) : SameHart m m₂ :=
  ⟨rest.1.trans same.hart, rest.2.trans same.tohost⟩

theorem checkTohost_sameHart (m : Machine) (paddr value : UInt64) :
    SameHart m (m.checkTohost paddr value) := by
  unfold checkTohost
  split <;> exact ⟨rfl, rfl⟩

private theorem writeBytes_sameHart (s : Span) (value : UInt64) (m : Machine) (i n : Nat) :
    SameHart m (writeBytes s value m i n) := by
  induction n generalizing m i with
  | zero => exact ⟨rfl, rfl⟩
  | succ n ih => exact ih _ _

theorem ends_storePhys {paddr vaddr : UInt64} {m : Machine} (fits : m.xlen.Fits vaddr) (w : Width)
    (value : UInt64) :
    Ends (storePhys paddr vaddr w value) m (fun _ m' => SameHart m m') (Failed m) := by
  unfold Ends
  cases accepted : m.bus.acceptsStore paddr w with
  | true =>
    rw [storePhys_of_accepts accepted]
    exact checkTohost_sameHart _ _ _
  | false =>
    rw [storePhys_of_not_accepts accepted]
    exact ⟨.refl m, fits⟩

private theorem ends_storeSplit {vaddr : UInt64} {m : Machine} (fits : m.xlen.Fits vaddr) (s : Span)
    (w : Width) (value : UInt64) :
    Ends (storeSplit s vaddr w value) m (fun _ m' => SameHart m m') (Failed m) := by
  unfold Ends
  cases accepted : m.acceptsBytes s w.bytes with
  | true =>
    rw [storeSplit_of_accepts accepted]
    have written := writeBytes_sameHart s value m 0 w.bytes
    have checked := checkTohost_sameHart (writeBytes s value m 0 w.bytes) s.first (w.truncate value)
    exact ⟨checked.1.trans written.1, checked.2.trans written.2⟩
  | false =>
    rw [storeSplit_of_not_accepts accepted]
    exact ⟨.refl m, fits⟩

theorem ends_store (vaddr : UInt64) (w : Width) (value : UInt64) (m : Machine) :
    Ends (store vaddr w value) m (fun _ m' => SameHart m m') (Failed m) := by
  have fits := m.xlen.fits_truncate vaddr
  have spans := ends_translateSpan (m.xlen.truncate vaddr) w .store m
  unfold store
  rw [ends_bind, ends_get]
  refine spans.bind fun span m₁ same => ?_
  have here : m₁.xlen.Fits (m.xlen.truncate vaddr) := by rwa [same.xlen]
  suffices stored : Ends _ m₁ (fun _ m₂ => SameHart m₁ m₂) (Failed m₁) from
    stored.mono (fun _ _ rest => .after same rest) (fun _ _ failed => .trans same failed)
  cases span.next with
  | none => exact ends_storePhys here w value
  | some next => exact ends_storeSplit here span w value

end Machine

end RiscvBoard
