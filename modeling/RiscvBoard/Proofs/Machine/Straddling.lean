import RiscvBoard.Proofs.Machine.LoadEffects
import RiscvBoard.Proofs.Machine.Step

/-!
Accesses that are not translated, as intervals of byte addresses. An access inside one page goes to
memory or to one device as a whole. One that crosses into the next page is taken apart into bytes;
the layout of the board makes up for that everywhere but at one boundary between two windows.
-/

set_option autoImplicit false

namespace RiscvBoard

/-! ### Byte addresses -/

namespace Xlen

def byteAddr (xlen : Xlen) (vaddr : UInt64) (i : Nat) : Nat :=
  (vaddr.toNat + i) % 2 ^ xlen.bits

theorem truncate_truncate (xlen : Xlen) (value : UInt64) :
    xlen.truncate (xlen.truncate value) = xlen.truncate value := by
  apply UInt64.toNat_inj.1
  rw [toNat_truncate, toNat_truncate, Nat.mod_mod]

theorem byteAddr_truncate (xlen : Xlen) (vaddr : UInt64) (i : Nat) :
    xlen.byteAddr (xlen.truncate vaddr) i = xlen.byteAddr vaddr i := by
  rw [byteAddr, toNat_truncate, Nat.mod_add_mod, byteAddr]

end Xlen

private theorem Xlen.byteAddr_eq_add {xlen : Xlen} {vaddr : UInt64} {i n : Nat} (short : n < 8)
    (last : 8 ≤ xlen.byteAddr vaddr n) (below : i ≤ n) :
    xlen.byteAddr vaddr i = xlen.byteAddr vaddr 0 + i := by
  unfold byteAddr at last ⊢
  cases xlen <;> (simp only [bits] at last ⊢; omega)

private theorem toNat_or_pageMask (addr : UInt64) :
    (addr ||| 0xfff).toNat = 2 ^ 12 * (addr.toNat / 2 ^ 12) + (2 ^ 12 - 1) := by
  rw [UInt64.toNat_or]
  apply Nat.eq_of_testBit_eq
  intro i
  rw [Nat.testBit_or, Nat.testBit_two_pow_mul_add _ (by decide), Nat.testBit_two_pow_sub_one,
    show (0xfff : UInt64).toNat = 2 ^ 12 - 1 from rfl, Nat.testBit_two_pow_sub_one]
  split
  · rename_i low
    simp [low]
  · rename_i high
    rw [Nat.testBit_div_two_pow, Nat.sub_add_cancel (by omega)]
    simp [high]

namespace Machine

theorem toNat_nextPage (xlen : Xlen) (addr : UInt64) :
    (nextPage xlen addr).toNat = 2 ^ 12 * (addr.toNat / 2 ^ 12 + 1) % 2 ^ xlen.bits := by
  have bound := addr.toNat_lt
  have whole : 2 ^ 12 * (addr.toNat / 2 ^ 12) + (2 ^ 12 - 1) + 1 =
      2 ^ 12 * (addr.toNat / 2 ^ 12 + 1) := by
    omega
  rw [nextPage, Xlen.toNat_truncate, UInt64.toNat_add, toNat_or_pageMask,
    show (1 : UInt64).toNat = 1 from rfl, whole]
  cases xlen with
  | rv32 => exact Nat.mod_mod_of_dvd _ (by decide)
  | rv64 => exact Nat.mod_mod _ _

def plainSpan (xlen : Xlen) (addr : UInt64) (w : Width) : Span :=
  if (pageOffset addr).toNat + w.bytes ≤ pageSize then ⟨addr, none⟩
  else ⟨addr, some (nextPage xlen addr, pageSize - (pageOffset addr).toNat)⟩

private theorem toNat_byteAddr_plainSpan {xlen : Xlen} {addr : UInt64}
    (fits : xlen.truncate addr = addr) {w : Width} {i : Nat} (short : i < w.bytes) :
    ((plainSpan xlen addr w).byteAddr i).toNat = xlen.byteAddr addr i := by
  have few := w.bytes_le
  have small : addr.toNat < 2 ^ xlen.bits := by
    rw [← fits, Xlen.toNat_truncate]
    exact Nat.mod_lt _ (Nat.two_pow_pos _)
  have added (start : UInt64) (k : Nat) (low : k < 8) :
      (start + k.toUInt64).toNat = (start.toNat + k) % 2 ^ 64 := by
    rw [UInt64.toNat_add]
    congr 2
    exact Nat.mod_eq_of_lt (by omega)
  unfold plainSpan Xlen.byteAddr
  rw [toNat_pageOffset, pageSize]
  split
  · rename_i inside
    show (addr + i.toUInt64).toNat = _
    rw [added _ _ (by omega)]
    cases xlen with
    | rv32 =>
      simp only [Xlen.bits] at small ⊢
      omega
    | rv64 => rfl
  rename_i crossing
  simp only [Span.byteAddr]
  split
  · rw [added _ _ (by omega)]
    cases xlen with
    | rv32 =>
      simp only [Xlen.bits] at small ⊢
      omega
    | rv64 => rfl
  · rw [added _ _ (by omega), toNat_nextPage]
    cases xlen <;> (simp only [Xlen.bits] at small ⊢; omega)

section Untranslated

variable {m : Machine} {kind : AccessKind}
variable (untranslated : Mmu.isTranslated m.hart.csrs kind = false)
include untranslated

private theorem translate_of_untranslated (vaddr : UInt64) :
    translate vaddr kind m = .ok (m.xlen.truncate vaddr) m := by
  have plan : m.mmu.plan m.bus.ram m.hart.csrs vaddr kind = .identity (m.xlen.truncate vaddr) := by
    rw [Mmu.plan, untranslated]
    rfl
  rw [translate, plan]
  rfl

private theorem translateSpan_of_untranslated (vaddr : UInt64) (w : Width) :
    translateSpan (m.xlen.truncate vaddr) w kind m =
      .ok (plainSpan m.xlen (m.xlen.truncate vaddr) w) m := by
  have next : m.xlen.truncate (nextPage m.xlen (m.xlen.truncate vaddr)) =
      nextPage m.xlen (m.xlen.truncate vaddr) := Xlen.truncate_truncate _ _
  have translated := translate_of_untranslated untranslated
  unfold translateSpan plainSpan
  by_cases inside : (pageOffset (m.xlen.truncate vaddr)).toNat + w.bytes ≤ pageSize
  · simp only [bind_of_ok (translated _), Xlen.truncate_truncate, if_pos inside]
    rfl
  · simp only [bind_of_ok (translated _), Xlen.truncate_truncate, if_neg inside, bind_get, next]
    rfl

end Untranslated

/-! ### Outcomes of accesses -/

section Outcomes

variable {m m₁ : Machine} {vaddr : UInt64} {w : Width} {span : Span}

/-- A load whose addresses are translated succeeds exactly if all of its span is answered. -/
theorem load_ok_iff
    (translated : translateSpan (m.xlen.truncate vaddr) w .load m = .ok span m₁) :
    (∃ value m', load vaddr w m = .ok value m') ↔ span.Served m₁.bus.answers w := by
  obtain ⟨served, done⟩ | ⟨missed, read, failed, -⟩ := load_cases translated
  · exact iff_of_true done served
  · refine iff_of_false ?_ missed
    rintro ⟨value, m', done⟩
    rw [failed] at done
    contradiction

private theorem load_ok_or_fault
    (translated : translateSpan (m.xlen.truncate vaddr) w .load m = .ok span m₁) :
    (∃ value m', load vaddr w m = .ok value m') ∨
      ∃ m', load vaddr w m = .error (.access .load (m.xlen.truncate vaddr)) m' := by
  obtain ⟨-, done⟩ | ⟨-, read, failed, -⟩ := load_cases translated
  · exact .inl done
  · exact .inr ⟨_, failed⟩

/-- What a store does once its addresses are translated. It succeeds if all of its span is accepted.
Else it is an access fault and changes nothing. -/
theorem store_cases
    (translated : translateSpan (m.xlen.truncate vaddr) w .store m = .ok span m₁)
    (value : UInt64) :
    (span.Served m₁.bus.acceptsStore w ∧ ∃ m', store vaddr w value m = .ok () m') ∨
    (¬ span.Served m₁.bus.acceptsStore w ∧
      store vaddr w value m = .error (.access .store (m.xlen.truncate vaddr)) m₁) := by
  simp only [store, bind_get, bind_of_ok translated]
  unfold Span.Served
  cases next : span.next with
  | none =>
    dsimp only
    cases accepted : m₁.bus.acceptsStore span.first w with
    | true => exact .inl ⟨rfl, _, storePhys_of_accepts accepted _ value⟩
    | false => exact .inr ⟨Bool.false_ne_true, storePhys_of_not_accepts accepted _ value⟩
  | some second =>
    dsimp only
    cases accepted : m₁.acceptsBytes span w.bytes with
    | true => exact .inl ⟨acceptsBytes_iff.1 accepted, _, storeSplit_of_accepts accepted _ value⟩
    | false =>
      refine .inr ⟨fun all => ?_, storeSplit_of_not_accepts accepted _ value⟩
      rw [acceptsBytes_iff.2 all] at accepted
      contradiction

private theorem store_ok_iff
    (translated : translateSpan (m.xlen.truncate vaddr) w .store m = .ok span m₁)
    (value : UInt64) :
    (∃ m', store vaddr w value m = .ok () m') ↔ span.Served m₁.bus.acceptsStore w := by
  obtain ⟨served, done⟩ | ⟨missed, failed⟩ := store_cases translated value
  · exact iff_of_true done served
  · refine iff_of_false ?_ missed
    rintro ⟨m', done⟩
    rw [failed] at done
    contradiction

end Outcomes

/-! ### The layout of the board -/

def InMemory (m : Machine) (vaddr : UInt64) (w : Width) : Prop :=
  ∀ i < w.bytes, m.bus.ram.Holds (m.xlen.byteAddr vaddr i)

def InWindow (m : Machine) (vaddr : UInt64) (w : Width) (d : Device) : Prop :=
  ∀ i < w.bytes, d.Holds (m.xlen.byteAddr vaddr i)

/-- An access begins in the window of the interrupt controller and ends in the window of the serial
line. -/
def Straddles (m : Machine) (vaddr : UInt64) (w : Width) : Prop :=
  Device.plic.Holds (m.xlen.byteAddr vaddr 0) ∧
    Device.uart.Holds (m.xlen.byteAddr vaddr (w.bytes - 1))

section Layout

variable {allowed : Device → Prop} (plic : allowed .plic) (uart : allowed .uart)
include plic uart

private theorem held_iff (m : Machine) (vaddr : UInt64) (w : Width) :
    (∀ i < w.bytes, m.bus.ram.Holds (m.xlen.byteAddr vaddr i) ∨
      ∃ d, allowed d ∧ d.Holds (m.xlen.byteAddr vaddr i)) ↔
    m.InMemory vaddr w ∨ (∃ d, allowed d ∧ m.InWindow vaddr w d) ∨ m.Straddles vaddr w := by
  have some := w.bytes_pos
  have few := w.bytes_le
  have base : Ram.base.toNat = 0x80000000 := rfl
  constructor
  · intro held
    have first := held 0 some
    have last := held (w.bytes - 1) (by omega)
    have low : 8 ≤ m.xlen.byteAddr vaddr (w.bytes - 1) := by
      obtain ⟨above, -⟩ | ⟨d, -, within⟩ := last
      · omega
      · exact within.bounds.1
    have place {i : Nat} (short : i < w.bytes) :
        m.xlen.byteAddr vaddr i = m.xlen.byteAddr vaddr 0 + i :=
      Xlen.byteAddr_eq_add (by omega) low (by omega)
    have last_place := place (i := w.bytes - 1) (by omega)
    obtain first | ⟨d, d_allowed, first⟩ := first <;> obtain last | ⟨e, e_allowed, last⟩ := last
    · refine .inl fun i short => ?_
      rw [place short]
      unfold Ram.Holds at first last ⊢
      omega
    · have below := last.bounds.2
      obtain ⟨above, -⟩ := first
      omega
    · have below := first.bounds.2
      obtain ⟨above, -⟩ := last
      omega
    · rw [last_place] at last
      obtain rfl | ⟨rfl, rfl⟩ := first.near last (by omega)
      · refine .inr (.inl ⟨d, d_allowed, fun i short => ?_⟩)
        rw [place short]
        exact ⟨first.1.trans (Nat.le_add_right _ _), by have := last.2; omega⟩
      · rw [← last_place] at last
        exact .inr (.inr ⟨first, last⟩)
  · rintro (memory | ⟨d, d_allowed, window⟩ | ⟨first, last⟩) i short
    · exact .inl (memory i short)
    · exact .inr ⟨d, d_allowed, window i short⟩
    · have place := Xlen.byteAddr_eq_add (by omega) last.bounds.1 (show i ≤ w.bytes - 1 by omega)
      have end_place := Xlen.byteAddr_eq_add (by omega) last.bounds.1 (le_refl (w.bytes - 1))
      have meet : Device.plic.base.toNat + Device.plic.windowSize.toNat =
        Device.uart.base.toNat := rfl
      rw [place]
      rw [end_place] at last
      obtain ⟨above, -⟩ := first
      obtain ⟨-, below⟩ := last
      by_cases before : m.xlen.byteAddr vaddr 0 + i < Device.uart.base.toNat
      · exact .inr ⟨.plic, plic, by omega, by omega⟩
      · exact .inr ⟨.uart, uart, by omega, by omega⟩

/-- What serves accesses from one region at a time serves the span of an access that is not
translated exactly if its bytes lie in one region, or straddle the one boundary. -/
private theorem plainSpan_served_iff {m : Machine} {serves : UInt64 → Width → Bool}
    (regions : ∀ {addr w}, serves addr w ↔ (∀ i < w.bytes, m.bus.ram.Holds (addr.toNat + i)) ∨
      ∃ d, allowed d ∧ ∀ i < w.bytes, d.Holds (addr.toNat + i))
    (vaddr : UInt64) (w : Width) :
    (plainSpan m.xlen (m.xlen.truncate vaddr) w).Served serves w ↔
      m.InMemory vaddr w ∨ (∃ d, allowed d ∧ m.InWindow vaddr w d) ∨ m.Straddles vaddr w := by
  have fits := m.xlen.truncate_truncate vaddr
  have same := m.xlen.byteAddr_truncate vaddr
  have small := Nat.mod_lt vaddr.toNat (Nat.two_pow_pos m.xlen.bits)
  rw [← Xlen.toNat_truncate] at small
  generalize m.xlen.truncate vaddr = addr at fits same small
  by_cases inside : (pageOffset addr).toNat + w.bytes ≤ pageSize
  · -- The access stays in its page, and every boundary between windows is one between pages.
    have span : plainSpan m.xlen addr w = ⟨addr, none⟩ := if_pos inside
    rw [toNat_pageOffset, pageSize] at inside
    have place {i : Nat} (short : i < w.bytes) : m.xlen.byteAddr vaddr i = addr.toNat + i := by
      rw [← same, Xlen.byteAddr]
      apply Nat.mod_eq_of_lt
      cases width : m.xlen <;> rw [width] at small <;> simp only [Xlen.bits] at small ⊢ <;> omega
    have whole {holds : Nat → Prop} : (∀ i < w.bytes, holds (addr.toNat + i)) ↔
        ∀ i < w.bytes, holds (m.xlen.byteAddr vaddr i) :=
      forall₂_congr fun i short => by rw [place short]
    have apart : ¬ m.Straddles vaddr w := by
      rintro ⟨⟨-, first⟩, last, -⟩
      have positive := w.bytes_pos
      rw [place positive] at first
      rw [place (by omega)] at last
      simp only [Device.base, Device.windowSize, UInt64.reduceToNat] at first last
      omega
    rw [span, Span.Served, regions, whole, InMemory, or_iff_left apart]
    exact or_congr_right (exists_congr fun d => and_congr_right fun _ => whole)
  · -- Each byte is served on its own, and `held_iff` puts the bytes together again.
    have crosses : (plainSpan m.xlen addr w).next =
        some (nextPage m.xlen addr, pageSize - (pageOffset addr).toNat) := by
      rw [plainSpan, if_neg inside]
    rw [Span.Served, crosses, ← held_iff plic uart]
    refine forall₂_congr fun i short => ?_
    rw [Bus.serves_byte_iff regions, toNat_byteAddr_plainSpan fits short, same]

end Layout

/-- An access that is not translated succeeds if memory or one window holds all of its bytes. It
also succeeds, byte by byte, if it straddles the boundary between the interrupt controller and the
serial line, where two windows meet at the end of a page. In every other case it is an access fault
at its address. The description of the hardware takes no stores. -/
theorem access_of_untranslated {m : Machine}
    (untranslated : Mmu.isTranslated m.hart.csrs .load = false) (vaddr : UInt64) (w : Width) :
    ((∃ value m', load vaddr w m = .ok value m') ↔
      m.InMemory vaddr w ∨ (∃ d, m.InWindow vaddr w d) ∨ m.Straddles vaddr w) ∧
    ((∃ value m', load vaddr w m = .ok value m') ∨
      ∃ m', load vaddr w m = .error (.access .load (m.xlen.truncate vaddr)) m') ∧
    ∀ value,
      ((∃ m', store vaddr w value m = .ok () m') ↔
        m.InMemory vaddr w ∨ (∃ d, d ≠ .deviceTree ∧ m.InWindow vaddr w d) ∨
          m.Straddles vaddr w) ∧
      ((∃ m', store vaddr w value m = .ok () m') ∨
        store vaddr w value m = .error (.access .store (m.xlen.truncate vaddr)) m) := by
  have same_privilege : m.hart.csrs.effectivePrivilege .store =
      m.hart.csrs.effectivePrivilege .load := by
    simp [CsrFile.effectivePrivilege]
  have untranslated_store : Mmu.isTranslated m.hart.csrs .store = false := by
    rw [← untranslated, Mmu.isTranslated, same_privilege, Mmu.isTranslated]
  have loads := translateSpan_of_untranslated untranslated vaddr w
  have stores := translateSpan_of_untranslated untranslated_store vaddr w
  have any_device {property : Device → Prop} :
      (∃ d : Device, True ∧ property d) ↔ ∃ d, property d := by
    simp only [true_and]
  have answered : (plainSpan m.xlen (m.xlen.truncate vaddr) w).Served m.bus.answers w ↔
      m.InMemory vaddr w ∨ (∃ d, m.InWindow vaddr w d) ∨ m.Straddles vaddr w := by
    rw [← any_device]
    refine plainSpan_served_iff trivial trivial (fun {addr w} => ?_) vaddr w
    rw [any_device]
    exact Bus.answers_iff
  have accepted : (plainSpan m.xlen (m.xlen.truncate vaddr) w).Served m.bus.acceptsStore w ↔
      m.InMemory vaddr w ∨ (∃ d, d ≠ .deviceTree ∧ m.InWindow vaddr w d) ∨
        m.Straddles vaddr w :=
    plainSpan_served_iff (by decide) (by decide) Bus.acceptsStore_iff vaddr w
  refine ⟨(load_ok_iff loads).trans answered, load_ok_or_fault loads, fun value =>
    ⟨(store_ok_iff stores value).trans accepted, ?_⟩⟩
  obtain ⟨-, done⟩ | ⟨-, failed⟩ := store_cases stores value
  · exact .inl done
  · exact .inr failed

/-- A load from the registers of the serial line, and a store to the description of the hardware. -/
theorem access_of_untranslated_withoutMemory :
    Mmu.isTranslated (withoutMemory .machine).hart.csrs .load = false ∧
      (∃ value m', load 0x10000004 .word (withoutMemory .machine) = .ok value m') ∧
      store 0x1020 .double 0 (withoutMemory .machine) =
        .error (.access .store 0x1020) (withoutMemory .machine) := by
  have untranslated : Mmu.isTranslated (withoutMemory .machine).hart.csrs .load = false := by decide
  obtain ⟨loads, -, -⟩ := access_of_untranslated untranslated 0x10000004 .word
  obtain ⟨-, -, stores⟩ := access_of_untranslated untranslated 0x1020 .double
  obtain ⟨accepted, stored | failed⟩ := stores 0
  · exfalso
    obtain memory | ⟨d, writable, window⟩ | ⟨first, -⟩ := accepted.1 stored
    · exact absurd (memory 0 (by decide)).1 (by decide)
    · have first := window 0 (by decide)
      revert writable first
      cases d <;> decide
    · exact absurd first (by decide)
  · have window : (withoutMemory .machine).InWindow 0x10000004 .word .uart := by
      unfold InWindow
      decide
    exact ⟨untranslated, loads.2 (.inr (.inl ⟨.uart, window⟩)), failed⟩

/-- A load of two bytes from the interrupt controller and two from the serial line succeeds. -/
theorem load_straddles_windows :
    Mmu.isTranslated (withoutMemory .machine).hart.csrs .load = false ∧
      (∃ value m', load 0xffffffe .word (withoutMemory .machine) = .ok value m') ∧
      ¬ (withoutMemory .machine).InMemory 0xffffffe .word ∧
      ∀ d, ¬ (withoutMemory .machine).InWindow 0xffffffe .word d := by
  refine ⟨by decide, ⟨_, _, rfl⟩, fun memory => ?_, fun d window => ?_⟩
  · exact absurd (memory 0 (by decide)).1 (by decide)
  · have first := window 0 (by decide)
    have last := window 3 (by decide)
    revert first last
    cases d <;> decide

end Machine

end RiscvBoard
