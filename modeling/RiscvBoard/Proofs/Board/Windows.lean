import Mathlib.Algebra.Group.Nat.Defs
import RiscvBoard.Board.Bus

/-!
The physical address space as intervals of numbers: guest memory and the windows of the devices. A
load is answered exactly if one of them holds all of its bytes; a store is accepted exactly if one
of them does that can be written.
-/

set_option autoImplicit false

namespace RiscvBoard

theorem Width.bytes_pos (w : Width) : 0 < w.bytes := by
  cases w <;> decide

theorem Width.bytes_le (w : Width) : w.bytes ≤ 8 := by
  cases w <;> decide

/-! ### Guest memory -/

def Ram.Holds (r : Ram) (addr : Nat) : Prop :=
  Ram.base.toNat ≤ addr ∧ addr < Ram.base.toNat + r.size

theorem Ram.contains_iff {r : Ram} {addr : UInt64} {n : Nat} (some : 0 < n) :
    r.contains addr n ↔ ∀ i < n, r.Holds (addr.toNat + i) := by
  rw [Ram.contains, Bool.and_eq_true, decide_eq_true_iff, decide_eq_true_iff,
    UInt64.le_iff_toNat_le]
  constructor
  · rintro ⟨above, inside⟩ i short
    rw [Ram.offset, UInt64.toNat_sub_of_le _ _ (UInt64.le_iff_toNat_le.2 above)] at inside
    exact ⟨by omega, by omega⟩
  · intro held
    obtain ⟨above, -⟩ := held 0 some
    obtain ⟨-, inside⟩ := held (n - 1) (by omega)
    have above : Ram.base.toNat ≤ addr.toNat := above
    refine ⟨above, ?_⟩
    rw [Ram.offset, UInt64.toNat_sub_of_le _ _ (UInt64.le_iff_toNat_le.2 above)]
    omega

/-! ### Windows -/

namespace Device

def Holds (d : Device) (addr : Nat) : Prop :=
  d.base.toNat ≤ addr ∧ addr < d.base.toNat + d.windowSize.toNat
  deriving Decidable

private theorem covers_iff {d : Device} {addr : UInt64} : d.covers addr ↔ d.Holds addr.toNat := by
  rw [covers, Bool.and_eq_true, decide_eq_true_iff, decide_eq_true_iff, UInt64.le_iff_toNat_le,
    UInt64.lt_iff_toNat_lt]
  refine and_congr_right fun above => ?_
  rw [UInt64.toNat_sub_of_le _ _ (UInt64.le_iff_toNat_le.2 above)]
  omega

private theorem Holds.unique {d e : Device} {addr : Nat} (first : d.Holds addr)
    (second : e.Holds addr) : d = e := by
  unfold Holds at first second
  cases d <;> cases e <;> first
    | rfl
    | simp only [base, windowSize, UInt64.reduceToNat] at first second
      omega

theorem Holds.bounds {d : Device} {addr : Nat} (held : d.Holds addr) :
    8 ≤ addr ∧ addr + 8 ≤ Ram.base.toNat := by
  unfold Holds at held
  cases d <;> simp only [base, windowSize, Ram.base, UInt64.reduceToNat] at held ⊢ <;> omega

/-- Addresses less than eight bytes apart lie in one window, with one exception: the window of the
serial line begins where that of the interrupt controller ends. -/
theorem Holds.near {d e : Device} {addr k : Nat} (first : d.Holds addr) (last : e.Holds (addr + k))
    (short : k < 8) : d = e ∨ (d = .plic ∧ e = .uart) := by
  unfold Holds at first last
  cases d <;> cases e <;> first
    | exact .inl rfl
    | exact .inr ⟨rfl, rfl⟩
    | simp only [base, windowSize, UInt64.reduceToNat] at first last
      omega

private theorem mem_all (d : Device) : d ∈ all := by
  cases d <;> decide

private theorem find?_eq_some {addr offset : UInt64} {d : Device} :
    find? addr = some (d, offset) ↔ d.Holds addr.toNat ∧ addr - d.base = offset := by
  rw [find?, Option.map_eq_some_iff]
  constructor
  · rintro ⟨e, found, same⟩
    obtain ⟨rfl, rfl⟩ := Prod.mk.inj same
    have covered := List.find?_some found
    exact ⟨covers_iff.1 covered, rfl⟩
  · rintro ⟨held, rfl⟩
    refine ⟨d, ?_, rfl⟩
    cases found : all.find? fun d => d.covers addr with
    | none =>
      rw [List.find?_eq_none] at found
      exact absurd (covers_iff.2 held) (found d d.mem_all)
    | some e =>
      have covered := List.find?_some found
      rw [(covers_iff.1 covered).unique held]

end Device

namespace Bus

theorem device?_eq_some {addr offset : UInt64} {w : Width} {d : Device} :
    device? addr w = some (d, offset) ↔
      (∀ i < w.bytes, d.Holds (addr.toNat + i)) ∧ addr - d.base = offset := by
  have positive := w.bytes_pos
  have whole {place : UInt64} (held : d.Holds addr.toNat) (moved : addr - d.base = place) :
      place.toNat + w.bytes ≤ d.windowSize.toNat ↔ ∀ i < w.bytes, d.Holds (addr.toNat + i) := by
    obtain ⟨above, below⟩ := held
    rw [← moved, UInt64.toNat_sub_of_le _ _ (UInt64.le_iff_toNat_le.2 above)]
    constructor
    · intro inside i short
      exact ⟨by omega, by omega⟩
    · intro all
      obtain ⟨-, last⟩ := all (w.bytes - 1) (by omega)
      omega
  constructor
  · intro found
    unfold device? at found
    split at found
    · rename_i e place at_addr
      obtain ⟨held, moved⟩ := Device.find?_eq_some.1 at_addr
      split at found
      · rename_i inside
        obtain ⟨rfl, rfl⟩ := Prod.mk.inj (Option.some.inj found)
        exact ⟨(whole held moved).1 inside, moved⟩
      · contradiction
    · contradiction
  · rintro ⟨all, moved⟩
    have held : d.Holds addr.toNat := all 0 positive
    rw [device?, Device.find?_eq_some.2 ⟨held, moved⟩]
    exact if_pos ((whole held moved).2 all)

/-! ### Accesses -/

def answers (b : Bus) (addr : UInt64) (w : Width) : Bool :=
  b.ram.contains addr w.bytes || (device? addr w).isSome

theorem answers_iff {b : Bus} {addr : UInt64} {w : Width} :
    b.answers addr w ↔ (∀ i < w.bytes, b.ram.Holds (addr.toNat + i)) ∨
      ∃ d : Device, ∀ i < w.bytes, d.Holds (addr.toNat + i) := by
  rw [answers, Bool.or_eq_true, Ram.contains_iff w.bytes_pos, Option.isSome_iff_exists]
  refine or_congr_right ⟨?_, ?_⟩
  · rintro ⟨⟨d, offset⟩, found⟩
    exact ⟨d, (device?_eq_some.1 found).1⟩
  · rintro ⟨d, held⟩
    exact ⟨(d, addr - d.base), device?_eq_some.2 ⟨held, rfl⟩⟩

theorem acceptsStore_iff {b : Bus} {addr : UInt64} {w : Width} :
    b.acceptsStore addr w ↔ (∀ i < w.bytes, b.ram.Holds (addr.toNat + i)) ∨
      ∃ d : Device, d ≠ .deviceTree ∧ ∀ i < w.bytes, d.Holds (addr.toNat + i) := by
  rw [acceptsStore, Bool.or_eq_true, Ram.contains_iff w.bytes_pos]
  refine or_congr_right ?_
  constructor
  · intro accepted
    split at accepted
    · rename_i d offset found
      exact ⟨d, bne_iff_ne.1 accepted, (device?_eq_some.1 found).1⟩
    · contradiction
  · rintro ⟨d, writable, held⟩
    rw [device?_eq_some.2 ⟨held, rfl⟩]
    exact bne_iff_ne.2 writable

section Bytes

variable {b : Bus} {allowed : Device → Prop} {serves : UInt64 → Width → Bool}
  (regions : ∀ {addr w}, serves addr w ↔ (∀ i < w.bytes, b.ram.Holds (addr.toNat + i)) ∨
    ∃ d, allowed d ∧ ∀ i < w.bytes, d.Holds (addr.toNat + i))
include regions

theorem serves_byte_iff {addr : UInt64} :
    serves addr .byte ↔ b.ram.Holds addr.toNat ∨ ∃ d, allowed d ∧ d.Holds addr.toNat := by
  have one {holds : Nat → Prop} : (∀ i < Width.byte.bytes, holds (addr.toNat + i)) ↔
      holds addr.toNat :=
    ⟨fun all => all 0 Nat.zero_lt_one, fun held i short => Nat.lt_one_iff.1 short ▸ held⟩
  rw [regions, one]
  exact or_congr_right (exists_congr fun d => and_congr_right fun _ => one)

/-- Every boundary between two regions is one between pages, so that an access inside one page is
served as a whole if each of its bytes is. -/
theorem serves_iff_bytes {addr : UInt64} {w : Width}
    (page : addr.toNat % 2 ^ 12 + w.bytes ≤ 2 ^ 12) :
    serves addr w ↔ ∀ i < w.bytes, serves (addr + i.toUInt64) .byte := by
  have some := w.bytes_pos
  have bound := addr.toNat_lt
  have place {i : Nat} (short : i < w.bytes) : (addr + i.toUInt64).toNat = addr.toNat + i := by
    have small : i.toUInt64.toNat = i := by
      show i % 2 ^ 64 = i
      omega
    rw [UInt64.toNat_add, small]
    omega
  have byte {x : UInt64} : serves x .byte ↔
      b.ram.Holds x.toNat ∨ ∃ d, allowed d ∧ d.Holds x.toNat := serves_byte_iff regions
  rw [regions]
  constructor
  · intro whole i short
    rw [byte, place short]
    exact whole.imp (fun held => held i short) fun ⟨d, fits, held⟩ => ⟨d, fits, held i short⟩
  · intro bytes
    have first := byte.1 (bytes 0 some)
    have last := byte.1 (bytes (w.bytes - 1) (by omega))
    rw [place some] at first
    rw [place (by omega)] at last
    have few := w.bytes_le
    have base : Ram.base.toNat = 0x80000000 := rfl
    obtain first | ⟨d, fits, first⟩ := first <;> obtain last | ⟨e, -, last⟩ := last
    · refine .inl fun i short => ?_
      unfold Ram.Holds at first last ⊢
      omega
    · have below := last.bounds.2
      obtain ⟨above, -⟩ := first
      omega
    · -- Memory begins with a page.
      have below := first.bounds.2
      obtain ⟨above, -⟩ := last
      omega
    · obtain rfl | ⟨rfl, rfl⟩ := first.near last (by omega)
      · refine .inr ⟨d, fits, fun i short => ?_⟩
        unfold Device.Holds at first last ⊢
        omega
      · have meet : Device.plic.base.toNat + Device.plic.windowSize.toNat = 0x10000000 := rfl
        have start : Device.uart.base.toNat = 0x10000000 := rfl
        obtain ⟨-, below⟩ := first
        obtain ⟨above, -⟩ := last
        omega

end Bytes

def afterRead (b : Bus) (addr : UInt64) (w : Width) : Bus :=
  if b.ram.contains addr w.bytes then b
  else
    match device? addr w with
    | some (d, offset) => b.afterLoad offset d
    | none => b

theorem load_of_answers {b : Bus} {addr : UInt64} {w : Width} (answered : b.answers addr w) :
    ∃ value, load addr w b = .ok value (b.afterRead addr w) := by
  unfold load afterRead
  split
  · exact ⟨_, rfl⟩
  · rename_i outside
    obtain inside | found := Bool.or_eq_true_iff.1 answered
    · contradiction
    obtain ⟨⟨d, offset⟩, found⟩ := Option.isSome_iff_exists.1 found
    rw [found]
    exact ⟨_, rfl⟩

theorem load_of_not_answers {b : Bus} {addr : UInt64} {w : Width}
    (missed : b.answers addr w = false) : load addr w b = .error (.outOfRange addr) b := by
  obtain ⟨outside, absent⟩ := Bool.or_eq_false_iff.1 missed
  rw [Option.isSome_eq_false_iff, Option.isNone_iff_eq_none] at absent
  unfold load
  rw [if_neg (Bool.not_eq_true _ ▸ outside), absent]

theorem answers_of_acceptsStore {b : Bus} {addr : UInt64} {w : Width}
    (accepted : b.acceptsStore addr w) : b.answers addr w := by
  rw [answers_iff]
  obtain memory | ⟨d, -, held⟩ := acceptsStore_iff.1 accepted
  · exact .inl memory
  · exact .inr ⟨d, held⟩

/-- What can be loaded and not stored does not react to being read. -/
theorem afterRead_of_not_accepts {b : Bus} {addr : UInt64} {w : Width}
    (refused : b.acceptsStore addr w = false) : b.afterRead addr w = b := by
  obtain ⟨outside, device⟩ := Bool.or_eq_false_iff.1 refused
  rw [afterRead, if_neg (Bool.not_eq_true _ ▸ outside)]
  cases found : device? addr w with
  | none => rfl
  | some place =>
    obtain ⟨d, offset⟩ := place
    rw [found] at device
    cases d with
    | deviceTree => rfl
    | clint | plic | uart | virtio => contradiction

def write (b : Bus) (addr : UInt64) (w : Width) (value : UInt64) : Bus :=
  if b.ram.contains addr w.bytes then { b with ram := b.ram.write addr w value }
  else
    match device? addr w with
    | some (d, offset) => b.storeDevice offset w value d
    | none => b

theorem store_of_accepts {b : Bus} {addr : UInt64} {w : Width}
    (accepted : b.acceptsStore addr w) (value : UInt64) :
    store addr w value b = .ok () (b.write addr w value) := by
  unfold store write
  by_cases inside : b.ram.contains addr w.bytes
  · rw [if_pos inside, if_pos inside]
  · rw [if_neg inside, if_neg inside]
    obtain memory | device := Bool.or_eq_true_iff.1 accepted
    · contradiction
    cases found : device? addr w with
    | none =>
      rw [found] at device
      contradiction
    | some place =>
      obtain ⟨d, offset⟩ := place
      rw [found] at device
      cases d with
      | deviceTree => contradiction
      | clint | plic | uart | virtio => rfl

theorem store_of_not_accepts {b : Bus} {addr : UInt64} {w : Width}
    (refused : b.acceptsStore addr w = false) (value : UInt64) :
    store addr w value b = .error (.outOfRange addr) b := by
  obtain ⟨outside, device⟩ := Bool.or_eq_false_iff.1 refused
  unfold store
  rw [if_neg (Bool.not_eq_true _ ▸ outside)]
  cases found : device? addr w with
  | none => rfl
  | some place =>
    obtain ⟨d, offset⟩ := place
    rw [found] at device
    cases d with
    | deviceTree => rfl
    | clint | plic | uart | virtio => contradiction

end Bus

end RiscvBoard
