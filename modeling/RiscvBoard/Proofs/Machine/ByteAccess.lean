import Mathlib.Tactic.Ring
import RiscvBoard.Proofs.LittleEndian
import RiscvBoard.Proofs.Machine.ByteTranslation
import RiscvBoard.Proofs.Machine.Frames

/-!
Loads and stores as accesses to single bytes, while the cache is not in use. A load in one piece, a
load of bytes from the last one down and a store of bytes from the first one up all have one
meaning: each byte is at the place where a probe finds it before the access, and memory is what the
marks of the access leave. This holds even if the access reads or overwrites its own page tables.
-/

set_option autoImplicit false

namespace RiscvBoard

namespace Machine

/-! ### Loads from memory -/

section Memory

open Finset

variable {m m₁ : Machine} {vaddr : UInt64} {w : Width} {span : Span}

private theorem loadPhys_of_contains {paddr : UInt64} (inside : m.bus.ram.contains paddr w.bytes)
    (vaddr : UInt64) (kind : AccessKind) :
    loadPhys paddr vaddr w kind m = .ok (m.bus.ram.read paddr w) m := by
  simp only [loadPhys, Bus.load, if_pos inside]

private theorem loadBytes_of_contains {n : Nat} (value : UInt64) (few : n ≤ 8)
    (small : value.toNat < 256 ^ (8 - n))
    (inside : ∀ i < n, m.bus.ram.contains (span.byteAddr i) 1) :
    ∃ result, loadBytes span vaddr n value m = .ok result m ∧
      result.toNat = value.toNat * 256 ^ n +
        ∑ i ∈ range n, (m.bus.ram.byteAt (Ram.offset (span.byteAddr i))).toNat * 256 ^ i := by
  induction n generalizing value with
  | zero => exact ⟨value, rfl, by simp⟩
  | succ n ih =>
    have here := loadPhys_of_contains (w := .byte) (inside n (Nat.lt_succ_self n)) vaddr .load
    have byte : (m.bus.ram.read (span.byteAddr n) .byte) =
        (m.bus.ram.byteAt (Ram.offset (span.byteAddr n))).toUInt64 := UInt64.or_zero
    have room : 256 ^ (8 - (n + 1)) ≤ 2 ^ 56 := by
      rw [show 2 ^ 56 = 256 ^ 7 from rfl]
      exact Nat.pow_le_pow_right (by decide) (by omega)
    have joined := Ram.toNat_join (m.bus.ram.byteAt (Ram.offset (span.byteAddr n))) value (by omega)
    have grown : 256 ^ (8 - n) = 256 * 256 ^ (8 - (n + 1)) := by
      rw [← Nat.pow_succ']
      congr 1
      omega
    have low := (m.bus.ram.byteAt (Ram.offset (span.byteAddr n))).toNat_lt
    rw [UInt64.or_comm] at joined
    rcases ih ((value <<< 8) ||| m.bus.ram.read (span.byteAddr n) .byte) (by omega)
      (by rw [byte, joined, grown]; omega) (fun i short => inside i (by omega)) with
      ⟨result, done, number⟩
    refine ⟨result, ?_, ?_⟩
    · rw [loadBytes, bind_of_ok here, done]
    · rw [number, byte, joined, sum_range_succ, Nat.pow_succ]
      ring

theorem load_of_contains
    (translated : translateSpan (m.xlen.truncate vaddr) w .load m = .ok span m₁)
    (inside : ∀ i < w.bytes, m₁.bus.ram.contains (span.byteAddr i) 1) :
    ∃ value, load vaddr w m = .ok value m₁ ∧
      value.toNat = ∑ i ∈ range w.bytes,
        (m₁.bus.ram.byteAt (Ram.offset (span.byteAddr i))).toNat * 256 ^ i := by
  have few := w.bytes_le
  simp only [load, bind_get, bind_of_ok translated]
  rcases span with ⟨first, next⟩
  cases next with
  | none =>
    rcases Ram.contains_of_bytes w.bytes_pos few inside with ⟨whole, places⟩
    refine ⟨_, loadPhys_of_contains whole _ _, ?_⟩
    rw [Ram.read, Ram.toNat_readAt _ _ few]
    refine sum_congr rfl fun i short => ?_
    have place := places i (mem_range.1 short)
    rw [← place]
    rfl
  | some second =>
    rcases loadBytes_of_contains 0 few (Nat.pow_pos (by decide)) inside with
      ⟨result, done, number⟩
    refine ⟨result, done, ?_⟩
    rw [number, UInt64.toNat_zero, Nat.zero_mul, Nat.zero_add]

end Memory

/-! ### Stores to memory -/

/-- Guest memory after the low bytes of a number were stored, each at an address of its own. -/
structure StoredBytes (before after : Ram) (addr : Nat → UInt64) (value : UInt64) (n : Nat) :
    Prop where
  size : after.size = before.size
  stored : ∀ i < n, after.byteAt (Ram.offset (addr i)) = byteOf value i
  kept : ∀ k, (∀ i < n, Ram.offset (addr i) ≠ k) → after.byteAt k = before.byteAt k

section Memory

variable {m m₁ : Machine} {vaddr : UInt64} {w : Width} {span : Span}

private theorem acceptsStore_of_contains {b : Bus} {paddr : UInt64}
    (inside : b.ram.contains paddr w.bytes) : b.acceptsStore paddr w := by
  rw [Bus.acceptsStore, inside, Bool.true_or]

private theorem write_of_contains {b : Bus} {paddr : UInt64} (inside : b.ram.contains paddr w.bytes)
    (value : UInt64) : b.write paddr w value = { b with ram := b.ram.write paddr w value } :=
  if_pos inside

private theorem writeBytes_succ (span : Span) (value : UInt64) (m : Machine) (i n : Nat) :
    writeBytes span value m i (n + 1) =
      { writeBytes span value m i n with
        bus := (writeBytes span value m i n).bus.write (span.byteAddr (i + n)) .byte
          ((value >>> (8 * (i + n)).toUInt64) &&& 0xff) } := by
  induction n generalizing m i with
  | zero => rfl
  | succ n ih =>
    rw [writeBytes, ih, Nat.add_right_comm i 1 n]
    rfl

private theorem storedBytes_writeBytes {value : UInt64} {n : Nat}
    (inside : ∀ i < n, m.bus.ram.contains (span.byteAddr i) 1)
    (apart : ∀ i < n, ∀ j < n,
      Ram.offset (span.byteAddr i) = Ram.offset (span.byteAddr j) → i = j) :
    StoredBytes m.bus.ram (writeBytes span value m 0 n).bus.ram span.byteAddr value n := by
  induction n with
  | zero => exact ⟨rfl, nofun, fun _ _ => rfl⟩
  | succ n ih =>
    have before := ih (fun i short => inside i (by omega))
      fun i low j high => apart i (by omega) j (by omega)
    have here : (writeBytes span value m 0 n).bus.ram.contains (span.byteAddr n) 1 := by
      rw [Ram.contains_of_size before.size]
      exact inside n (Nat.lt_succ_self n)
    have low : ((value >>> (8 * n).toUInt64) &&& 0xff).toUInt8 = byteOf value n := by
      rw [UInt64.toUInt8_and]
      exact UInt8.and_neg_one
    have ram : (writeBytes span value m 0 (n + 1)).bus.ram =
        (writeBytes span value m 0 n).bus.ram.setByteAt (Ram.offset (span.byteAddr n))
          (byteOf value n) := by
      rw [writeBytes_succ, Nat.zero_add, write_of_contains here, ← low]
      rfl
    rw [ram]
    refine ⟨?_, fun i short => ?_, fun k other => ?_⟩
    · rw [Ram.size_setByteAt, before.size]
    · by_cases last : i = n
      · subst last
        have place := Ram.contains_iff_toNat.1 here
        have start := Ram.toNat_eq_offset here
        rw [Ram.byteAt_setByteAt, if_pos ⟨rfl, by omega⟩]
      · rw [Ram.byteAt_setByteAt_of_ne]
        · exact before.stored i (by omega)
        · intro same
          exact last (apart n (Nat.lt_succ_self n) i short same).symm
    · rw [Ram.byteAt_setByteAt_of_ne _ _ (other n (Nat.lt_succ_self n))]
      exact before.kept k fun i short => other i (by omega)

private theorem store_of_contains (value : UInt64)
    (translated : translateSpan (m.xlen.truncate vaddr) w .store m = .ok span m₁)
    (inside : ∀ i < w.bytes, m₁.bus.ram.contains (span.byteAddr i) 1)
    (apart : ∀ i < w.bytes, ∀ j < w.bytes,
      Ram.offset (span.byteAddr i) = Ram.offset (span.byteAddr j) → i = j) :
    ∃ m', store vaddr w value m = .ok () m' ∧
      StoredBytes m₁.bus.ram m'.bus.ram span.byteAddr value w.bytes := by
  have few := w.bytes_le
  simp only [store, bind_get, bind_of_ok translated]
  rcases span with ⟨first, next⟩
  cases next with
  | none =>
    have bytes : ∀ i < w.bytes, m₁.bus.ram.contains (first + i.toUInt64) 1 := inside
    rcases Ram.contains_of_bytes w.bytes_pos few bytes with ⟨whole, places⟩
    have room := Ram.contains_iff_toNat.1 whole
    have start := Ram.toNat_eq_offset whole
    refine ⟨_, storePhys_of_accepts (acceptsStore_of_contains whole) _ value, ?_⟩
    rw [checkTohost_bus, write_of_contains whole]
    refine ⟨Ram.size_writeAt _ _ _ _, fun i short => ?_, fun k other => ?_⟩
    · have place : Ram.offset (Span.byteAddr ⟨first, none⟩ i) = Ram.offset first + i :=
        places i short
      rw [place, Ram.write, Ram.byteAt_writeAt _ _ _ few (by omega) short, byteOf_truncate _ short]
    · refine Ram.byteAt_of_sameOutside (Ram.sameOutside_writeAt _ _ _ _) ?_
      rintro ⟨low, high⟩
      have place := places (k - Ram.offset first) (by omega)
      have here : Ram.offset (first + (k - Ram.offset first).toUInt64) = k := by omega
      exact other (k - Ram.offset first) (by omega) here
  | some second =>
    have accepted : m₁.acceptsBytes ⟨first, some second⟩ w.bytes :=
      acceptsBytes_iff.2 fun i short => acceptsStore_of_contains (w := .byte) (inside i short)
    refine ⟨_, storeSplit_of_accepts accepted _ value, ?_⟩
    rw [checkTohost_bus]
    exact storedBytes_writeBytes inside apart

end Memory

/-! ### Accesses -/

section Accesses

open Finset

variable {m m₁ : Machine} {vaddr : UInt64} {kind : AccessKind} {w : Width}

def BytesAt (m : Machine) (vaddr : UInt64) (kind : AccessKind) (w : Width) (p : Nat → UInt64) :
    Prop :=
  ∀ i < w.bytes, m.probeByte vaddr kind i = .ok (p i) ∧ m.bus.ram.contains (p i) 1

private theorem BytesAt.apart {p : Nat → UInt64} (bytes : m.BytesAt vaddr kind w p) {i j : Nat}
    (low : i < w.bytes) (high : j < w.bytes)
    (same : Ram.offset (p i) = Ram.offset (p j)) : i = j := by
  have few := w.bytes_le
  have place {k : Nat} (short : k < w.bytes) :
      (Ram.base.toNat + Ram.offset (p k)) % 2 ^ 12 = (vaddr.toNat + k) % 2 ^ 12 := by
    have probed := Mmu.toNat_probe_mod (bytes k short).1
    have fits : m.hart.csrs.xlen.truncate (m.byteVaddr vaddr k) = m.byteVaddr vaddr k :=
      m.truncate_byteVaddr vaddr k
    rw [← Ram.toNat_eq_offset (bytes k short).2, probed, fits,
      m.toNat_byteVaddr vaddr (by omega), Xlen.byteAddr]
    cases m.xlen <;> exact Nat.mod_mod_of_dvd _ (by decide)
  have first := place low
  have second := place high
  rw [same] at first
  omega

private theorem StoredBytes.congr {r s : Ram} {p q : Nat → UInt64} {value : UInt64} {n : Nat}
    (stored : StoredBytes r s p value n) (same : ∀ i < n, p i = q i) :
    StoredBytes r s q value n where
  size := stored.size
  stored i short := by rw [← same i short, stored.stored i short]
  kept k other := stored.kept k fun i short => by rw [same i short]; exact other i short

section Uncached

variable (off : m.mmu.cacheEnabled = false)
include off

private theorem translateSpan_of_firstFault {i : Nat} {f : MemFault}
    (first : m.FirstFault vaddr kind w i f) :
    (f = .access kind (m.byteVaddr vaddr i) ∨ f = .page kind (m.byteVaddr vaddr i)) ∧
      ∃ m', translateSpan (m.xlen.truncate vaddr) w kind m = .error f m' := by
  constructor
  · have reported := Mmu.probe_error_fault first.fault
    have fits : m.hart.csrs.xlen.truncate (m.byteVaddr vaddr i) = m.byteVaddr vaddr i :=
      m.truncate_byteVaddr vaddr i
    rwa [fits] at reported
  · have ends := translateSpan_bytes off vaddr kind w
    generalize translateSpan (m.xlen.truncate vaddr) w kind m = result at ends ⊢
    cases ends with
    | found span bytes =>
      have fault := first.fault
      rw [bytes i first.short] at fault
      contradiction
    | fault other m' =>
      rw [(first.unique other).2]
      exact ⟨m', rfl⟩

theorem translateSpan_of_bytesAt {p : Nat → UInt64} (bytes : m.BytesAt vaddr kind w p) :
    ∃ span, translateSpan (m.xlen.truncate vaddr) w kind m =
        .ok span (m.withRam (m.markedRam vaddr kind w.bytes)) ∧
      ∀ i < w.bytes, span.byteAddr i = p i ∧
        (m.markedRam vaddr kind w.bytes).contains (span.byteAddr i) 1 := by
  have ends := translateSpan_bytes off vaddr kind w
  generalize translateSpan (m.xlen.truncate vaddr) w kind m = result at ends ⊢
  cases ends with
  | found span found =>
    refine ⟨span, rfl, fun i short => ?_⟩
    rcases bytes i short with ⟨probed, inside⟩
    rw [found i short] at probed
    have same := Except.ok.inj probed
    have size := (markedRam_onlyMarks off vaddr kind w.bytes).size
    exact ⟨same, by rw [Ram.contains_of_size size, same, inside]⟩
  | fault first m' =>
    have fault := first.fault
    rw [(bytes _ first.short).1] at fault
    contradiction

end Uncached

/-- Accesses inside one page, across two pages and across the top of the address space are accesses
to single bytes. The first byte that cannot be translated gives the fault; if all bytes lie in
memory, a load answers their number, and a store puts each byte of its value in its place. The
memory that is read, or written over, has the marks of the access. -/
theorem access_bytewise (uncached : m.mmu.cacheEnabled = false) (vaddr : UInt64) (w : Width) :
    (∀ i f, m.FirstFault vaddr .load w i f →
      (f = .access .load (m.byteVaddr vaddr i) ∨ f = .page .load (m.byteVaddr vaddr i)) ∧
        ∃ m', load vaddr w m = .error f m') ∧
    (∀ p, m.BytesAt vaddr .load w p →
      ∃ value, load vaddr w m = .ok value (m.withRam (m.markedRam vaddr .load w.bytes)) ∧
        value.toNat = ∑ i ∈ range w.bytes,
          ((m.markedRam vaddr .load w.bytes).byteAt (Ram.offset (p i))).toNat * 256 ^ i) ∧
    ∀ value,
      (∀ i f, m.FirstFault vaddr .store w i f →
        (f = .access .store (m.byteVaddr vaddr i) ∨ f = .page .store (m.byteVaddr vaddr i)) ∧
          ∃ m', store vaddr w value m = .error f m') ∧
      ∀ p, m.BytesAt vaddr .store w p →
        ∃ m', store vaddr w value m = .ok () m' ∧
          StoredBytes (m.markedRam vaddr .store w.bytes) m'.bus.ram p value w.bytes := by
  refine ⟨fun i f first => ?_, fun p bytes => ?_, fun value =>
    ⟨fun i f first => ?_, fun p bytes => ?_⟩⟩
  · rcases translateSpan_of_firstFault uncached first with ⟨reported, m', failed⟩
    exact ⟨reported, m', load_of_fault failed⟩
  · rcases translateSpan_of_bytesAt uncached bytes with ⟨span, translated, found⟩
    rcases load_of_contains translated fun i short => (found i short).2 with ⟨value, done, number⟩
    refine ⟨value, done, number.trans (sum_congr rfl fun i short => ?_)⟩
    rw [(found i (mem_range.1 short)).1]
    rfl
  · rcases translateSpan_of_firstFault uncached first with ⟨reported, m', failed⟩
    refine ⟨reported, m', ?_⟩
    rw [store, bind_get, bind_of_error failed]
  · rcases translateSpan_of_bytesAt uncached bytes with ⟨span, translated, found⟩
    have apart : ∀ i < w.bytes, ∀ j < w.bytes,
        Ram.offset (span.byteAddr i) = Ram.offset (span.byteAddr j) → i = j := by
      intro i low j high same
      rw [(found i low).1, (found j high).1] at same
      exact bytes.apart low high same
    rcases store_of_contains value translated (fun i short => (found i short).2) apart with
      ⟨m', done, stored⟩
    exact ⟨m', done, stored.congr fun i short => (found i short).1⟩

end Accesses

/-- A supervisor whose page at `0x1000` is the page of its page table, which fills all of memory. -/
def withOwnTable : Machine :=
  let m := reset 0 .rv32
  let ram : Ram := ⟨⟨#[0x01, 0, 0, 0x20, 0x07, 0, 0, 0x20]⟩⟩
  { m with
    hart.csrs := { m.hart.csrs with satp := 0x80080000, privilege := .supervisor }
    bus := { m.bus with ram } }

/-- A load of a leaf through itself reads the mark that it makes, and a load that runs into the next
page, which has no entry in memory, fails at the start of that page. -/
theorem access_bytewise_ownTable :
    withOwnTable.mmu.cacheEnabled = false ∧
      (∃ value m', load 0x1004 .word withOwnTable = .ok value m' ∧ value.toNat = 0x20000047) ∧
      ∃ m', load 0x1ffe .word withOwnTable = .error (.access .load 0x2000) m' := by
  have uncached : withOwnTable.mmu.cacheEnabled = false := rfl
  have bytes : withOwnTable.BytesAt 0x1004 .load .word fun i => 0x80000004 + i.toUInt64 := by
    intro i short
    have few : i < 4 := short
    interval_cases i <;> exact ⟨by rfl, by decide⟩
  have fault : withOwnTable.FirstFault 0x1ffe .load .word 2 (.access .load 0x2000) := by
    refine ⟨by decide, by rfl, fun j low => ?_⟩
    interval_cases j <;> exact ⟨_, by rfl⟩
  rcases (access_bytewise uncached 0x1004 .word).2.1 _ bytes with ⟨value, done, number⟩
  have failed := (access_bytewise uncached 0x1ffe .word).1 2 _ fault
  exact ⟨uncached, ⟨value, _, done, number.trans (by rfl)⟩, failed.2⟩

end Machine

end RiscvBoard
