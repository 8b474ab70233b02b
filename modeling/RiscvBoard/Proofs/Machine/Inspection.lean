import RiscvBoard.Machine.Inspect
import RiscvBoard.Proofs.Machine.ByteAccess

/-!
Memory as a debugger sees it, while the cache is not in use. A debugger translates each byte with a
probe of its own, or all of them with one; a load translates each of its pages, and checks an access
inside one page as a whole. Both succeed exactly if each byte can be translated and something
answers at its place, and both read the same number from memory.
-/

set_option autoImplicit false

namespace RiscvBoard

namespace Bus

variable {b : Bus} {addr : UInt64} {w : Width}

theorem peek_of_answers (answered : b.answers addr w) : ∃ value, b.peek addr w = .ok value := by
  unfold peek
  split
  · exact ⟨_, rfl⟩
  · rename_i outside
    obtain inside | found := Bool.or_eq_true_iff.1 answered
    · contradiction
    obtain ⟨⟨d, offset⟩, found⟩ := Option.isSome_iff_exists.1 found
    rw [found]
    exact ⟨_, rfl⟩

theorem peek_of_not_answers (missed : b.answers addr w = false) :
    b.peek addr w = .error (.outOfRange addr) := by
  obtain ⟨outside, absent⟩ := Bool.or_eq_false_iff.1 missed
  rw [Option.isSome_eq_false_iff, Option.isNone_iff_eq_none] at absent
  unfold peek
  rw [if_neg (Bool.not_eq_true _ ▸ outside), absent]

private theorem peek_of_contains (inside : b.ram.contains addr w.bytes) :
    b.peek addr w = .ok (b.ram.read addr w) :=
  if_pos inside

theorem answers_iff_bytes (page : addr.toNat % 2 ^ 12 + w.bytes ≤ 2 ^ 12) :
    b.answers addr w ↔ ∀ i < w.bytes, b.answers (addr + i.toUInt64) .byte := by
  have regions {addr : UInt64} {w : Width} :
      b.answers addr w ↔ (∀ i < w.bytes, b.ram.Holds (addr.toNat + i)) ∨
        ∃ d : Device, True ∧ ∀ i < w.bytes, d.Holds (addr.toNat + i) := by
    simpa only [true_and] using answers_iff
  exact serves_iff_bytes regions page

end Bus

namespace Machine

/-! ### Success -/

section Success

variable {m : Machine} {vaddr : UInt64} {kind : AccessKind} {w : Width}

/-- A byte of an access can be translated, and something answers at its place. -/
def Reachable (m : Machine) (vaddr : UInt64) (kind : AccessKind) (i : Nat) : Prop :=
  ∃ p, m.probeByte vaddr kind i = .ok p ∧ m.bus.answers p .byte

private theorem exists_bind_eq_ok {ε α β : Type} {x : Except ε α} {f : α → Except ε β} :
    (∃ b, (x >>= f) = .ok b) ↔ ∃ a, x = .ok a ∧ ∃ b, f a = .ok b := by
  cases x <;> simp [bind, Except.bind]

theorem byteVaddr_truncate (m : Machine) (vaddr : UInt64) {i : Nat} (short : i < 8) :
    m.byteVaddr (m.xlen.truncate vaddr) i = m.byteVaddr vaddr i := by
  apply UInt64.toNat_inj.1
  rw [m.toNat_byteVaddr _ short, m.toNat_byteVaddr _ short, Xlen.byteAddr_truncate]

theorem probe_of_ok {p : UInt64} (probed : Mmu.probe m.bus.ram m.hart.csrs vaddr kind = .ok p) :
    m.probe vaddr kind = .ok p := by
  rw [probe, probed]

private theorem probe_of_error {f : MemFault}
    (failed : Mmu.probe m.bus.ram m.hart.csrs vaddr kind = .error f) :
    ∃ e, m.probe vaddr kind = .error e := by
  rw [probe, failed]
  cases f <;> exact ⟨_, rfl⟩

private theorem peekByte_ok_iff {i : Nat} :
    (∃ value, m.peekByte (m.byteVaddr vaddr i) kind = .ok value) ↔ m.Reachable vaddr kind i := by
  unfold peekByte Reachable
  rw [exists_bind_eq_ok]
  cases probed : m.probeByte vaddr kind i with
  | error f =>
    rcases probe_of_error probed with ⟨e, failed⟩
    simp only [failed]
    exact iff_of_false nofun nofun
  | ok p =>
    simp only [probe_of_ok probed, Except.ok.injEq, exists_eq_left']
    cases answered : m.bus.answers p .byte with
    | false =>
      simp only [Bus.peek_of_not_answers answered]
      exact iff_of_false nofun nofun
    | true =>
      rcases Bus.peek_of_answers answered with ⟨value, seen⟩
      simp only [seen]
      exact iff_of_true ⟨value, rfl⟩ trivial

private theorem peekBytes_ok_iff (m : Machine) (vaddr : UInt64) (kind : AccessKind) {i n : Nat}
    (few : i + n ≤ 8) :
    (∃ value, m.peekBytes (m.xlen.truncate vaddr) kind i n = .ok value) ↔
      ∀ j, i ≤ j → j < i + n → m.Reachable vaddr kind j := by
  induction n generalizing i with
  | zero =>
    refine iff_of_true ⟨0, rfl⟩ fun j low high => ?_
    omega
  | succ n ih =>
    have here : m.xlen.truncate (m.xlen.truncate vaddr + i.toUInt64) = m.byteVaddr vaddr i :=
      m.byteVaddr_truncate vaddr (by omega)
    have rest := ih (i := i + 1) (by omega)
    rw [peekBytes, exists_bind_eq_ok, here]
    constructor
    · rintro ⟨byte, seen, tail⟩ j low high
      rw [exists_bind_eq_ok] at tail
      rcases tail with ⟨value, done, -⟩
      rcases Nat.eq_or_lt_of_le low with rfl | above
      · exact peekByte_ok_iff.1 ⟨byte, seen⟩
      · exact rest.1 ⟨value, done⟩ j above (by omega)
    · intro all
      rcases peekByte_ok_iff.2 (all i le_rfl (by omega)) with ⟨byte, seen⟩
      rcases rest.2 fun j low high => all j (by omega) (by omega) with ⟨value, done⟩
      exact ⟨byte, seen, exists_bind_eq_ok.2 ⟨value, done, _, rfl⟩⟩

theorem probeByte_of_page {p : UInt64}
    (page : (pageOffset (m.xlen.truncate vaddr)).toNat + w.bytes ≤ pageSize)
    (first : m.probeByte vaddr kind 0 = .ok p) :
    p.toNat % 2 ^ 12 + w.bytes ≤ 2 ^ 12 ∧
      ∀ i < w.bytes, m.probeByte vaddr kind i = .ok (p + i.toUInt64) := by
  have few := w.bytes_le
  have start := m.byteVaddr_zero vaddr
  have fits : m.hart.csrs.xlen.truncate (m.byteVaddr vaddr 0) = m.byteVaddr vaddr 0 :=
    m.truncate_byteVaddr vaddr 0
  have place := Mmu.toNat_probe_mod first
  rw [fits] at place
  rw [toNat_pageOffset, ← start, pageSize] at page
  refine ⟨by omega, fun i short => ?_⟩
  exact probeByte_add (Nat.zero_le i) (by omega) (by omega) first

theorem peek_ok_iff :
    (∃ value, m.peek vaddr w kind = .ok value) ↔ ∀ i < w.bytes, m.Reachable vaddr kind i := by
  have bytewise := peekBytes_ok_iff m vaddr kind (i := 0) (n := w.bytes)
    (by have := w.bytes_le; omega)
  simp only [Nat.zero_add, Nat.zero_le, true_implies] at bytewise
  have start := m.byteVaddr_zero vaddr
  by_cases page : (pageOffset (m.xlen.truncate vaddr)).toNat + w.bytes ≤ pageSize
  · cases first : m.probeByte vaddr kind 0 with
    | error f =>
      refine iff_of_false ?_ ?_
      · rcases probe_of_error first with ⟨e, failed⟩
        rw [start] at failed
        simp [peek, page, failed, bind, Except.bind]
      · intro all
        rcases all 0 w.bytes_pos with ⟨p, probed, -⟩
        rw [first] at probed
        contradiction
    | ok p =>
      have probed := probe_of_ok first
      rw [start] at probed
      cases answered : m.bus.answers p w with
      | false =>
        simp only [peek, if_pos page, probed, bind, Except.bind,
          Bus.peek_of_not_answers answered]
        exact bytewise
      | true =>
        rcases Bus.peek_of_answers answered with ⟨value, seen⟩
        rcases probeByte_of_page page first with ⟨inside, bytes⟩
        refine iff_of_true ⟨value, ?_⟩ fun i short => ?_
        · simp only [peek, if_pos page, probed, bind, Except.bind, seen]
          rfl
        · exact ⟨_, bytes i short, (Bus.answers_iff_bytes inside).1 answered i short⟩
  · simp only [peek, if_neg page]
    exact bytewise

private theorem page_of_translateSpan {m₁ : Machine} {span : Span}
    (translated : translateSpan vaddr w kind m = .ok span m₁) (whole : span.next = none) :
    (pageOffset vaddr).toNat + w.bytes ≤ pageSize := by
  by_contra crossing
  unfold translateSpan at translated
  cases first : translate vaddr kind m with
  | error f m₂ =>
    rw [bind_of_error first] at translated
    contradiction
  | ok p m₂ =>
    simp only [bind_of_ok first, if_neg crossing, bind_get] at translated
    cases second : translate (nextPage m₂.xlen vaddr) kind m₂ with
    | error f m₃ =>
      rw [bind_of_error second] at translated
      contradiction
    | ok q m₃ =>
      rw [bind_of_ok second] at translated
      obtain rfl := (EStateM.Result.ok.inj translated).1
      contradiction

variable (off : m.mmu.cacheEnabled = false)
include off

private theorem load_ok_iff_reachable :
    (∃ value m', load vaddr w m = .ok value m') ↔ ∀ i < w.bytes, m.Reachable vaddr .load i := by
  have ends := translateSpan_bytes off vaddr .load w
  cases translated : translateSpan (m.xlen.truncate vaddr) w .load m with
  | error f m' =>
    rw [translated] at ends
    cases ends with
    | fault first =>
      refine iff_of_false ?_ fun all => ?_
      · rintro ⟨value, m'', done⟩
        rw [load, bind_get, bind_of_error translated] at done
        contradiction
      · rcases all _ first.short with ⟨p, probed, -⟩
        rw [first.fault] at probed
        contradiction
  | ok span m₁ =>
    rw [translated] at ends
    cases ends with
    | found span bytes =>
      have size := (markedRam_onlyMarks off vaddr .load w.bytes).size
      have same (p : UInt64) (v : Width) :
          (m.withRam (m.markedRam vaddr .load w.bytes)).bus.answers p v = m.bus.answers p v := by
        simp only [Bus.answers, withRam, Ram.contains_of_size size]
      have reachable : (∀ i < w.bytes, m.Reachable vaddr .load i) ↔
          ∀ i < w.bytes, m.bus.answers (span.byteAddr i) .byte := by
        refine forall₂_congr fun i short => ⟨?_, fun answered => ⟨_, bytes i short, answered⟩⟩
        rintro ⟨p, probed, answered⟩
        rw [bytes i short] at probed
        rwa [Except.ok.inj probed]
      rw [load_ok_iff translated, reachable]
      simp only [Span.Served, same]
      rcases span with ⟨first, _ | next⟩
      · have start : m.probeByte vaddr .load 0 = .ok first := by
          rw [bytes 0 w.bytes_pos]
          exact congrArg _ (UInt64.add_zero first)
        exact Bus.answers_iff_bytes
          (probeByte_of_page (page_of_translateSpan translated rfl) start).1
      · rfl

end Success

/-! ### What is read -/

section Values

open Finset

variable {m : Machine} {vaddr : UInt64} {kind : AccessKind} {w : Width} {p : Nat → UInt64}

def LeafAccessed (m : Machine) (vaddr : UInt64) (kind : AccessKind) : Prop :=
  Mmu.isTranslated m.hart.csrs kind → ∀ walk,
    Walk.run m.bus.ram m.hart.csrs (m.xlen.truncate vaddr) kind
      (m.hart.csrs.effectivePrivilege kind) = .ok walk → Pte.has walk.leaf Pte.accessed

theorem marked_of_leafAccessed (reads : kind ≠ .store) (accessed : m.LeafAccessed vaddr kind) :
    Mmu.marked m.bus.ram m.hart.csrs vaddr kind = m.bus.ram := by
  rw [Mmu.marked, Mmu.plan_reset]
  split
  next translated =>
    cases walked : Walk.run m.bus.ram m.hart.csrs (m.hart.csrs.xlen.truncate vaddr) kind
        (m.hart.csrs.effectivePrivilege kind) with
    | error f => rfl
    | ok walk =>
      have bit := accessed translated walk walked
      rcases Walk.run_eq_ok.1 walked with ⟨l, -, -, rfl⟩
      have one : OneBit Pte.accessed := ⟨6, by decide, rfl⟩
      have set : l.entry &&& Pte.accessed = Pte.accessed :=
        (one.and_eq l.entry).trans (if_pos bit)
      have touch : Pte.touch l.entry kind = l.entry ||| Pte.accessed := by
        cases kind with
        | store => exact absurd rfl reads
        | fetch | load => rfl
      have same : Pte.touch l.entry kind = l.entry := touch.trans (or_eq_of_and_eq set)
      simp only [Mmu.updateLeaf, Walk.Leaf.walk, same, if_true]
  · rfl

private theorem markedRam_of_leafAccessed (off : m.mmu.cacheEnabled = false) {n : Nat}
    (accessed : ∀ i < n, m.LeafAccessed (m.byteVaddr vaddr i) .load) :
    m.markedRam vaddr .load n = m.bus.ram := by
  induction n with
  | zero => rfl
  | succ n ih =>
    rw [markedRam_succ off, ih fun i short => accessed i (by omega)]
    exact marked_of_leafAccessed (by decide) (accessed n (Nat.lt_succ_self n))

private theorem peekByte_of_contains {i : Nat} {p : UInt64}
    (probed : m.probeByte vaddr kind i = .ok p) (inside : m.bus.ram.contains p 1) :
    m.peekByte (m.byteVaddr vaddr i) kind =
      .ok (m.bus.ram.byteAt (Ram.offset p)).toUInt64 := by
  have seen := Bus.peek_of_contains (w := .byte) inside
  have byte : m.bus.ram.read p .byte = (m.bus.ram.byteAt (Ram.offset p)).toUInt64 := UInt64.or_zero
  simp only [peekByte, probe_of_ok probed, bind, Except.bind, seen, byte]
  rfl

private theorem peekBytes_of_bytesAt (bytes : m.BytesAt vaddr kind w p) {i n : Nat}
    (short : i + n ≤ w.bytes) :
    ∃ value, m.peekBytes (m.xlen.truncate vaddr) kind i n = .ok value ∧ value.toNat < 256 ^ n ∧
      value.toNat =
        ∑ k ∈ range n, (m.bus.ram.byteAt (Ram.offset (p (i + k)))).toNat * 256 ^ k := by
  have few := w.bytes_le
  induction n generalizing i with
  | zero => exact ⟨0, rfl, by decide, rfl⟩
  | succ n ih =>
    have here : m.xlen.truncate (m.xlen.truncate vaddr + i.toUInt64) = m.byteVaddr vaddr i :=
      m.byteVaddr_truncate vaddr (by omega)
    rcases bytes i (by omega) with ⟨probed, inside⟩
    rcases ih (i := i + 1) (by omega) with ⟨rest, done, small, number⟩
    have room : 256 ^ n ≤ 2 ^ 56 := by
      rw [show 2 ^ 56 = 256 ^ 7 from rfl]
      exact Nat.pow_le_pow_right (by decide) (by omega)
    have joined := Ram.toNat_join (m.bus.ram.byteAt (Ram.offset (p i))) rest (by omega)
    have low := (m.bus.ram.byteAt (Ram.offset (p i))).toNat_lt
    refine ⟨(m.bus.ram.byteAt (Ram.offset (p i))).toUInt64 ||| (rest <<< 8), ?_, ?_, ?_⟩
    · simp only [peekBytes, here, peekByte_of_contains probed inside, done, bind, Except.bind]
      rfl
    · rw [joined, Nat.pow_succ]
      omega
    · have shifted (k : Nat) :
          (m.bus.ram.byteAt (Ram.offset (p (i + (k + 1))))).toNat * 256 ^ (k + 1) =
            256 * ((m.bus.ram.byteAt (Ram.offset (p (i + 1 + k)))).toNat * 256 ^ k) := by
        rw [Nat.add_right_comm i 1 k, Nat.pow_succ', Nat.mul_left_comm]
        rfl
      rw [joined, number, sum_range_succ', mul_sum]
      simp [shifted]

private theorem peek_of_bytesAt (bytes : m.BytesAt vaddr kind w p) :
    ∃ value, m.peek vaddr w kind = .ok value ∧
      value.toNat =
        ∑ i ∈ range w.bytes, (m.bus.ram.byteAt (Ram.offset (p i))).toNat * 256 ^ i := by
  rcases peekBytes_of_bytesAt bytes (i := 0) (n := w.bytes) (by omega) with
    ⟨value, done, -, number⟩
  simp only [Nat.zero_add] at number
  by_cases page : (pageOffset (m.xlen.truncate vaddr)).toNat + w.bytes ≤ pageSize
  · rcases bytes 0 w.bytes_pos with ⟨first, -⟩
    rcases probeByte_of_page page first with ⟨-, places⟩
    have probed := probe_of_ok first
    rw [m.byteVaddr_zero] at probed
    have near : ∀ i < w.bytes, p i = p 0 + i.toUInt64 := by
      intro i short
      have place := places i short
      rw [(bytes i short).1] at place
      exact Except.ok.inj place
    rcases Ram.contains_of_bytes w.bytes_pos w.bytes_le
      (fun i short => near i short ▸ (bytes i short).2) with ⟨whole, offsets⟩
    refine ⟨m.bus.ram.read (p 0) w, ?_, ?_⟩
    · simp only [peek, if_pos page, probed, bind, Except.bind, Bus.peek_of_contains whole]
      rfl
    · rw [Ram.read, Ram.toNat_readAt _ _ w.bytes_le]
      refine sum_congr rfl fun i short => ?_
      rw [near i (mem_range.1 short), offsets i (mem_range.1 short)]
  · refine ⟨value, ?_, number⟩
    simp only [peek, if_neg page]
    exact done

end Values

/-- A debugger fails to show a number exactly where a load of it fails, whatever the access comes
across: pages with different mappings, the edges of windows, or the top of the address space. Where
all bytes lie in memory and no leaf has to be marked, both read the same number. -/
theorem inspectMemory_agrees {m : Machine} (uncached : m.mmu.cacheEnabled = false)
    (vaddr : UInt64) :
    ((∃ e, m.inspectMemory vaddr = .error e) ↔ ∃ f m', load vaddr .double m = .error f m') ∧
    ∀ p, m.BytesAt vaddr .load .double p →
      (∀ i < 8, m.LeafAccessed (m.byteVaddr vaddr i) .load) →
      ∃ value m', m.inspectMemory vaddr = .ok value ∧ load vaddr .double m = .ok value m' := by
  constructor
  · have succeeds : (∃ value, m.inspectMemory vaddr = .ok value) ↔
        ∃ value m', load vaddr .double m = .ok value m' :=
      peek_ok_iff.trans (load_ok_iff_reachable uncached).symm
    cases seen : m.inspectMemory vaddr <;> cases loaded : load vaddr .double m <;>
      simp [seen, loaded] at succeeds ⊢
  · intro p bytes accessed
    have unmarked := markedRam_of_leafAccessed uncached accessed
    rcases peek_of_bytesAt bytes with ⟨value, seen, number⟩
    rcases translateSpan_of_bytesAt uncached bytes with ⟨span, translated, found⟩
    rcases load_of_contains translated fun i short => (found i short).2 with
      ⟨loaded, done, total⟩
    have same : loaded = value := by
      apply UInt64.toNat_inj.1
      rw [total, number]
      refine Finset.sum_congr rfl fun i short => ?_
      rw [(found i (Finset.mem_range.1 short)).1]
      show ((m.markedRam vaddr .load 8).byteAt _).toNat * _ = _
      rw [unmarked]
    exact ⟨value, _, seen, same ▸ done⟩

def withAccessedTable : Machine :=
  let m := reset 0 .rv32
  let ram : Ram := ⟨⟨#[0x01, 0, 0, 0x20, 0x47, 0, 0, 0x20]⟩⟩
  { m with
    hart.csrs := { m.hart.csrs with satp := 0x80080000, privilege := .supervisor }
    bus := { m.bus with ram } }

/-- The table is read through itself, and neither side reads on into a page without an entry. -/
theorem inspectMemory_agrees_accessedTable :
    withAccessedTable.mmu.cacheEnabled = false ∧
      (∃ m', withAccessedTable.inspectMemory 0x1000 = .ok 0x2000004720000001 ∧
        load 0x1000 .double withAccessedTable = .ok 0x2000004720000001 m') ∧
      ∃ f m', load 0x1ffe .double withAccessedTable = .error f m' := by
  have uncached : withAccessedTable.mmu.cacheEnabled = false := rfl
  have bytes : withAccessedTable.BytesAt 0x1000 .load .double fun i => 0x80000000 + i.toUInt64 := by
    intro i short
    have few : i < 8 := short
    interval_cases i <;> exact ⟨by rfl, by decide⟩
  have accessed : ∀ i < 8, withAccessedTable.LeafAccessed
      (withAccessedTable.byteVaddr 0x1000 i) .load := by
    intro i short _ walk walked
    interval_cases i <;> (cases walked; decide)
  have seen : withAccessedTable.inspectMemory 0x1000 = .ok 0x2000004720000001 := by rfl
  have unseen : withAccessedTable.inspectMemory 0x1ffe = .error (.invalidAddress 0x1ffe) := by rfl
  rcases (inspectMemory_agrees uncached 0x1000).2 _ bytes accessed with ⟨value, m', same, loaded⟩
  obtain rfl := Except.ok.inj (seen.symm.trans same)
  exact ⟨uncached, ⟨m', seen, loaded⟩, (inspectMemory_agrees uncached 0x1ffe).1.1 ⟨_, unseen⟩⟩

end Machine

end RiscvBoard
