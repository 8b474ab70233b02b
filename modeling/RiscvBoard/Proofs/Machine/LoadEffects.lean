import RiscvBoard.Proofs.Board.Windows
import RiscvBoard.Proofs.Machine.Memory

/-!
What a load does to the devices. A load inside one page is checked as a whole before it reads
anything. A load that crosses into the next page reads byte by byte, from the last byte down, and
checks each byte when its turn comes: it can fail after it has read registers that react to reading.
-/

set_option autoImplicit false

namespace RiscvBoard

namespace Bus

/-- The bytes that react to being read: the claim registers of the interrupt controller, and the
received byte and the interrupt identification of the serial line. -/
def Reacts (addr : UInt64) : Prop :=
  (∃ offset context, device? addr .byte = some (.plic, offset) ∧
    Plic.Register.at offset = .claim context) ∨
  ∃ offset, device? addr .byte = some (.uart, offset) ∧ (offset.toNat = 0 ∨ offset.toNat = 2)

def afterReads (b : Bus) (addrs : List UInt64) : Bus :=
  addrs.foldl (fun b addr => b.afterRead addr .byte) b

theorem afterRead_eq (b : Bus) (addr : UInt64) (w : Width) :
    ∃ plic uart, b.afterRead addr w = { b with plic, uart } := by
  unfold afterRead
  split
  · exact ⟨b.plic, b.uart, rfl⟩
  split
  · rename_i d offset _
    cases d with
    | deviceTree | clint | virtio => exact ⟨b.plic, b.uart, rfl⟩
    | plic => exact ⟨b.plic.afterLoad offset, b.uart, rfl⟩
    | uart => exact ⟨b.plic, b.uart.afterLoad offset, rfl⟩
  · exact ⟨b.plic, b.uart, rfl⟩

private theorem afterReads_eq (b : Bus) (addrs : List UInt64) :
    ∃ plic uart, b.afterReads addrs = { b with plic, uart } := by
  induction addrs generalizing b with
  | nil => exact ⟨b.plic, b.uart, rfl⟩
  | cons addr addrs ih =>
    obtain ⟨plic, uart, first⟩ := b.afterRead_eq addr .byte
    obtain ⟨plic', uart', rest⟩ := ih (b.afterRead addr .byte)
    refine ⟨plic', uart', ?_⟩
    rw [first] at rest
    exact (congrArg (afterReads · addrs) first).trans rest

private theorem answers_afterRead (b : Bus) (addr other : UInt64) (w v : Width) :
    (b.afterRead addr w).answers other v = b.answers other v := by
  obtain ⟨plic, uart, same⟩ := b.afterRead_eq addr w
  rw [same]
  rfl

private theorem afterRead_of_not_reacts {b : Bus} {addr : UInt64} (quiet : ¬ Reacts addr) :
    b.afterRead addr .byte = b := by
  unfold afterRead
  split
  · rfl
  split
  · rename_i d offset found
    cases d with
    | deviceTree | clint | virtio => rfl
    | plic =>
      have unclaimed (context : PlicContext) : Plic.Register.at offset ≠ .claim context :=
        fun claim => quiet (.inl ⟨offset, context, found, claim⟩)
      have kept : b.plic.afterLoad offset = b.plic := by
        unfold Plic.afterLoad
        split
        · exact absurd ‹_› (unclaimed _)
        · rfl
      rw [afterLoad, kept]
    | uart =>
      have other : ¬ (offset.toNat = 0 ∨ offset.toNat = 2) :=
        fun reacting => quiet (.inr ⟨offset, found, reacting⟩)
      have kept : b.uart.afterLoad offset = b.uart := by
        unfold Uart.afterLoad
        split
        · exact absurd (.inl ‹_›) other
        · exact absurd (.inr ‹_›) other
        · rfl
      rw [afterLoad, kept]
  · rfl

private theorem afterReads_of_not_reacts {b : Bus} {addrs : List UInt64}
    (quiet : ∀ addr ∈ addrs, ¬ Reacts addr) : b.afterReads addrs = b := by
  induction addrs with
  | nil => rfl
  | cons addr addrs ih =>
    obtain ⟨first, rest⟩ := List.forall_mem_cons.1 quiet
    rw [afterReads, List.foldl_cons, afterRead_of_not_reacts first]
    exact ih rest

end Bus

namespace Machine

/-- The machine keeps what no load changes: the devices without registers that react to reading, and
the reservation. -/
structure SamePassive (m m' : Machine) : Prop where
  deviceTree : m'.bus.deviceTree = m.bus.deviceTree
  clint : m'.bus.clint = m.bus.clint
  virtio : m'.bus.virtio = m.bus.virtio
  reservation : m'.reservation = m.reservation

structure SameDevices (m m' : Machine) : Prop extends SamePassive m m' where
  plic : m'.bus.plic = m.bus.plic
  uart : m'.bus.uart = m.bus.uart

theorem SameDevices.refl (m : Machine) : SameDevices m m :=
  ⟨⟨rfl, rfl, rfl, rfl⟩, rfl, rfl⟩

theorem SameDevices.trans {m m₁ m₂ : Machine} (first : SameDevices m m₁)
    (second : SameDevices m₁ m₂) : SameDevices m m₂ where
  deviceTree := second.deviceTree.trans first.deviceTree
  clint := second.clint.trans first.clint
  virtio := second.virtio.trans first.virtio
  reservation := second.reservation.trans first.reservation
  plic := second.plic.trans first.plic
  uart := second.uart.trans first.uart

/-! ### Translations -/

theorem translate_sameDevices (vaddr : UInt64) (kind : AccessKind) (m : Machine) :
    Ends (translate vaddr kind) m (fun _ m' => SameDevices m m')
      (fun _ m' => SameDevices m m') := by
  cases result : (m.mmu.plan m.bus.ram m.hart.csrs vaddr kind).result <;>
    simp only [Ends, translate, result] <;> exact ⟨⟨rfl, rfl, rfl, rfl⟩, rfl, rfl⟩

theorem translateSpan_sameDevices (vaddr : UInt64) (w : Width) (kind : AccessKind) (m : Machine) :
    Ends (translateSpan vaddr w kind) m (fun _ m' => SameDevices m m')
      (fun _ m' => SameDevices m m') := by
  refine (translate_sameDevices vaddr kind m).bind fun first m₁ same => ?_
  split
  · exact same
  rw [ends_bind, ends_get, ends_bind]
  exact (translate_sameDevices _ kind m₁).mono (fun _ _ next => same.trans next)
    (fun _ _ next => same.trans next)

/-! ### Reading -/

theorem loadPhys_of_answers {m : Machine} {paddr : UInt64} {w : Width}
    (answered : m.bus.answers paddr w) (vaddr : UInt64) (kind : AccessKind) :
    ∃ value, loadPhys paddr vaddr w kind m =
      .ok value { m with bus := m.bus.afterRead paddr w } := by
  obtain ⟨value, loaded⟩ := Bus.load_of_answers answered
  refine ⟨value, ?_⟩
  rw [loadPhys, loaded]

theorem loadPhys_of_not_answers {m : Machine} {paddr : UInt64} {w : Width}
    (missed : m.bus.answers paddr w = false) (vaddr : UInt64) (kind : AccessKind) :
    loadPhys paddr vaddr w kind m = .error (.access kind vaddr) m := by
  rw [loadPhys, Bus.load_of_not_answers missed]

/-- The addresses of the bytes of an access from the `i`-th on, as far as they are among the first
`n`, in the order in which a load reads them: the last byte first. -/
def Span.readOrder (s : Span) (i : Nat) : Nat → List UInt64
  | 0 => []
  | n + 1 => if i ≤ n then s.byteAddr n :: s.readOrder i n else []

private theorem Span.mem_readOrder {s : Span} {i n : Nat} {addr : UInt64} :
    addr ∈ s.readOrder i n ↔ ∃ j, i ≤ j ∧ j < n ∧ s.byteAddr j = addr := by
  induction n with
  | zero => simp [readOrder]
  | succ n ih =>
    unfold readOrder
    split
    · rw [List.mem_cons, ih]
      constructor
      · rintro (rfl | ⟨j, low, high, rfl⟩)
        · exact ⟨n, by omega, by omega, rfl⟩
        · exact ⟨j, low, by omega, rfl⟩
      · rintro ⟨j, low, high, rfl⟩
        obtain rfl | below := Nat.eq_or_lt_of_le (Nat.lt_succ_iff.1 high)
        · exact .inl rfl
        · exact .inr ⟨j, low, below, rfl⟩
    · constructor
      · nofun
      · rintro ⟨j, low, high, rfl⟩
        omega

private theorem loadBytes_cases (s : Span) (vaddr : UInt64) (n : Nat) (value : UInt64)
    (m : Machine) : ((∀ i < n, m.bus.answers (s.byteAddr i) .byte) ∧
      ∃ result, loadBytes s vaddr n value m =
        .ok result { m with bus := m.bus.afterReads (s.readOrder 0 n) }) ∨
    ∃ i < n, m.bus.answers (s.byteAddr i) .byte = false ∧
      loadBytes s vaddr n value m = .error (.access .load vaddr)
        { m with bus := m.bus.afterReads (s.readOrder (i + 1) n) } := by
  induction n generalizing value m with
  | zero => exact .inl ⟨nofun, value, rfl⟩
  | succ n ih =>
    cases answered : m.bus.answers (s.byteAddr n) .byte with
    | false =>
      refine .inr ⟨n, Nat.lt_succ_self n, answered, ?_⟩
      have nothing : s.readOrder (n + 1) (n + 1) = [] := if_neg (Nat.not_succ_le_self n)
      rw [loadBytes, nothing]
      simp only [Bind.bind, EStateM.bind, loadPhys_of_not_answers answered]
      rfl
    | true =>
      -- Reading this byte may change devices, but not which of the bytes below are answered.
      obtain ⟨byte, loaded⟩ := loadPhys_of_answers answered vaddr .load
      have next (i : Nat) (below : i ≤ n) :
          (m.bus.afterRead (s.byteAddr n) .byte).afterReads (s.readOrder i n) =
            m.bus.afterReads (s.readOrder i (n + 1)) := by
        rw [Span.readOrder, if_pos below]
        rfl
      have rest := ih ((value <<< 8) ||| byte)
        { m with bus := m.bus.afterRead (s.byteAddr n) .byte }
      simp only [Bus.answers_afterRead] at rest
      rw [loadBytes]
      simp only [Bind.bind, EStateM.bind, loaded]
      obtain ⟨all, result, done⟩ | ⟨i, below, missed, failed⟩ := rest
      · refine .inl ⟨fun i short => ?_, result, ?_⟩
        · obtain rfl | lower := Nat.eq_or_lt_of_le (Nat.lt_succ_iff.1 short)
          · exact answered
          · exact all i lower
        · rw [done, next 0 (Nat.zero_le n)]
      · refine .inr ⟨i, by omega, missed, ?_⟩
        rw [failed, next (i + 1) below]

/-! ### Loads -/

/-- All of a span is served: as a whole if it is one range, else byte by byte. -/
def Span.Served (serves : UInt64 → Width → Bool) (s : Span) (w : Width) : Prop :=
  match s.next with
  | none => serves s.first w
  | some _ => ∀ i < w.bytes, serves (s.byteAddr i) .byte

section Loads

variable {m m₁ : Machine} {vaddr : UInt64} {w : Width}

theorem load_of_fault {f : MemFault}
    (fault : translateSpan (m.xlen.truncate vaddr) w .load m = .error f m₁) :
    load vaddr w m = .error f m₁ := by
  rw [load, bind_get, bind_of_error fault]

/-- What a load does once its addresses are translated. It succeeds if all of its span is answered.
Else it is an access fault, and has read nothing, or the bytes above one that nothing answers. -/
theorem load_cases {span : Span}
    (translated : translateSpan (m.xlen.truncate vaddr) w .load m = .ok span m₁) :
    (span.Served m₁.bus.answers w ∧ ∃ value m', load vaddr w m = .ok value m') ∨
    (¬ span.Served m₁.bus.answers w ∧ ∃ read, load vaddr w m =
        .error (.access .load (m.xlen.truncate vaddr)) { m₁ with bus := m₁.bus.afterReads read } ∧
      (read = [] ∨ span.next.isSome ∧ ∃ i < w.bytes,
        m₁.bus.answers (span.byteAddr i) .byte = false ∧
          read = span.readOrder (i + 1) w.bytes)) := by
  simp only [load, bind_get, bind_of_ok translated]
  unfold Span.Served
  cases next : span.next with
  | none =>
    cases answered : m₁.bus.answers span.first w with
    | false =>
      exact .inr ⟨Bool.false_ne_true, [], loadPhys_of_not_answers answered _ _, .inl rfl⟩
    | true =>
      obtain ⟨value, loaded⟩ := loadPhys_of_answers answered (m.xlen.truncate vaddr) .load
      exact .inl ⟨rfl, value, _, loaded⟩
  | some second =>
    obtain ⟨all, value, done⟩ | ⟨i, short, missed, failed⟩ :=
      loadBytes_cases span (m.xlen.truncate vaddr) w.bytes 0 m₁
    · exact .inl ⟨all, value, _, done⟩
    · refine .inr ⟨fun all => ?_, _, failed, .inr ⟨rfl, i, short, missed, rfl⟩⟩
      rw [all i short] at missed
      contradiction

end Loads

/-- A load that fails leaves the devices as they are, with one exception. A load that crosses into
the next page fails at a byte that nothing answers, and by then it has read the bytes above it: if
one of those reacts to being read, its device has changed. The devices without such registers and
the reservation stay as they are in any case. -/
theorem load_error_effects {m m' : Machine} {vaddr : UInt64} {w : Width} {f : MemFault}
    (failed : load vaddr w m = .error f m') :
    SamePassive m m' ∧
      ((m'.bus.plic = m.bus.plic ∧ m'.bus.uart = m.bus.uart) ∨
        ∃ span m₁ i j,
          translateSpan (m.xlen.truncate vaddr) w .load m = .ok span m₁ ∧ SameDevices m m₁ ∧
          span.next.isSome ∧ i < j ∧ j < w.bytes ∧
          m₁.bus.answers (span.byteAddr i) .byte = false ∧ Bus.Reacts (span.byteAddr j) ∧
          m' = { m₁ with bus := m₁.bus.afterReads (span.readOrder (i + 1) w.bytes) }) := by
  have spans := translateSpan_sameDevices (m.xlen.truncate vaddr) w .load m
  unfold Ends at spans
  cases translated : translateSpan (m.xlen.truncate vaddr) w .load m with
  | error g m₁ =>
    rw [load_of_fault translated] at failed
    obtain ⟨rfl, rfl⟩ := EStateM.Result.error.inj failed
    simp only [translated] at spans
    exact ⟨spans.toSamePassive, .inl ⟨spans.plic, spans.uart⟩⟩
  | ok span m₁ =>
    simp only [translated] at spans
    obtain ⟨-, value, m'', done⟩ | ⟨-, read, stopped, reason⟩ := load_cases translated
    · rw [done] at failed
      contradiction
    rw [stopped] at failed
    obtain ⟨rfl, rfl⟩ := EStateM.Result.error.inj failed
    have passive : SamePassive m { m₁ with bus := m₁.bus.afterReads read } := by
      obtain ⟨plic, uart, same⟩ := m₁.bus.afterReads_eq read
      rw [same]
      exact ⟨spans.deviceTree, spans.clint, spans.virtio, spans.reservation⟩
    refine ⟨passive, ?_⟩
    by_cases quiet : ∀ addr ∈ read, ¬ Bus.Reacts addr
    · rw [Bus.afterReads_of_not_reacts quiet]
      exact .inl ⟨spans.plic, spans.uart⟩
    · push Not at quiet
      obtain ⟨addr, mem, reacts⟩ := quiet
      obtain rfl | ⟨crosses, i, -, missed, rfl⟩ := reason
      · contradiction
      obtain ⟨j, above, short, rfl⟩ := Span.mem_readOrder.1 mem
      exact .inr ⟨span, m₁, i, j, rfl, spans, crosses, above, short, missed, reacts, rfl⟩

def withSerialPage : Machine :=
  let m := reset 0 .rv32
  let ram : Ram := ⟨⟨#[0x01, 0, 0, 0x20, 0xc7, 0, 0, 0x08, 0xc7, 0, 0, 0x04]⟩⟩
  { m with
    hart.csrs := { m.hart.csrs with satp := 0x80080000, privilege := .supervisor }
    bus := { m.bus with ram, uart := m.bus.uart.pushInput 0x41 } }

/-- A load that fails takes the byte of input with it. -/
theorem load_error_consumes_input :
    ∃ f m', load 0x1ffe .word withSerialPage = .error f m' ∧
      withSerialPage.bus.uart.input.toList = [0x41] ∧ m'.bus.uart.input.toList = [] := by
  refine ⟨_, _, rfl, ?_, ?_⟩ <;> rfl

theorem load_error_effects_serialPage :
    ∃ f m', load 0x1ffe .word withSerialPage = .error f m' ∧ SamePassive withSerialPage m' ∧
      ∃ span m₁ j, translateSpan 0x1ffe .word .load withSerialPage = .ok span m₁ ∧
        Bus.Reacts (span.byteAddr j) := by
  obtain ⟨f, m', failed, consumed⟩ : ∃ f m', load 0x1ffe .word withSerialPage = .error f m' ∧
      m'.bus.uart.input.toList = [] := ⟨_, _, rfl, rfl⟩
  obtain ⟨passive, same | ⟨span, m₁, i, j, spans, -, -, -, -, -, reacts, -⟩⟩ :=
    load_error_effects failed
  · rw [same.2] at consumed
    exact absurd consumed (by decide)
  · exact ⟨f, m', failed, passive, span, m₁, j, spans, reacts⟩

end Machine

end RiscvBoard
