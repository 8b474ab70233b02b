import RiscvBoard.Proofs.Board.Arbitration
import RiscvBoard.Proofs.Board.Windows
import RiscvBoard.Proofs.Ram

/-!
Loads and peeks. Both look a device up and let it answer, each in its own way, and the answers are
the same. A load may change one thing in return: it takes the head of the input queue, it clears the
flag of the empty transmitter, or it moves one source of interrupts from pending to in service. No
answer has more bytes than were asked for.
-/

set_option autoImplicit false

namespace RiscvBoard

/-! ### The serial line -/

private theorem Fifo.tail_of_toList_eq_nil {q : Fifo} (nothing : q.toList = []) : q.tail = q := by
  rcases q with ⟨front, back⟩
  simp only [toList, List.append_eq_nil_iff, List.reverse_eq_nil_iff] at nothing
  rcases nothing with ⟨rfl, rfl⟩
  rfl

namespace Uart

private theorem loaded_eq_peek (u : Uart) (offset : UInt64) : u.loaded offset = u.peek offset := by
  unfold loaded
  split
  next first =>
    split
    · rfl
    next shown => simp only [peek, first, if_neg shown]
  next second => simp only [peek, second]
  · rfl

private theorem thrEmptyPending_of_reported {u : Uart} (report : u.interruptId &&& 0x0f = 0x02) :
    u.thrEmptyPending = true := by
  cases pending : u.thrEmptyPending with
  | true => rfl
  | false =>
    have silent : u.transmitInterrupt = false := by simp [transmitInterrupt, pending]
    revert report
    simp only [interruptId, silent, Bool.false_eq_true, if_false]
    split <;> split <;> decide

/-- What a load of a register does to the serial line, with what it returns. -/
inductive Loads (u : Uart) (offset : UInt64) : UInt8 → Uart → Prop where
  | unchanged (value : UInt8) : Loads u offset value u
  /-- The receive register, where the divisor is not in its place, takes the head of the queue. -/
  | received (byte : UInt8) (rest : List UInt8) (input : Fifo) (register : offset = 0)
    (shown : u.divisorAccess = false) (before : u.input.toList = byte :: rest)
    (after : input.toList = rest) : Loads u offset byte { u with input }
  /-- The interrupt identification reports the empty transmitter. -/
  | reported (value : UInt8) (register : offset = 2) (report : value &&& 0x0f = 0x02)
    (pending : u.thrEmptyPending = true) :
    Loads u offset value { u with thrEmptyPending := false }

private theorem loads (u : Uart) (offset : UInt64) :
    u.Loads offset (u.peek offset) (u.afterLoad offset) := by
  unfold afterLoad
  split
  next first =>
    have register : offset = 0 := UInt64.toNat_inj.1 first
    split
    · exact .unchanged _
    next shown =>
      have closed : u.divisorAccess = false := Bool.eq_false_iff.2 shown
      cases queue : u.input.toList with
      | nil =>
        rw [Fifo.tail_of_toList_eq_nil queue]
        exact .unchanged _
      | cons byte rest =>
        have value : u.peek offset = byte := by
          simp only [peek, first, if_neg shown, Fifo.head?_eq, queue]
          rfl
        rw [value]
        exact .received byte rest _ register closed queue (by rw [Fifo.toList_tail, queue]; rfl)
  next second =>
    have register : offset = 2 := UInt64.toNat_inj.1 second
    have value : u.peek offset = u.interruptId := by simp only [peek, second]
    split
    next report =>
      exact .reported _ register (value ▸ report) (thrEmptyPending_of_reported report)
    · exact .unchanged _
  · exact .unchanged _

end Uart

/-! ### The interrupt controller -/

namespace Plic

private theorem deliverable_of_best? {p : Plic} {context : PlicContext} {source : Fin 32}
    (found : p.best? context = some source) : p.Deliverable context source := by
  unfold best? at found
  dsimp only at found
  split at found
  · contradiction
  · have start : p.BestOf context [] none := by simp [BestOf]
    have search := start.foldl sources (by decide)
    rw [found] at search
    exact search.1

inductive Loads (p : Plic) (offset : UInt64) : UInt64 → Plic → Prop where
  | unchanged (value : UInt64) : Loads p offset value p
  /-- A claim register moves the source that it returns from pending to in service. -/
  | claimed (context : PlicContext) (source : Fin 32) (pending inService : UInt32)
    (register : IsClaim context offset) (deliverable : p.Deliverable context source)
    (leaves : ∀ other, Has pending other ↔ p.IsPending other ∧ other ≠ source)
    (enters : ∀ other, Has inService other ↔ p.InService other ∨ other = source) :
    Loads p offset (UInt32.ofNat source.val).toUInt64 { p with pending, inService }

private theorem loads (p : Plic) (offset : UInt64) (w : Width) :
    p.Loads offset (p.peek offset w) (p.afterLoad offset) := by
  unfold afterLoad
  split
  next context register =>
    cases found : p.best? context with
    | none =>
      have same : p.claim context = p := by simp only [claim, found]
      rw [same]
      exact .unchanged _
    | some source =>
      have value : p.peek offset w = (UInt32.ofNat source.val).toUInt64 := by
        simp only [peek, register, claimable, found]
      have moved : p.claim context = { p with
          pending := (p.claim context).pending, inService := (p.claim context).inService } := by
        simp only [claim, found]
      rw [value, moved]
      exact .claimed context source _ _ (at_eq_claim_iff.1 register) (deliverable_of_best? found)
        (fun _ => isPending_claim found) (fun _ => inService_claim found)
  · exact .unchanged _

end Plic

/-! ### The board -/

namespace Bus

/-- What a load does to the board, with what it returns: at most one device is touched, in the way
in which it reacts to being read. -/
inductive Loads (b : Bus) (addr : UInt64) (w : Width) : UInt64 → Bus → Prop where
  | unchanged (value : UInt64) : Loads b addr w value b
  | uart (offset : UInt64) (value : UInt8) (uart : Uart)
    (found : device? addr w = some (.uart, offset)) (loads : b.uart.Loads offset value uart) :
    Loads b addr w value.toUInt64 { b with uart }
  | plic (offset value : UInt64) (plic : Plic)
    (found : device? addr w = some (.plic, offset)) (loads : b.plic.Loads offset value plic) :
    Loads b addr w value { b with plic }

private theorem loadDevice_eq_peekDevice (b : Bus) (offset : UInt64) (w : Width) (d : Device) :
    b.loadDevice offset w d = b.peekDevice offset w d := by
  cases d with
  | plic => exact b.plic.loaded_eq_peek offset w
  | uart => exact congrArg UInt8.toUInt64 (b.uart.loaded_eq_peek offset)
  | deviceTree | clint | virtio => rfl

private theorem loads_device {b : Bus} {addr offset : UInt64} {w : Width} {d : Device}
    (found : device? addr w = some (d, offset)) :
    b.Loads addr w (b.peekDevice offset w d) (b.afterLoad offset d) := by
  cases d with
  | plic => exact .plic offset _ _ found (b.plic.loads offset w)
  | uart => exact .uart offset _ _ found (b.uart.loads offset)
  | deviceTree | clint | virtio => exact .unchanged _

/-- A load and a peek fail with the same fault, and then the load leaves the board as it is, or both
succeed with the same value; a load that succeeds takes the head of the input queue, clears the flag
of the empty transmitter that it reports, claims one source, or changes nothing at all. -/
theorem load_observes_peek (b : Bus) (addr : UInt64) (w : Width) :
    (∃ value b', load addr w b = .ok value b' ∧ b.peek addr w = .ok value ∧
      b.Loads addr w value b') ∨
    ∃ f, load addr w b = .error f b ∧ b.peek addr w = .error f := by
  by_cases inside : b.ram.contains addr w.bytes
  · refine .inl ⟨b.ram.read addr w, b, ?_, ?_, .unchanged _⟩
    · rw [load, if_pos inside]
    · rw [peek, if_pos inside]
  · cases found : device? addr w with
    | none =>
      refine .inr ⟨.outOfRange addr, ?_, ?_⟩
      · rw [load, if_neg inside, found]
      · rw [peek, if_neg inside, found]
    | some place =>
      rcases place with ⟨d, offset⟩
      refine .inl ⟨b.peekDevice offset w d, b.afterLoad offset d, ?_, ?_, loads_device found⟩
      · rw [← loadDevice_eq_peekDevice, load, if_neg inside, found]
      · rw [peek, if_neg inside, found]

end Bus

/-! ### The size of an answer -/

private theorem Width.byte_le (w : Width) : 2 ^ 8 ≤ 2 ^ (8 * w.bytes) :=
  Nat.pow_le_pow_right (by decide) (Nat.le_mul_of_pos_right 8 w.bytes_pos)

private theorem readField_lt (register offset : UInt64) (w : Width) :
    (readField register offset w).toNat < 2 ^ (8 * w.bytes) := by
  unfold readField
  split
  · exact Nat.two_pow_pos _
  · have below : w.mask.toNat < 2 ^ (8 * w.bytes) := by cases w <;> decide
    rw [UInt64.toNat_and]
    exact Nat.lt_of_le_of_lt Nat.and_le_right below

private theorem Clint.load_lt (c : Clint) (offset : UInt64) (w : Width) :
    (c.load offset w).toNat < 2 ^ (8 * w.bytes) := by
  unfold load
  split
  · exact readField_lt _ _ w
  split
  · exact readField_lt _ _ w
  split
  · exact readField_lt _ _ w
  · exact Nat.two_pow_pos _

private theorem Plic.peek_lt (p : Plic) (offset : UInt64) (w : Width) :
    (p.peek offset w).toNat < 2 ^ (8 * w.bytes) := by
  unfold peek
  split
  · exact readField_lt _ _ w
  · exact readField_lt _ _ w
  · exact readField_lt _ _ w
  · exact readField_lt _ _ w
  · refine Nat.lt_of_lt_of_le ?_ w.byte_le
    unfold claimable
    split
    next source _ =>
      rw [UInt32.toNat_toUInt64, UInt32.toNat_ofNat']
      omega
    · decide
  · exact Nat.two_pow_pos _

namespace Bus

private theorem deviceTreeAt_lt (tree : ByteArray) (i : Nat) {n : Nat} (short : n ≤ 8) :
    (deviceTreeAt tree i n).toNat < 2 ^ (8 * n) := by
  induction n generalizing i with
  | zero => simp [deviceTreeAt]
  | succ n ih =>
    have rest := ih (i + 1) (by omega)
    have room : 2 ^ (8 * n) ≤ 2 ^ 56 := Nat.pow_le_pow_right (by decide) (by omega)
    have low := ((tree[i]?).getD 0).toNat_lt
    rw [deviceTreeAt, Ram.toNat_join _ _ (by omega), Nat.mul_add, Nat.pow_add]
    omega

theorem peek_lt {b : Bus} {addr value : UInt64} {w : Width} (seen : b.peek addr w = .ok value) :
    value.toNat < 2 ^ (8 * w.bytes) := by
  unfold peek at seen
  split at seen
  · obtain rfl := Except.ok.inj seen
    exact b.ram.readAt_lt _ w.bytes_le
  split at seen
  next d offset _ =>
    obtain rfl := Except.ok.inj seen
    cases d with
    | deviceTree => exact deviceTreeAt_lt b.deviceTree offset.toNat w.bytes_le
    | clint => exact b.clint.load_lt offset w
    | plic => exact b.plic.peek_lt offset w
    | uart => exact Nat.lt_of_lt_of_le (b.uart.peek offset).toNat_lt w.byte_le
    | virtio => exact readField_lt _ _ w
  · contradiction

end Bus

end RiscvBoard
