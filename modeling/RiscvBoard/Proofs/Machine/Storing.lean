import RiscvBoard.Machine.Memory
import RiscvBoard.Proofs.Board.Windows
import RiscvBoard.Proofs.Ends
import RiscvBoard.Proofs.Region

/-!
Stores on the board. What the board accepts depends on the size of memory and on nothing else, so
that a store changes the answer for no other one: a store across two pages whose bytes were all
accepted before the first one landed stores all of them.
-/

set_option autoImplicit false

namespace RiscvBoard

structure BusWrite where
  addr : UInt64
  width : Width
  value : UInt64

namespace Bus

def apply (b : Bus) (w : BusWrite) : Bus :=
  b.write w.addr w.width w.value

private theorem acceptsStore_of_size {b c : Bus} (size : c.ram.size = b.ram.size) (addr : UInt64)
    (w : Width) : c.acceptsStore addr w = b.acceptsStore addr w := by
  rw [acceptsStore, acceptsStore, Ram.contains_of_size size]

@[simp] theorem size_write (b : Bus) (addr : UInt64) (w : Width) (value : UInt64) :
    (b.write addr w value).ram.size = b.ram.size := by
  unfold write
  split
  · exact Ram.size_writeAt _ _ _ _
  split
  · next d offset _ => cases d <;> rfl
  · rfl

theorem acceptsStore_write (b : Bus) (addr other : UInt64) (w v : Width) (value : UInt64) :
    (b.write addr w value).acceptsStore other v = b.acceptsStore other v :=
  acceptsStore_of_size (b.size_write addr w value) other v

theorem acceptsStore_iff_store {b : Bus} {addr : UInt64} {w : Width} (value : UInt64) :
    b.acceptsStore addr w ↔ ∃ c, store addr w value b = .ok () c := by
  constructor
  · intro accepted
    exact ⟨_, store_of_accepts accepted value⟩
  · rintro ⟨c, stored⟩
    cases accepted : b.acceptsStore addr w with
    | true => rfl
    | false =>
      rw [store_of_not_accepts accepted] at stored
      contradiction

end Bus

namespace Machine

def writeBytes (s : Span) (value : UInt64) (m : Machine) (i : Nat) : Nat → Machine
  | 0 => m
  | n + 1 =>
    let byte := (value >>> (8 * i).toUInt64) &&& 0xff
    writeBytes s value { m with bus := m.bus.write (s.byteAddr i) .byte byte } (i + 1) n

def Span.writes (s : Span) (w : Width) (value : UInt64) : List BusWrite :=
  match s.next with
  | none => [⟨s.first, w, w.truncate value⟩]
  | some _ => (List.range' 0 w.bytes).map fun i =>
    ⟨s.byteAddr i, .byte, (value >>> (8 * i).toUInt64) &&& 0xff⟩

theorem writeBytes_bus (s : Span) (value : UInt64) (m : Machine) (i n : Nat) :
    (writeBytes s value m i n).bus = ((List.range' i n).map fun i =>
      ⟨s.byteAddr i, .byte, (value >>> (8 * i).toUInt64) &&& 0xff⟩).foldl Bus.apply m.bus := by
  induction n generalizing m i with
  | zero => rfl
  | succ n ih =>
    rw [writeBytes, ih]
    rfl

variable {m : Machine} {s : Span} {w : Width} {n : Nat}

theorem acceptsBytes_iff :
    m.acceptsBytes s n ↔ ∀ i < n, m.bus.acceptsStore (s.byteAddr i) .byte := by
  simp only [acceptsBytes, List.all_eq_true, List.mem_range]

section Whole

variable {paddr : UInt64}

private theorem storeBus_of_accepts (accepted : m.bus.acceptsStore paddr w) (vaddr value : UInt64) :
    storeBus paddr vaddr w value m = .ok () { m with bus := m.bus.write paddr w value } := by
  rw [storeBus, Bus.store_of_accepts accepted]

private theorem storeBus_of_not_accepts (refused : m.bus.acceptsStore paddr w = false)
    (vaddr value : UInt64) :
    storeBus paddr vaddr w value m = .error (.access .store vaddr) m := by
  rw [storeBus, Bus.store_of_not_accepts refused]

theorem storePhys_of_accepts (accepted : m.bus.acceptsStore paddr w) (vaddr value : UInt64) :
    storePhys paddr vaddr w value m =
      .ok () ({ m with bus := m.bus.write paddr w (w.truncate value) }.checkTohost paddr
        (w.truncate value)) := by
  rw [storePhys, bind_of_ok (storeBus_of_accepts accepted vaddr _)]
  rfl

theorem storePhys_of_not_accepts (refused : m.bus.acceptsStore paddr w = false)
    (vaddr value : UInt64) :
    storePhys paddr vaddr w value m = .error (.access .store vaddr) m := by
  rw [storePhys, bind_of_error (storeBus_of_not_accepts refused vaddr _)]

end Whole

/-- Where each byte was accepted at the start, each byte lands: no byte takes from a later one that
it is accepted. -/
private theorem storeBytes_of_accepts (vaddr value : UInt64) {i : Nat}
    (accepted : ∀ j, i ≤ j → j < i + n → m.bus.acceptsStore (s.byteAddr j) .byte) :
    storeBytes s vaddr value i n m = .ok () (writeBytes s value m i n) := by
  induction n generalizing m i with
  | zero => rfl
  | succ n ih =>
    have first := storeBus_of_accepts (accepted i (Nat.le_refl i) (by omega)) vaddr
      ((value >>> (8 * i).toUInt64) &&& 0xff)
    rw [storeBytes, bind_of_ok first, writeBytes]
    refine ih fun j low high => ?_
    rw [Bus.acceptsStore_write]
    exact accepted j (by omega) (by omega)

theorem storeSplit_of_accepts (accepted : m.acceptsBytes s w.bytes) (vaddr value : UInt64) :
    storeSplit s vaddr w value m =
      .ok () ((writeBytes s value m 0 w.bytes).checkTohost s.first (w.truncate value)) := by
  have all : ∀ j, 0 ≤ j → j < 0 + w.bytes → m.bus.acceptsStore (s.byteAddr j) .byte :=
    fun j _ short => acceptsBytes_iff.1 accepted j (by omega)
  simp only [storeSplit, bind_get, if_pos accepted, bind_of_ok (storeBytes_of_accepts vaddr value all)]
  rfl

theorem storeSplit_of_not_accepts (refused : m.acceptsBytes s w.bytes = false)
    (vaddr value : UInt64) :
    storeSplit s vaddr w value m = .error (.access .store vaddr) m := by
  simp only [storeSplit, bind_get, if_neg (Bool.eq_false_iff.1 refused)]
  rfl

end Machine

end RiscvBoard
