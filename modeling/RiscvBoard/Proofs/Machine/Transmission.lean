import RiscvBoard.Proofs.Board.SerialLine
import RiscvBoard.Proofs.Machine.Writing

/-!
What the guest transmits. The bytes are told from the writes that instructions do on the bus,
without a look at the output queue; a step, and with it a run, appends exactly these bytes to the
queue.
-/

set_option autoImplicit false

namespace RiscvBoard

namespace Bus

/-- What a write transmits: its low byte, if it goes to the first register of the serial line while
that register does not give access to the divisor. -/
def sentBy (b : Bus) (w : BusWrite) : List UInt8 :=
  if w.addr = Device.uart.base ∧ b.uart.divisorAccess = false then [w.value.toUInt8] else []

def sent (b : Bus) : List BusWrite → List UInt8
  | [] => []
  | w :: rest => b.sentBy w ++ (b.apply w).sent rest

def Appends (bytes : List UInt8) (b b' : Bus) : Prop :=
  b'.uart.output.toList = b.uart.output.toList ++ bytes

private theorem device?_uart (w : Width) : device? Device.uart.base w = some (.uart, 0) := by
  cases w <;> decide

private theorem appends_apply (b : Bus) (w : BusWrite) : Appends (b.sentBy w) b (b.apply w) := by
  unfold Appends apply write sentBy
  by_cases here : w.addr = Device.uart.base
  · have outside : b.ram.contains Device.uart.base w.width.bytes = false := rfl
    simp only [here, outside, device?_uart, true_and]
    exact b.uart.toList_output_store w.value.toUInt8
  · have nothing : ¬ (w.addr = Device.uart.base ∧ b.uart.divisorAccess = false) :=
      fun sends => here sends.1
    rw [if_neg nothing, List.append_nil]
    split
    · rfl
    split
    · next d offset found =>
      cases d with
      | uart =>
        have moved : offset.toNat ≠ 0 := by
          intro first
          have same : w.addr - Device.uart.base = 0 :=
            (device?_eq_some.1 found).2.trans (UInt64.toNat_inj.1 first)
          exact here (by simpa using congrArg (· + Device.uart.base) same)
        exact congrArg Fifo.toList (b.uart.output_store_of_ne moved _)
      | _ => rfl
    · rfl

private theorem appends_sent (b : Bus) (writes : List BusWrite) :
    Appends (b.sent writes) b (writes.foldl apply b) := by
  induction writes generalizing b with
  | nil => exact (List.append_nil _).symm
  | cons w rest ih =>
    have first := b.appends_apply w
    have later := ih (b.apply w)
    rw [Appends, first] at later
    rw [Appends, sent, ← List.append_assoc]
    exact later

end Bus

namespace Machine

/-! ### Steps and runs -/

def sentBy : Option Writes → List UInt8
  | some (b, writes) => b.sent writes
  | none => []

def transmits (m : Machine) : List UInt8 :=
  match m.executing? with
  | some (i, _, m₁) => sentBy (m₁.writes? i)
  | none => []

private theorem transmits_eq (m : Machine) : m.transmits = sentBy m.nextWrites? := by
  unfold transmits nextWrites?
  cases m.executing? <;> rfl

def Sends (bytes : List UInt8) (m m' : Machine) : Prop :=
  m.bus.Appends bytes m'.bus

def EndsSending {ε α : Type} (x : EStateM ε Machine α) (m : Machine) (bytes : List UInt8) : Prop :=
  Ends x m (fun _ => Sends bytes m) (fun _ => Sends bytes m)

namespace EndsSending

variable {ε α : Type} {x : EStateM ε Machine α} {m m₁ : Machine} {bytes : List UInt8}

theorem of_ok {a : α} (ends : EndsSending x m bytes) (ran : x m = .ok a m₁) : Sends bytes m m₁ := by
  unfold EndsSending at ends
  exact ends.of_ok ran

theorem of_error {e : ε} (ends : EndsSending x m bytes) (ran : x m = .error e m₁) :
    Sends bytes m m₁ := by
  unfold EndsSending at ends
  exact ends.of_error ran

end EndsSending

private theorem isSteady_output : Bus.IsSteady fun b => b.uart.output where
  ram _ _ := rfl
  afterRead b addr w := by
    unfold Bus.afterRead
    split
    · rfl
    split
    · next d offset _ =>
      cases d with
      | uart => exact b.uart.output_afterLoad offset
      | _ => rfl
    · rfl

private theorem sends_of_writes {m m' : Machine}
    (wrote : DoesWrites (fun b => b.uart.output) m.nextWrites? m.begun m') :
    Sends m.transmits m m' := by
  have begun : m.begun.bus.uart = m.bus.uart := by
    rw [begun_bus]
    rfl
  rw [transmits_eq]
  unfold Sends Bus.Appends
  generalize m.nextWrites? = writes at wrote
  cases wrote with
  | nothing kept =>
    have kept : m'.bus.uart.output = m.begun.bus.uart.output := kept
    rw [kept, begun, sentBy, List.append_nil]
  | @writes _ _ b writes start stop =>
    have stop : m'.bus.uart.output = (writes.foldl Bus.apply b).uart.output := stop
    have start : b.uart.output = m.begun.bus.uart.output := start
    have sent := b.appends_sent writes
    rw [Bus.Appends, start, begun] at sent
    rw [stop]
    exact sent

private theorem step_sends (m : Machine) : EndsSending step m m.transmits := by
  cases exit : m.haltReason? with
  | some reason =>
    have idle : m.executing? = none := by rw [executing?, exit]
    rw [EndsSending, Ends, step_of_haltReason? exit, transmits, idle]
    exact (List.append_nil _).symm
  | none =>
    exact (step_writes isSteady_output exit).mono (fun _ _ => sends_of_writes)
      (fun _ _ => sends_of_writes)

/-- What a run of at most `n` steps transmits. -/
def transmitsIn : Nat → Machine → List UInt8
  | 0, _ => []
  | n + 1, m => m.transmits ++
    match step m with
    | .ok (.halted _) _ => []
    | .ok _ m' => transmitsIn n m'
    | .error _ _ => []

private theorem transmitsIn_of_continues {m m₁ : Machine} (first : Continues m m₁) (n : Nat) :
    transmitsIn (n + 1) m = m.transmits ++ transmitsIn n m₁ := by
  rcases first with ⟨outcome, stepped, running⟩
  rw [transmitsIn, stepped]
  cases outcome with
  | halted reason => exact absurd rfl (running reason)
  | continued | trapped t => rfl

private theorem Sends.trans {first rest : List UInt8} {m m₁ m₂ : Machine}
    (before : Sends first m m₁) (after : Sends rest m₁ m₂) : Sends (first ++ rest) m m₂ := by
  unfold Sends Bus.Appends at *
  rw [after, before, List.append_assoc]

/-- A run appends to the output queue what its steps transmit. -/
theorem run_sends (n : Nat) (m : Machine) : EndsSending (run n) m (transmitsIn n m) := by
  induction n generalizing m with
  | zero => exact (List.append_nil _).symm
  | succ n ih =>
    have sends := m.step_sends
    unfold EndsSending Ends
    rcases m.step_ends with ⟨m₁, continues⟩ | ⟨reason, m₁, stepped⟩ | ⟨fatal, m₁, stepped⟩
    · obtain ⟨outcome, stepped, -⟩ := id continues
      have before := sends.of_ok stepped
      rw [run_of_continues continues, transmitsIn_of_continues continues]
      exact Ends.mono (ih m₁) (fun _ _ => before.trans) (fun _ _ => before.trans)
    · rw [run_of_halted stepped, transmitsIn, stepped, List.append_nil]
      exact sends.of_ok stepped
    · rw [run_of_fatal stepped, transmitsIn, stepped, List.append_nil]
      exact sends.of_error stepped

end Machine

end RiscvBoard
