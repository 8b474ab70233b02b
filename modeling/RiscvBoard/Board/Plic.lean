import RiscvBoard.Board.Field

/-!
The platform-level interrupt controller: 31 sources with priorities, and two contexts, one for each
mode that takes external interrupts. A context sees the enabled pending sources above its threshold;
claiming one puts it in service until its completion is written.
-/

set_option autoImplicit false

namespace RiscvBoard

inductive PlicContext where
  | machine
  | supervisor
  deriving DecidableEq, Repr

/-- What a context is set to: the sources it listens to, and the priority that it ignores. -/
structure PlicSettings where
  enable : UInt32
  threshold : UInt32
  deriving DecidableEq

/-- The platform-level interrupt controller. -/
structure Plic where
  priority : Vector UInt32 32
  pending : UInt32
  /-- Sources that were claimed and not yet completed. -/
  inService : UInt32
  machine : PlicSettings
  supervisor : PlicSettings
  deriving DecidableEq

namespace Plic

def uartSource : UInt32 := 10

def virtioSource : UInt32 := 1

def reset : Plic :=
  ⟨Vector.replicate 32 0, 0, 0, ⟨0, 0⟩, ⟨0, 0⟩⟩

def settings (p : Plic) : PlicContext → PlicSettings
  | .machine => p.machine
  | .supervisor => p.supervisor

def setSettings (p : Plic) (s : PlicSettings) : PlicContext → Plic
  | .machine => { p with machine := s }
  | .supervisor => { p with supervisor := s }

/-- Latches raised lines into the pending bits; a source in service and the source 0 stay out. -/
def update (p : Plic) (lines : UInt32) : Plic :=
  { p with pending := p.pending ||| (lines &&& ~~~p.inService &&& ~~~1) }

def eligible (p : Plic) (s : PlicSettings) (source : Fin 32) : Bool :=
  ((p.pending &&& s.enable) >>> UInt32.ofNat source.val) &&& 1 != 0 &&
    p.priority[source] > s.threshold

def sources : List (Fin 32) :=
  (List.finRange 32).tail

/-- The better of the best source so far and the next one: a tie keeps the lower number. -/
def better (p : Plic) (s : PlicSettings) (best : Option (Fin 32)) (source : Fin 32) :
    Option (Fin 32) :=
  if p.eligible s source then
    match best with
    | none => some source
    | some b => if p.priority[source] > p.priority[b] then some source else some b
  else best

/-- The source of highest priority that a context can take, if any. -/
def best? (p : Plic) (context : PlicContext) : Option (Fin 32) :=
  let s := p.settings context
  if p.pending &&& s.enable = 0 then none else sources.foldl (p.better s) none

/-- The number that a claim by a context returns: the best source, or 0. -/
def claimable (p : Plic) (context : PlicContext) : UInt32 :=
  match p.best? context with
  | some source => UInt32.ofNat source.val
  | none => 0

def contextPending (p : Plic) (context : PlicContext) : Bool :=
  (p.best? context).isSome

/-- Moves the best source of a context from pending to in service. -/
def claim (p : Plic) (context : PlicContext) : Plic :=
  match p.best? context with
  | some source =>
    let bit := 1 <<< UInt32.ofNat source.val
    { p with pending := p.pending &&& ~~~bit, inService := p.inService ||| bit }
  | none => p

/-- Ends the service of a source; numbers of no source do nothing. -/
def complete (p : Plic) (source : UInt32) : Plic :=
  if source < 32 then { p with inService := p.inService &&& ~~~(1 <<< source) } else p

inductive Register where
  | priority (source : Fin 32) (byte : UInt64)
  | pending (byte : UInt64)
  | enable (context : PlicContext) (byte : UInt64)
  | threshold (context : PlicContext) (byte : UInt64)
  | claim (context : PlicContext)
  | unused

/-- The context whose block of `stride` bytes from `first` on holds an offset, and the place in the
block. -/
def contextAt? (offset first stride : UInt64) : Option (PlicContext × UInt64) :=
  if offset < first then none
  else if (offset - first) / stride = 0 then some (.machine, (offset - first) % stride)
  else if (offset - first) / stride = 1 then some (.supervisor, (offset - first) % stride)
  else none

def pendingOffset : UInt64 := 0x1000

def enableOffset : UInt64 := 0x2000

def enableStride : UInt64 := 0x80

def contextOffset : UInt64 := 0x200000

def contextStride : UInt64 := 0x1000

def Register.at (offset : UInt64) : Register :=
  if h : offset.toNat < 128 then
    .priority ⟨offset.toNat / 4, by omega⟩ (offset % 4)
  else if pendingOffset ≤ offset ∧ offset < pendingOffset + 4 then .pending (offset % 4)
  else
    match contextAt? offset enableOffset enableStride with
    | some (context, place) => if place < 4 then .enable context (offset % 4) else .unused
    | none =>
      match contextAt? offset contextOffset contextStride with
      | some (context, place) =>
        if place < 4 then .threshold context place
        else if place < 8 then .claim context
        else .unused
      | none => .unused

def peek (p : Plic) (offset : UInt64) (w : Width) : UInt64 :=
  match Register.at offset with
  | .priority source byte => readField p.priority[source].toUInt64 byte w
  | .pending byte => readField p.pending.toUInt64 byte w
  | .enable context byte => readField (p.settings context).enable.toUInt64 byte w
  | .threshold context byte => readField (p.settings context).threshold.toUInt64 byte w
  | .claim context => (p.claimable context).toUInt64
  | .unused => 0

/-- What a load of a register returns: the source that it claims, or what the register shows. -/
def loaded (p : Plic) (offset : UInt64) (w : Width) : UInt64 :=
  match contextAt? offset contextOffset contextStride with
  | some (context, place) =>
    if 4 ≤ place ∧ place < 8 then (p.claimable context).toUInt64 else p.peek offset w
  | none => p.peek offset w

/-- The controller after a register was read: reading a claim register claims. -/
def afterLoad (p : Plic) (offset : UInt64) : Plic :=
  match Register.at offset with
  | .claim context => p.claim context
  | _ => p

/-- Writes a register. Priorities and thresholds keep three bits, and source 0 is never enabled. -/
def store (p : Plic) (offset : UInt64) (w : Width) (value : UInt64) : Plic :=
  match Register.at offset with
  | .priority source byte =>
    let old := p.priority[source].toUInt64
    { p with priority := p.priority.set source ((writeField old byte w value).toUInt32 &&& 7) }
  | .enable context byte =>
    let s := p.settings context
    let old := s.enable.toUInt64
    p.setSettings { s with enable := (writeField old byte w value).toUInt32 &&& ~~~1 } context
  | .threshold context byte =>
    let s := p.settings context
    let old := s.threshold.toUInt64
    p.setSettings { s with threshold := (writeField old byte w value).toUInt32 &&& 7 } context
  | .claim _ => p.complete value.toUInt32
  | .pending _ | .unused => p

end Plic

end RiscvBoard
