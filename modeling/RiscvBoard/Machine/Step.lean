import RiscvBoard.Isa.Compressed
import RiscvBoard.Machine.Execute

/-!
One step of the machine: time passes, then a pending interrupt is taken, or one instruction is
fetched, decoded and executed, and its trap is taken if it raises one.
-/

set_option autoImplicit false

namespace RiscvBoard

inductive StepOutcome where
  | continued
  | trapped (t : Trap)
  | halted (reason : HaltReason)
  deriving DecidableEq, Repr

structure Fetched where
  raw : UInt32
  /-- Whether only two bytes were fetched. -/
  compressed : Bool
  deriving DecidableEq, Repr

namespace Fetched

def length (f : Fetched) : UInt64 :=
  if f.compressed then 2 else 4

def decode (f : Fetched) (xlen : Xlen) : Except DecodeError Instr :=
  if f.compressed then Instr.expand xlen (f.raw.toBitVec.setWidth 16)
  else Instr.decode xlen f.raw.toBitVec

end Fetched

namespace Machine

def fetchHalf (pc vaddr : UInt64) : Exec UInt16 := do
  let paddr ← (translate vaddr .fetch).at pc
  match (← get).bus.peek paddr .half with
  | .ok half => return half.toUInt16
  | .error _ => raise pc (.accessFault .fetch vaddr)

def fetch (pc : UInt64) : Exec Fetched := do
  if pc &&& 1 ≠ 0 then raise pc (.misaligned .fetch pc)
  else
    let low ← fetchHalf pc pc
    if low &&& 3 ≠ 3 then return ⟨low.toUInt32, true⟩
    let xlen := (← get).xlen
    let high ← fetchHalf pc (xlen.truncate (pc + 2))
    return ⟨(high.toUInt32 <<< 16) ||| low.toUInt32, false⟩

def fetchDecode : Exec (Instr × Fetched) := do
  let pc := (← get).hart.pc
  let fetched ← fetch pc
  match fetched.decode (← get).xlen with
  | .ok i => return (i, fetched)
  | .error e => throw (.ofDecodeError pc e)

def executeNext : Exec Unit := do
  let (i, fetched) ← fetchDecode
  execute i fetched.raw fetched.length

/-- Whether machine mode cannot take a trap of its own: the handler raised it at its first
instruction, or lies outside memory. -/
def isFatal (m : Machine) (t : Trap) (route : TrapRoute) : Bool :=
  m.hart.csrs.privilege == .machine && route.target == .machine &&
    ((!t.isInterrupt && route.handler == t.pc) || !m.bus.ram.contains route.handler 2)

/-- Takes a trap, which ends any reservation. A fatal trap changes nothing. -/
def takeTrap (t : Trap) : EStateM FatalTrap Machine Unit := fun m =>
  let route := m.hart.csrs.route t
  if m.isFatal t route then .error ⟨t, route.handler⟩ m
  else .ok () { m with reservation := none, hart := m.hart.enter t route }

/-- Lets the devices run for one step and shows their interrupt lines to the hart. -/
def tickDevices (m : Machine) : Machine :=
  let m := { m with bus := m.bus.tick }
  m.setCsrs (m.bus.drive m.hart.csrs)

def countCycle (m : Machine) : Machine :=
  let c := m.hart.csrs
  if c.mcountinhibit &&& 1 = 0 then m.setCsrs { c with cycle := c.cycle + 1 } else m

def countInstruction (m : Machine) : Machine :=
  let c := m.hart.csrs
  if c.mcountinhibit &&& 4 = 0 then m.setCsrs { c with instret := c.instret + 1 } else m

def retire (m : Machine) : Machine :=
  let m := m.countInstruction
  m.setPc (m.xlen.truncate m.hart.pc)

def trapped (t : Trap) : EStateM FatalTrap Machine StepOutcome := do
  takeTrap t
  return .trapped t

def stepInstruction : EStateM FatalTrap Machine StepOutcome := fun m =>
  match executeNext m with
  | .ok _ m =>
    let m := m.retire
    match m.haltReason? with
    | some reason => .ok (.halted reason) m
    | none => .ok .continued m
  | .error t m => trapped t m

/-- Executes one instruction, or takes one pending interrupt. A machine that has halted stays as it
is. -/
def step : EStateM FatalTrap Machine StepOutcome := fun m =>
  match m.haltReason? with
  | some reason => .ok (.halted reason) m
  | none =>
    let m := m.tickDevices.countCycle
    match m.hart.csrs.pendingInterrupt? with
    | some i => trapped (.ofInterrupt i m.hart.pc) m
    | none => stepInstruction m

end Machine

end RiscvBoard
