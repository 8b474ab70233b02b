import RiscvBoard.CommandLine.Arguments

/-!
A run of the simulator on a console: bursts of steps, with the guest's output taken after each,
until the guest halts, machine mode cannot go on, or the limit of steps is reached.
-/

set_option autoImplicit false

namespace RiscvBoard.CommandLine

structure Failure where
  context : String
  cause : Option String

def Failure.report (f : Failure) : String :=
  match f.cause with
  | none => "Error: " ++ f.context ++ "\n"
  | some cause => "Error: " ++ f.context ++ "\n\nCaused by:\n    " ++ cause ++ "\n"

/-- How a run ended: the exit code, and the last lines on both outputs. -/
structure Ending where
  code : UInt8
  stdout : String
  stderr : String

def Failure.ending (f : Failure) : Ending :=
  ⟨1, "", f.report⟩

structure Console where
  simulator : Simulator
  /-- Whether the image has an exit word, so that the run gives a verdict. -/
  testMode : Bool
  /-- The number of steps after which the run stops; 0 means never. -/
  limit : Nat
  executed : Nat

inductive Burst where
  | more (output : List UInt8) (c : Console)
  | ended (output : List UInt8) (e : Ending)

namespace Console

/-- The number of steps between two visits to the console. -/
def quantum : Nat := 10000

def budget (c : Console) : Nat :=
  if c.limit = 0 then quantum else min quantum (c.limit - c.executed)

def pushInput (c : Console) (bytes : List UInt8) : Console :=
  let { simulator := ⟨m, symbols⟩, testMode, limit, executed } := c
  let m := { m with bus := { m.bus with uart := bytes.foldl Uart.pushInput m.bus.uart } }
  ⟨⟨m, symbols⟩, testMode, limit, executed⟩

def limitReached (c : Console) : Ending :=
  if c.testMode then
    Failure.ending ⟨"no verdict after " ++ toString c.limit ++ " instructions", none⟩
  else ⟨0, "", "instruction limit (" ++ toString c.limit ++ ") reached\n"⟩

def halted (testMode : Bool) (reason : HaltReason) : Ending :=
  let verdict := if reason.passed then "[PASS]\n" else "[FAIL]\n"
  let line := "CPU halted: " ++ reason.message ++ "\n"
  ⟨if reason.passed then 0 else 1, (if testMode then verdict else "") ++ line, ""⟩

def fatal (m : Machine) (f : FatalTrap) : Ending :=
  Failure.ending
    ⟨"at pc " ++ Hex.text m.hart.pc.toNat ++ ", gp(x3)=" ++ Hex.text (m.hart.read 3).toNat,
      some f.message⟩

def takeOutput (m : Machine) : List UInt8 × Machine :=
  (m.bus.uart.pendingText, { m with bus := { m.bus with uart := m.bus.uart.dropPendingText } })

def nextTrace (c : Console) : List TraceLine :=
  (Machine.runTraced c.budget c.simulator.machine).1

def burst (c : Console) : Burst :=
  let n := c.budget
  if n = 0 then .ended [] c.limitReached
  else
    let { simulator := ⟨m, symbols⟩, testMode, limit, executed } := c
    match Machine.run n m with
    | .error f m =>
      let (output, m) := takeOutput m
      .ended output (fatal m f)
    | .ok (some reason) m =>
      let (output, _) := takeOutput m
      .ended output (halted testMode reason)
    | .ok none m =>
      let (output, m) := takeOutput m
      .more output ⟨⟨m, symbols⟩, testMode, limit, executed + n⟩

/-- Runs at most `n` bursts; answers with the output and the ending if the run ends in them. The
output so far comes as pieces, the last one first. -/
def finish? (c : Console) (pieces : List (List UInt8)) : Nat → Option (List UInt8 × Ending)
  | 0 => none
  | n + 1 =>
    match c.burst with
    | .more output c => finish? c (output :: pieces) n
    | .ended output e => some ((output :: pieces).reverse.flatten, e)

end Console

def readNeeded {m : Type → Type} [Monad m] (read : String → m (Except String ByteArray))
    (path : String) : ExceptT Failure m ByteArray := do
  match ← (read path : m _) with
  | .ok bytes => return bytes
  | .error e => throw ⟨"reading " ++ path, some e⟩

def ofLoad {α : Type} {m : Type → Type} [Monad m] (context : String) :
    Except LoadError α → ExceptT Failure m α
  | .ok a => return a
  | .error e => throw ⟨context, some e.message⟩

/-- Sets a run up: reads the files, boots the machine and attaches what was asked for. -/
def Console.start {m : Type → Type} [Monad m] (reader : Elf.Reader)
    (read : String → m (Except String ByteArray)) (a : Arguments) : ExceptT Failure m Console := do
  match a.imagePath? with
  | none => throw ⟨"no image given (use --elf <PATH> or a positional IMAGE)", none⟩
  | some path =>
    let image ← readNeeded read path
    let mut s ← ofLoad ("loading " ++ path) (Simulator.boot reader a.settings image)
    if let some path := a.disk then
      s := s.attachDisk (← readNeeded read path)
    if let some path := a.deviceTree then
      let blob ← readNeeded read path
      s ← ofLoad ("installing " ++ path) (s.attachDeviceTree blob)
    return ⟨s, s.machine.tohost.isSome, a.maxSteps.getD 0, 0⟩

end RiscvBoard.CommandLine
