import RiscvBoard.Isa.Assembly
import RiscvBoard.Machine.Step

/-!
Runs of many steps: with a budget, up to a breakpoint, and with a record of each instruction.
-/

set_option autoImplicit false

namespace RiscvBoard

inductive RunStop where
  /-- The program counter reached a breakpoint after a step. -/
  | breakpoint (addr : UInt64)
  /-- The budget ran out; the machine can go on. -/
  | exhausted
  | halted (reason : HaltReason)
  deriving DecidableEq, Repr

structure TraceLine where
  pc : UInt64
  fetched : Fetched
  mode : Privilege
  instr : Instr

def TraceLine.rawText (l : TraceLine) : String :=
  Hex.padded (if l.fetched.compressed then 4 else 8) l.fetched.raw.toNat

def TraceLine.text (l : TraceLine) : String :=
  l.instr.text ++ " pc=" ++ Hex.text l.pc.toNat ++ " inst=" ++ l.rawText ++ " mode=" ++ l.mode.name

namespace Machine

/-- Runs at most `n` steps; stops early when the machine halts. -/
def run : Nat → EStateM FatalTrap Machine (Option HaltReason)
  | 0 => return none
  | n + 1 => do
    match ← step with
    | .halted reason => return some reason
    | _ => run n

/-- Runs at most `n` steps; stops early when the machine halts, or when the program counter is on a
breakpoint after a step. -/
def runUntil (breakpoints : List UInt64) : Nat → EStateM FatalTrap Machine RunStop
  | 0 => return .exhausted
  | n + 1 => do
    match ← step with
    | .halted reason => return .halted reason
    | _ =>
      let pc := (← get).hart.pc
      if breakpoints.contains pc then return .breakpoint pc else runUntil breakpoints n

/-- The record that the next step makes: the instruction that it will fetch and decode, if it gets
so far. -/
def nextTraceLine? (m : Machine) : Option TraceLine :=
  match m.haltReason? with
  | some _ => none
  | none =>
    let m := m.tickDevices.countCycle
    match m.hart.csrs.pendingInterrupt? with
    | some _ => none
    | none =>
      match fetchDecode m with
      | .ok (instr, fetched) m => some ⟨m.hart.pc, fetched, m.hart.csrs.privilege, instr⟩
      | .error _ _ => none

def runTraced : Nat → Machine →
    List TraceLine × EStateM.Result FatalTrap Machine (Option HaltReason)
  | 0, m => ([], .ok none m)
  | n + 1, m =>
    let line := m.nextTraceLine?.toList
    match step m with
    | .ok (.halted reason) m => (line, .ok (some reason) m)
    | .ok _ m =>
      let (lines, result) := runTraced n m
      (line ++ lines, result)
    | .error e m => (line, .error e m)

end Machine

end RiscvBoard
