import RiscvBoard.Csr.File
import RiscvBoard.Hex
import RiscvBoard.Isa.Decode

/-!
Traps: the exceptions and interrupts that a hart can take, their cause numbers, trap values and
messages.
-/

set_option autoImplicit false

namespace RiscvBoard

inductive Exception where
  | misaligned (kind : AccessKind) (addr : UInt64)
  | accessFault (kind : AccessKind) (addr : UInt64)
  | pageFault (kind : AccessKind) (addr : UInt64)
  | illegalInstruction (inst : UInt32)
  | breakpoint
  | environmentCall (mode : Privilege)
  deriving DecidableEq, Repr

inductive TrapCause where
  | exception (e : Exception)
  | interrupt (i : Interrupt)
  deriving DecidableEq, Repr

structure Trap where
  cause : TrapCause
  pc : UInt64
  deriving DecidableEq, Repr

namespace Exception

def code : Exception → UInt64
  | misaligned .fetch _ => 0
  | accessFault .fetch _ => 1
  | illegalInstruction _ => 2
  | breakpoint => 3
  | misaligned .load _ => 4
  | accessFault .load _ => 5
  | misaligned .store _ => 6
  | accessFault .store _ => 7
  | environmentCall .user => 8
  | environmentCall .supervisor => 9
  | environmentCall .machine => 11
  | pageFault .fetch _ => 12
  | pageFault .load _ => 13
  | pageFault .store _ => 15

def value (pc : UInt64) : Exception → UInt64
  | misaligned _ addr => addr
  | accessFault _ addr => addr
  | pageFault _ addr => addr
  | illegalInstruction inst => inst.toUInt64
  | breakpoint => pc
  | environmentCall _ => 0

/-- The exception that reports a memory fault; an address out of range counts as a failed load. -/
def ofFault : MemFault → Exception
  | .outOfRange addr => accessFault .load addr
  | .access kind addr => accessFault kind addr
  | .page kind addr => pageFault kind addr

def accessName : AccessKind → String
  | .fetch => "instruction"
  | .load => "load"
  | .store => "store"

def message (pc : UInt64) : Exception → String
  | misaligned kind addr =>
    accessName kind ++ " address misaligned at pc=" ++ Hex.text pc.toNat ++ ", addr=" ++
      Hex.text addr.toNat
  | accessFault kind addr =>
    accessName kind ++ " access fault at pc=" ++ Hex.text pc.toNat ++ ", addr=" ++
      Hex.text addr.toNat
  | pageFault kind addr =>
    accessName kind ++ " page fault at pc=" ++ Hex.text pc.toNat ++ ", addr=" ++
      Hex.text addr.toNat
  | illegalInstruction inst =>
    "illegal instruction at pc=" ++ Hex.text pc.toNat ++ " inst=" ++ Hex.textPadded 8 inst.toNat
  | breakpoint => "breakpoint at pc=" ++ Hex.text pc.toNat
  | environmentCall .user => "user environment call at pc=" ++ Hex.text pc.toNat
  | environmentCall .supervisor => "supervisor environment call at pc=" ++ Hex.text pc.toNat
  | environmentCall .machine => "machine environment call at pc=" ++ Hex.text pc.toNat

end Exception

def Interrupt.message : Interrupt → String
  | supervisorSoftware => "supervisor software interrupt"
  | machineSoftware => "machine software interrupt"
  | supervisorTimer => "supervisor timer interrupt"
  | machineTimer => "machine timer interrupt"
  | supervisorExternal => "supervisor external interrupt"
  | machineExternal => "machine external interrupt"

namespace Trap

def ofException (e : Exception) (pc : UInt64) : Trap :=
  ⟨.exception e, pc⟩

def ofInterrupt (i : Interrupt) (pc : UInt64) : Trap :=
  ⟨.interrupt i, pc⟩

def ofFault (pc : UInt64) (f : MemFault) : Trap :=
  ofException (.ofFault f) pc

def ofDecodeError (pc : UInt64) (e : DecodeError) : Trap :=
  ofException (.illegalInstruction e.inst) pc

def isInterrupt (t : Trap) : Bool :=
  match t.cause with
  | .exception _ => false
  | .interrupt _ => true

def code (t : Trap) : UInt64 :=
  match t.cause with
  | .exception e => e.code
  | .interrupt i => i.cause

def value (t : Trap) : UInt64 :=
  match t.cause with
  | .exception e => e.value t.pc
  | .interrupt _ => 0

def interruptMark : Xlen → UInt64
  | .rv32 => 0x80000000
  | .rv64 => 0x8000000000000000

def causeRegister (t : Trap) (xlen : Xlen) : UInt64 :=
  if t.isInterrupt then interruptMark xlen ||| t.code else t.code

def message (t : Trap) : String :=
  match t.cause with
  | .exception e => e.message t.pc
  | .interrupt i => i.message

end Trap

end RiscvBoard
