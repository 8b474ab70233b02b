import RiscvBoard.Board.Bus
import RiscvBoard.Machine.Hart
import RiscvBoard.Paging.Translate

/-!
The machine: the hart, the board, the paging unit, the reservation of the last load-reserved,
and the word through which the guest ends the run.
-/

set_option autoImplicit false

namespace RiscvBoard

/-- Why a run ended: the guest stored this code in its exit word. -/
structure HaltReason where
  code : UInt64
  deriving DecidableEq, Repr

namespace HaltReason

/-- Whether the code reports success; other codes carry the number of the failed test in their upper
bits. -/
def passed (h : HaltReason) : Bool :=
  h.code == 1

def message (h : HaltReason) : String :=
  if h.passed then "tohost = 1 (pass)"
  else
    "tohost = " ++ Hex.text h.code.toNat ++ " (fail, test " ++ toString (h.code >>> 1).toNat ++ ")"

end HaltReason

/-- A trap that machine mode cannot take, because its handler cannot run. -/
structure FatalTrap where
  trap : Trap
  handler : UInt64
  deriving DecidableEq, Repr

def FatalTrap.message (f : FatalTrap) : String :=
  "unrecoverable " ++ f.trap.message ++ ": handler at " ++ Hex.text f.handler.toNat ++
    " cannot run"

structure Machine where
  hart : Hart
  bus : Bus
  mmu : Mmu
  /-- The physical address that the last load-reserved holds. -/
  reservation : Option UInt64
  /-- The physical address of the word whose stores end the run. -/
  tohost : Option UInt64
  exitCode : Option UInt64

namespace Machine

def reset (ramSize : Nat) (xlen : Xlen) : Machine :=
  ⟨.reset xlen, .reset ramSize, .reset, none, none, none⟩

def xlen (m : Machine) : Xlen :=
  m.hart.xlen

def haltReason? (m : Machine) : Option HaltReason :=
  m.exitCode.map HaltReason.mk

def setCsrs (m : Machine) (c : CsrFile) : Machine :=
  { m with hart := { m.hart with csrs := c } }

def setPc (m : Machine) (pc : UInt64) : Machine :=
  { m with hart := { m.hart with pc := pc } }

def setReg (m : Machine) (r : Reg) (value : UInt64) : Machine :=
  { m with hart := m.hart.write r value }

end Machine

/-- Memory accesses of the machine, which end with a value or with a memory fault. -/
abbrev Access := EStateM MemFault Machine

/-- Steps of an instruction, which end with a value or with a trap. -/
abbrev Exec := EStateM Trap Machine

def Access.at {α : Type} (pc : UInt64) (x : Access α) : Exec α := fun m =>
  match x m with
  | .ok a m => .ok a m
  | .error f m => .error (.ofFault pc f) m

end RiscvBoard
