import RiscvBoard.Access
import RiscvBoard.Privilege
import RiscvBoard.Xlen

/-!
The control state of the hart: privilege mode, status word, trap registers, interrupt bits,
page table root and counters; and the fields and rules that are read off it.
-/

set_option autoImplicit false

namespace RiscvBoard

namespace Status

def sie : UInt64 := 0x2

def mie : UInt64 := 0x8

def spie : UInt64 := 0x20

def mpie : UInt64 := 0x80

def spp : UInt64 := 0x100

def mpp : UInt64 := 0x1800

def mprv : UInt64 := 0x20000

def sum : UInt64 := 0x40000

def mxr : UInt64 := 0x80000

def tvm : UInt64 := 0x100000

def tw : UInt64 := 0x200000

def tsr : UInt64 := 0x400000

def uxl : UInt64 := 0x300000000

/-- The bits of the status word that a machine-mode write reaches. -/
def machineWritable : UInt64 :=
  sie ||| mie ||| spie ||| mpie ||| spp ||| mpp ||| mprv ||| sum ||| mxr ||| tvm ||| tw ||| tsr

/-- The bits of the status word that the supervisor's view writes. -/
def supervisorWritable : UInt64 :=
  sie ||| spie ||| spp ||| sum ||| mxr

/-- The bits of the status word that the supervisor's view shows. -/
def supervisorReadable : UInt64 :=
  supervisorWritable ||| uxl

end Status

/-- The interrupts of a hart: three kinds for each of two destinations. -/
inductive Interrupt where
  | supervisorSoftware
  | machineSoftware
  | supervisorTimer
  | machineTimer
  | supervisorExternal
  | machineExternal
  deriving DecidableEq, Repr

namespace Interrupt

def cause : Interrupt → UInt64
  | supervisorSoftware => 1
  | machineSoftware => 3
  | supervisorTimer => 5
  | machineTimer => 7
  | supervisorExternal => 9
  | machineExternal => 11

def ofCause? (cause : UInt64) : Option Interrupt :=
  match cause.toNat with
  | 1 => some supervisorSoftware
  | 3 => some machineSoftware
  | 5 => some supervisorTimer
  | 7 => some machineTimer
  | 9 => some supervisorExternal
  | 11 => some machineExternal
  | _ => none

def bit (i : Interrupt) : UInt64 :=
  1 <<< i.cause

def supervisorBits : UInt64 :=
  supervisorSoftware.bit ||| supervisorTimer.bit ||| supervisorExternal.bit

def allBits : UInt64 :=
  supervisorBits ||| machineSoftware.bit ||| machineTimer.bit ||| machineExternal.bit

/-- All interrupts, the most urgent first. -/
def byPriority : List Interrupt :=
  [machineExternal, machineSoftware, machineTimer, supervisorExternal, supervisorSoftware,
    supervisorTimer]

end Interrupt

inductive PagingMode where
  | bare
  | sv32
  | sv39
  | sv48
  deriving DecidableEq, Repr

/-- The control state of the hart. -/
structure CsrFile where
  xlen : Xlen
  privilege : Privilege
  mstatus : UInt64
  mtvec : UInt64
  mepc : UInt64
  mcause : UInt64
  mtval : UInt64
  mie : UInt64
  mip : UInt64
  medeleg : UInt64
  mideleg : UInt64
  mscratch : UInt64
  mcounteren : UInt64
  mcountinhibit : UInt64
  stvec : UInt64
  sepc : UInt64
  scause : UInt64
  stval : UInt64
  sscratch : UInt64
  satp : UInt64
  scounteren : UInt64
  cycle : UInt64
  instret : UInt64
  time : UInt64
  /-- Physical memory protection settings, kept but not enforced. -/
  pmpcfg : Vector UInt64 16
  /-- Physical memory protection addresses, kept but not enforced. -/
  pmpaddr : Vector UInt64 64

namespace CsrFile

/-- The control state after reset: machine mode, and 64-bit modes below it on a 64-bit hart. -/
def reset (xlen : Xlen) : CsrFile where
  xlen := xlen
  privilege := .machine
  mstatus := match xlen with
    | .rv32 => 0
    | .rv64 => 0xa00000000
  mtvec := 0
  mepc := 0
  mcause := 0
  mtval := 0
  mie := 0
  mip := 0
  medeleg := 0
  mideleg := 0
  mscratch := 0
  mcounteren := 0
  mcountinhibit := 0
  stvec := 0
  sepc := 0
  scause := 0
  stval := 0
  sscratch := 0
  satp := 0
  scounteren := 0
  cycle := 0
  instret := 0
  time := 0
  pmpcfg := Vector.replicate 16 0
  pmpaddr := Vector.replicate 64 0

def misa (c : CsrFile) : UInt64 :=
  match c.xlen with
  | .rv32 => 0x40141105
  | .rv64 => 0x8000000000141105

def statusBit (c : CsrFile) (mask : UInt64) : Bool :=
  c.mstatus &&& mask != 0

def setStatusBit (c : CsrFile) (mask : UInt64) (on : Bool) : CsrFile :=
  { c with mstatus := if on then c.mstatus ||| mask else c.mstatus &&& ~~~mask }

/-- The mode that the last machine trap came from; the reserved code counts as user mode. -/
def mpp (c : CsrFile) : Privilege :=
  (Privilege.ofCode? ((c.mstatus >>> 11) &&& 3)).getD .user

def setMpp (c : CsrFile) (mode : Privilege) : CsrFile :=
  { c with mstatus := (c.mstatus &&& ~~~Status.mpp) ||| (mode.code <<< 11) }

def spp (c : CsrFile) : Privilege :=
  if c.statusBit Status.spp then .supervisor else .user

def setSpp (c : CsrFile) (mode : Privilege) : CsrFile :=
  c.setStatusBit Status.spp (mode == .supervisor)

def effectivePrivilege (c : CsrFile) (kind : AccessKind) : Privilege :=
  if kind ≠ .fetch ∧ c.statusBit Status.mprv then c.mpp else c.privilege

def pagingMode (c : CsrFile) : PagingMode :=
  match c.xlen with
  | .rv32 => if (c.satp >>> 31) &&& 1 = 1 then .sv32 else .bare
  | .rv64 =>
    if c.satp >>> 60 = 8 then .sv39
    else if c.satp >>> 60 = 9 then .sv48
    else .bare

def rootPage (c : CsrFile) : UInt64 :=
  match c.xlen with
  | .rv32 => c.satp &&& 0x3fffff
  | .rv64 => c.satp &&& 0xfffffffffff

/-- Whether an exception is handled in supervisor mode; machine mode keeps its own. -/
def delegatesException (c : CsrFile) (cause : UInt64) : Bool :=
  c.privilege != .machine && (c.medeleg >>> cause) &&& 1 != 0

def delegatesInterrupt (c : CsrFile) (cause : UInt64) : Bool :=
  c.privilege != .machine && (c.mideleg >>> cause) &&& 1 != 0

def setPending (c : CsrFile) (bits : UInt64) (on : Bool) : CsrFile :=
  { c with mip := if on then c.mip ||| bits else c.mip &&& ~~~bits }

/-- The interrupts among which the hart chooses: those of machine mode if it can take one, else
those delegated to supervisor mode if it can take one. -/
def deliverable (c : CsrFile) : UInt64 :=
  let pending := c.mip &&& c.mie
  let toMachine := pending &&& ~~~c.mideleg
  let toSupervisor := pending &&& c.mideleg
  let machineOpen := c.privilege != .machine || c.statusBit Status.mie
  let supervisorOpen :=
    c.privilege == .user || (c.privilege == .supervisor && c.statusBit Status.sie)
  if machineOpen && toMachine != 0 then toMachine
  else if supervisorOpen && toSupervisor != 0 then toSupervisor
  else 0

/-- The interrupt that the hart takes next, if any: the most urgent one it can take. -/
def pendingInterrupt? (c : CsrFile) : Option Interrupt :=
  Interrupt.byPriority.find? fun i => c.deliverable &&& i.bit != 0

end CsrFile

end RiscvBoard
