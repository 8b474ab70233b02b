import RiscvBoard.Machine.Trap
import RiscvBoard.Ram

/-!
The hart: its registers, program counter and control state; and how it enters a trap handler and
returns from one.
-/

set_option autoImplicit false

namespace RiscvBoard

abbrev Registers := Vector UInt64 32

structure Hart where
  regs : Registers
  pc : UInt64
  csrs : CsrFile

structure TrapRoute where
  target : Privilege
  handler : UInt64
  deriving DecidableEq, Repr

namespace Hart

/-- The hart after reset: it starts at the beginning of guest memory in machine mode. -/
def reset (xlen : Xlen) : Hart :=
  ⟨Vector.replicate 32 0, Ram.base, .reset xlen⟩

def xlen (h : Hart) : Xlen :=
  h.csrs.xlen

/-- Reads the register with a given index; only the low five bits of the index count. -/
def readIndex (h : Hart) (index : UInt8) : UInt64 :=
  have inside : index.toNat % 32 < 32 := Nat.mod_lt _ (by decide)
  h.regs[index.toNat % 32]

/-- Writes the register with a given index, in canonical form; only the low five bits of the index
count. Writes to index 0 are dropped. -/
def writeIndex (h : Hart) (index : UInt8) (value : UInt64) : Hart :=
  if index = 0 then h
  else
    have inside : index.toNat % 32 < 32 := Nat.mod_lt _ (by decide)
    { h with regs := h.regs.set (index.toNat % 32) (h.xlen.canonical value) inside }

def read (h : Hart) (r : Reg) : UInt64 :=
  have inside : r.toNat < 32 := Reg.toNat_lt r
  h.regs[r.toNat]

def write (h : Hart) (r : Reg) (value : UInt64) : Hart :=
  if r = 0 then h
  else { h with regs := h.regs.set r.toNat (h.xlen.canonical value) (Reg.toNat_lt r) }

end Hart

def CsrFile.delegates (c : CsrFile) (t : Trap) : Bool :=
  if t.isInterrupt then c.delegatesInterrupt t.code else c.delegatesException t.code

/-- The handler that a trap vector names for a trap: interrupts may each have their own. -/
def trapHandler (vector : UInt64) (t : Trap) : UInt64 :=
  let base := vector &&& ~~~3
  if vector &&& 3 = 1 ∧ t.isInterrupt then base + 4 * t.code else base

def CsrFile.route (c : CsrFile) (t : Trap) : TrapRoute :=
  if c.delegates t then ⟨.supervisor, c.xlen.truncate (trapHandler c.stvec t)⟩
  else ⟨.machine, c.xlen.truncate (trapHandler c.mtvec t)⟩

def CsrFile.saveSupervisor (c : CsrFile) (t : Trap) : CsrFile :=
  let mode := c.privilege
  let enabled := c.statusBit Status.sie
  let c := { c with sepc := t.pc, scause := t.causeRegister c.xlen, stval := t.value }
  ((c.setStatusBit Status.spie enabled).setStatusBit Status.sie false).setSpp mode

def CsrFile.saveMachine (c : CsrFile) (t : Trap) : CsrFile :=
  let mode := c.privilege
  let enabled := c.statusBit Status.mie
  let c := { c with mepc := t.pc, mcause := t.causeRegister c.xlen, mtval := t.value }
  ((c.setStatusBit Status.mpie enabled).setStatusBit Status.mie false).setMpp mode

namespace Hart

/-- Takes a trap along a route: saves the state in the registers of the target mode and jumps to the
handler. -/
def enter (h : Hart) (t : Trap) (route : TrapRoute) : Hart :=
  let saved :=
    match route.target with
    | .supervisor => h.csrs.saveSupervisor t
    | _ => h.csrs.saveMachine t
  { h with csrs := { saved with privilege := route.target }, pc := route.handler }

def machineReturn (h : Hart) : Hart :=
  let c := h.csrs
  let mode := c.mpp
  let c := c.setStatusBit Status.mie (c.statusBit Status.mpie)
  let c := (c.setStatusBit Status.mpie true).setMpp .user
  let c := if mode = .machine then c else c.setStatusBit Status.mprv false
  { h with csrs := { c with privilege := mode }, pc := c.mepc }

def supervisorReturn (h : Hart) : Hart :=
  let c := h.csrs
  let mode := c.spp
  let c := c.setStatusBit Status.sie (c.statusBit Status.spie)
  let c := (c.setStatusBit Status.spie true).setSpp .user
  let c := c.setStatusBit Status.mprv false
  { h with csrs := { c with privilege := mode }, pc := c.sepc }

end Hart

end RiscvBoard
