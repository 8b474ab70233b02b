import RiscvBoard.Isa.Assembly
import RiscvBoard.Machine.Step

/-!
What a debugger sees: registers, memory and instructions, read without any effect on the guest.
Memory is translated without updating page tables, and device reads take nothing from a device.
-/

set_option autoImplicit false

namespace RiscvBoard

inductive InspectError where
  | invalidRegister (index : Nat)
  deriving DecidableEq, Repr

def InspectError.message : InspectError → String
  | invalidRegister index => "no such register: x" ++ toString index

inductive ProbeError where
  | pageFault (addr : UInt64)
  | invalidAddress (addr : UInt64)
  deriving DecidableEq, Repr

def ProbeError.message : ProbeError → String
  | pageFault addr => "page fault at " ++ Hex.text addr.toNat
  | invalidAddress addr => "nothing backs " ++ Hex.text addr.toNat

namespace Machine

def inspectRegister (m : Machine) (index : Nat) : Except InspectError UInt64 :=
  if h : index < 32 then .ok (m.xlen.truncate m.hart.regs[index])
  else .error (.invalidRegister index)

def probe (m : Machine) (vaddr : UInt64) (kind : AccessKind) : Except ProbeError UInt64 :=
  match Mmu.probe m.bus.ram m.hart.csrs vaddr kind with
  | .ok paddr => .ok paddr
  | .error (.page ..) => .error (.pageFault vaddr)
  | .error _ => .error (.invalidAddress vaddr)

def peekByte (m : Machine) (vaddr : UInt64) (kind : AccessKind) : Except ProbeError UInt64 := do
  let paddr ← m.probe vaddr kind
  match m.bus.peek paddr .byte with
  | .ok byte => return byte
  | .error _ => throw (.invalidAddress vaddr)

/-- The little-endian number in `n` bytes of virtual memory from the `i`-th byte after an address
on. -/
def peekBytes (m : Machine) (vaddr : UInt64) (kind : AccessKind) (i : Nat) :
    Nat → Except ProbeError UInt64
  | 0 => return 0
  | n + 1 => do
    let byte ← m.peekByte (m.xlen.truncate (vaddr + i.toUInt64)) kind
    return byte ||| ((← m.peekBytes vaddr kind (i + 1) n) <<< 8)

/-- A value at a virtual address, read as one access if it lies in one page and one window, and byte
by byte otherwise. -/
def peek (m : Machine) (vaddr : UInt64) (w : Width) (kind : AccessKind) :
    Except ProbeError UInt64 := do
  let vaddr := m.xlen.truncate vaddr
  if (pageOffset vaddr).toNat + w.bytes ≤ pageSize then
    let paddr ← m.probe vaddr kind
    match m.bus.peek paddr w with
    | .ok value => return value
    | .error _ => m.peekBytes vaddr kind 0 w.bytes
  else m.peekBytes vaddr kind 0 w.bytes

def inspectMemory (m : Machine) (vaddr : UInt64) : Except ProbeError UInt64 :=
  m.peek vaddr .double .load

def inspectInstruction (m : Machine) (vaddr : UInt64) : Except ProbeError Fetched := do
  let low ← m.peek vaddr .half .fetch
  if low &&& 3 ≠ 3 then return ⟨low.toUInt32, true⟩
  let high ← m.peek (vaddr + 2) .half .fetch
  return ⟨(high.toUInt32 <<< 16) ||| low.toUInt32, false⟩

/-- The assembly text of the instruction at a virtual address, or a note in angle brackets. -/
def disassemble (m : Machine) (vaddr : UInt64) : String :=
  match m.inspectInstruction vaddr with
  | .error e => "<" ++ e.message ++ ">"
  | .ok fetched =>
    match fetched.decode m.xlen with
    | .ok i => i.text
    | .error _ =>
      "<illegal " ++ Hex.textPadded (if fetched.compressed then 4 else 8) fetched.raw.toNat ++ ">"

end Machine

end RiscvBoard
