import RiscvBoard.Csr.File
import RiscvBoard.Csr.Number
import RiscvBoard.Hex

/-!
Reading and writing control registers by number: who may, what a read shows, and which bits a write
keeps.
-/

set_option autoImplicit false

namespace RiscvBoard

inductive CsrError where
  | unsupportedRead (number : UInt16)
  | unsupportedWrite (number : UInt16)
  | privilegeViolation (number : UInt16)
  | readOnly (number : UInt16)
  | counterDisabled (number : UInt16)
  deriving DecidableEq, Repr

def CsrError.message : CsrError → String
  | unsupportedRead n => "unsupported CSR read: " ++ Hex.textPadded 3 n.toNat
  | unsupportedWrite n => "unsupported CSR write: " ++ Hex.textPadded 3 n.toNat
  | privilegeViolation n => "privilege violation accessing CSR: " ++ Hex.textPadded 3 n.toNat
  | readOnly n => "write to read-only CSR: " ++ Hex.textPadded 3 n.toNat
  | counterDisabled n => "counter CSR " ++ Hex.textPadded 3 n.toNat ++ " not enabled for this mode"

namespace Csr

/-- The lowest mode that may access a register number; one of the four codes belongs to no mode. -/
def requiredPrivilege? (n : UInt16) : Option Privilege :=
  Privilege.ofCode? ((n >>> 8) &&& 3).toUInt64

def isReadOnly (n : UInt16) : Bool :=
  n >>> 10 == 3

def isUpperHalf : Csr → Bool
  | mstatush | mcycleh | minstreth | mhpmcounterh _ => true
  | cycleh | timeh | instreth | hpmcounterh _ => true
  | _ => false

def isUserCounter : Csr → Bool
  | cycle | time | instret | hpmcounter _ => true
  | cycleh | timeh | instreth | hpmcounterh _ => true
  | _ => false

end Csr

/-- The legal form of a trap vector: the reserved modes fall back to the direct one. -/
def legalTrapVector (value : UInt64) : UInt64 :=
  if (value &&& 3) ≥ 2 then value &&& ~~~3 else value

namespace CsrFile

def checkPrivilege (c : CsrFile) (n : UInt16) : Except CsrError Unit :=
  match Csr.requiredPrivilege? n with
  | none => .error (.unsupportedRead n)
  | some required =>
    if c.privilege < required then .error (.privilegeViolation n)
    else if n = Csr.satp.number ∧ c.privilege = .supervisor ∧ c.statusBit Status.tvm then
      .error (.privilegeViolation n)
    else .ok ()

/-- Whether the current mode sees a counter: machine mode always, supervisor mode if machine mode
allows it, user mode if both do. -/
def counterEnabled (c : CsrFile) (n : UInt16) : Bool :=
  let bit := (n &&& 0x1f).toUInt64
  match c.privilege with
  | .machine => true
  | .supervisor => (c.mcounteren >>> bit) &&& 1 != 0
  | .user => (c.mcounteren >>> bit) &&& 1 != 0 && (c.scounteren >>> bit) &&& 1 != 0

def get (c : CsrFile) : Csr → UInt64
  | .sstatus => c.mstatus &&& Status.supervisorReadable
  | .sie => c.mie &&& c.mideleg &&& Interrupt.supervisorBits
  | .stvec => c.stvec
  | .scounteren => c.scounteren
  | .sscratch => c.sscratch
  | .sepc => c.sepc
  | .scause => c.scause
  | .stval => c.stval
  | .sip => c.mip &&& c.mideleg &&& Interrupt.supervisorBits
  | .satp => c.satp
  | .mstatus => c.mstatus
  | .misa => c.misa
  | .medeleg => c.medeleg
  | .mideleg => c.mideleg
  | .mie => c.mie
  | .mtvec => c.mtvec
  | .mcounteren => c.mcounteren
  | .mcountinhibit => c.mcountinhibit
  | .mscratch => c.mscratch
  | .mepc => c.mepc
  | .mcause => c.mcause
  | .mtval => c.mtval
  | .mip => c.mip
  | .pmpcfg i => c.pmpcfg[i]
  | .pmpaddr i => c.pmpaddr[i]
  | .mcycle | .cycle => c.cycle
  | .minstret | .instret => c.instret
  | .time => c.time
  | .mcycleh | .cycleh => c.cycle >>> 32
  | .minstreth | .instreth => c.instret >>> 32
  | .timeh => c.time >>> 32
  | .senvcfg | .menvcfg | .mstatush | .mhpmevent _ => 0
  | .mhpmcounter _ | .mhpmcounterh _ | .hpmcounter _ | .hpmcounterh _ => 0
  | .mvendorid | .marchid | .mimpid | .mhartid | .mconfigptr => 0

def read (c : CsrFile) (n : UInt16) : Except CsrError UInt64 := do
  c.checkPrivilege n
  match Csr.ofNumber? n with
  | none => throw (.unsupportedRead n)
  | some csr =>
    if csr.isUpperHalf ∧ c.xlen = .rv64 then throw (.unsupportedRead n)
    else if csr.isUserCounter ∧ !c.counterEnabled n then throw (.counterDisabled n)
    else return c.get csr

/-- Replaces the bits of `old` under `mask` by those of `value`. -/
def merge (mask old value : UInt64) : UInt64 :=
  (old &&& ~~~mask) ||| (value &&& mask)

def replaceLow (xlen : Xlen) (old value : UInt64) : UInt64 :=
  match xlen with
  | .rv32 => (old &&& 0xffffffff00000000) ||| value
  | .rv64 => value

def replaceHigh (old value : UInt64) : UInt64 :=
  (old &&& (0xffffffff : UInt64)) ||| (value <<< 32)

/-- The status word after a machine-mode write; the reserved previous mode keeps the old one. -/
def legalStatus (old value : UInt64) : UInt64 :=
  let next := merge Status.machineWritable old value
  if (next &&& Status.mpp) >>> 11 = 2 then merge Status.mpp next old else next

/-- Whether the page table root takes a value: on a 64-bit hart only the known modes. -/
def supportsRoot (xlen : Xlen) (value : UInt64) : Bool :=
  match xlen with
  | .rv32 => true
  | .rv64 => value >>> 60 == 0 || value >>> 60 == 8 || value >>> 60 == 9

def set (c : CsrFile) (value : UInt64) : Csr → CsrFile
  | .sstatus => { c with mstatus := merge Status.supervisorWritable c.mstatus value }
  | .sie => { c with mie := merge (c.mideleg &&& Interrupt.supervisorBits) c.mie value }
  | .stvec => { c with stvec := legalTrapVector value }
  | .scounteren => { c with scounteren := value &&& 0xffffffff }
  | .sscratch => { c with sscratch := value }
  | .sepc => { c with sepc := value &&& ~~~1 }
  | .scause => { c with scause := value }
  | .stval => { c with stval := value }
  | .sip => { c with mip := merge (Interrupt.supervisorSoftware.bit &&& c.mideleg) c.mip value }
  | .satp => if supportsRoot c.xlen value then { c with satp := value } else c
  | .mstatus => { c with mstatus := legalStatus c.mstatus value }
  | .medeleg => { c with medeleg := value &&& 0xb3ff }
  | .mideleg => { c with mideleg := value &&& Interrupt.supervisorBits }
  | .mie => { c with mie := value &&& Interrupt.allBits }
  | .mtvec => { c with mtvec := legalTrapVector value }
  | .mcounteren => { c with mcounteren := value &&& 0xffffffff }
  | .mcountinhibit => { c with mcountinhibit := value &&& 0xfffffffd }
  | .mscratch => { c with mscratch := value }
  | .mepc => { c with mepc := value &&& ~~~1 }
  | .mcause => { c with mcause := value }
  | .mtval => { c with mtval := value }
  | .mip => { c with mip := merge Interrupt.supervisorBits c.mip value }
  | .pmpcfg i => { c with pmpcfg := c.pmpcfg.set i value }
  | .pmpaddr i => { c with pmpaddr := c.pmpaddr.set i value }
  | .mcycle => { c with cycle := replaceLow c.xlen c.cycle value }
  | .minstret => { c with instret := replaceLow c.xlen c.instret value }
  | .mcycleh => { c with cycle := replaceHigh c.cycle value }
  | .minstreth => { c with instret := replaceHigh c.instret value }
  | _ => c

def write (c : CsrFile) (n : UInt16) (value : UInt64) : Except CsrError CsrFile := do
  c.checkPrivilege n
  if Csr.isReadOnly n then throw (.readOnly n)
  match Csr.ofNumber? n with
  | none => throw (.unsupportedWrite n)
  | some csr =>
    if csr.isUpperHalf ∧ c.xlen = .rv64 then throw (.unsupportedRead n)
    else return c.set (c.xlen.truncate value) csr

def setBits (c : CsrFile) (n : UInt16) (mask : UInt64) : Except CsrError CsrFile := do
  c.write n ((← c.read n) ||| mask)

def clearBits (c : CsrFile) (n : UInt16) (mask : UInt64) : Except CsrError CsrFile := do
  c.write n ((← c.read n) &&& ~~~mask)

end CsrFile

end RiscvBoard
