import RiscvBoard.Csr.Rules
import RiscvBoard.Isa.Arithmetic
import RiscvBoard.Machine.Memory

/-!
Execution of one decoded instruction. Each group of instructions has a function of its own; an
instruction that traps leaves registers and program counter as they were.
-/

set_option autoImplicit false

namespace RiscvBoard.Machine

def raise {α : Type} (pc : UInt64) (e : Exception) : Exec α :=
  throw (.ofException e pc)

def writeReg (r : Reg) (value : UInt64) : Exec Unit :=
  modify fun m => m.setReg r value

def readReg (r : Reg) : Exec UInt64 :=
  return (← get).hart.read r

def dataAddr (rs1 : Reg) (off : BitVec 12) : Exec UInt64 :=
  return (← readReg rs1) + Instr.widen off

/-- The address of an atomic access, virtual and physical. It must be aligned, which is checked
before it is translated. -/
def atomicAddr (pc : UInt64) (rs1 : Reg) (width : AtomicWidth) (kind : AccessKind) :
    Exec (UInt64 × UInt64) := do
  let m ← get
  let vaddr := m.xlen.truncate (m.hart.read rs1)
  if vaddr % width.width.bytes.toUInt64 ≠ 0 then raise pc (.misaligned kind vaddr)
  else
    let paddr ← (translate vaddr kind).at pc
    return (vaddr, paddr)

/-- Takes the reservation, and tells whether it was held on an address. -/
def takeReservation (paddr : UInt64) : Exec Bool :=
  modifyGet fun m => (m.reservation == some paddr, { m with reservation := none })

/-- Executes the instructions that compute a register from registers, constants and the program
counter; answers with nothing for the others. -/
def compute? (h : Hart) : Instr → Option (Reg × UInt64)
  | .regReg op rd rs1 rs2 => some (rd, op.eval h.xlen (h.read rs1) (h.read rs2))
  | .regRegWord op rd rs1 rs2 => some (rd, op.eval (h.read rs1) (h.read rs2))
  | .regImm op rd rs1 imm => some (rd, op.eval (h.read rs1) (Instr.widen imm))
  | .addiw rd rs1 imm => some (rd, signExtendWord (h.read rs1 + Instr.widen imm))
  | .shiftImm op rd rs1 shamt =>
    some (rd, op.eval h.xlen (h.read rs1) (UInt64.ofNat shamt.toNat))
  | .shiftImmWord op rd rs1 shamt => some (rd, op.evalWord (h.read rs1) (UInt32.ofNat shamt.toNat))
  | .lui rd imm => some (rd, Instr.widen (Instr.upperImmediate imm))
  | .auipc rd imm => some (rd, h.pc + Instr.widen (Instr.upperImmediate imm))
  | _ => none

/-- The program counter to which a branch or jump goes, with the register that keeps the way back;
nothing for the others. -/
def jump? (h : Hart) (next : UInt64) : Instr → Option (UInt64 × Reg)
  | .branch op rs1 rs2 off =>
    if op.holds (h.read rs1) (h.read rs2) then
      some (h.pc + Instr.widen (Instr.byteOffset off), 0)
    else some (next, 0)
  | .jal rd off => some (h.pc + Instr.widen (Instr.byteOffset off), rd)
  | .jalr rd rs1 off => some ((h.read rs1 + Instr.widen off) &&& ~~~1, rd)
  | _ => none

/-- A refused control register access makes the instruction illegal. -/
def ofCsrResult {α : Type} (illegal : Trap) : Except CsrError α → Exec α
  | .ok a => return a
  | .error _ => throw illegal

def readCsr (illegal : Trap) (number : UInt16) : Exec UInt64 := do
  ofCsrResult illegal ((← get).hart.csrs.read number)

/-- Changes a control register. The page tables are found through their root register, so cached
pages are forgotten with a write to it. -/
def updateCsr (illegal : Trap) (number : UInt16)
    (change : CsrFile → Except CsrError CsrFile) : Exec Unit := do
  let c ← ofCsrResult illegal (change (← get).hart.csrs)
  modify fun m => m.setCsrs c
  if number = Csr.satp.number then
    modify fun m => { m with mmu := m.mmu.flush }

/-- Executes a control register instruction. Register 0 as destination skips the read of a plain
write, and register 0 or the constant 0 as operand skips the write of the other forms. -/
def executeCsr (illegal : Trap) (op : CsrOp) (rd : Reg) (number : UInt16) (operand : CsrOperand) :
    Exec Unit := do
  let (value, writes) ←
    match operand with
    | .reg rs1 => pure ((← readReg rs1), rs1 != 0)
    | .imm value => pure (UInt64.ofNat value.toNat, value != 0)
  match op with
  | .write =>
    if rd = 0 then updateCsr illegal number fun c => c.write number value
    else
      let old ← readCsr illegal number
      updateCsr illegal number fun c => c.write number value
      writeReg rd old
  | .set =>
    let old ← readCsr illegal number
    if writes then updateCsr illegal number fun c => c.setBits number value
    writeReg rd old
  | .clear =>
    let old ← readCsr illegal number
    if writes then updateCsr illegal number fun c => c.clearBits number value
    writeReg rd old

def executeLr (pc : UInt64) (width : AtomicWidth) (rd rs1 : Reg) : Exec Unit := do
  let (vaddr, paddr) ← atomicAddr pc rs1 width .load
  let value ← (loadPhys paddr vaddr width.width .load).at pc
  modify fun m => { m with reservation := some paddr }
  writeReg rd (width.extend value)

/-- Executes a store-conditional: it stores only where the reservation is held, and uses it up. -/
def executeSc (pc : UInt64) (width : AtomicWidth) (rd rs1 rs2 : Reg) : Exec Unit := do
  let (vaddr, paddr) ← atomicAddr pc rs1 width .store
  let held ← takeReservation paddr
  if held then
    let value ← readReg rs2
    (storePhys paddr vaddr width.width value).at pc
  writeReg rd (flag !held)

def executeAmo (pc : UInt64) (op : AmoOp) (width : AtomicWidth) (rd rs1 rs2 : Reg) :
    Exec Unit := do
  let (vaddr, paddr) ← atomicAddr pc rs1 width .store
  let loaded ← (loadPhys paddr vaddr width.width .store).at pc
  let old := width.extend loaded
  let src ← readReg rs2
  (storePhys paddr vaddr width.width (op.eval width old src)).at pc
  writeReg rd old

/-- Whether an instruction of supervisor mode is refused: always in user mode, and in supervisor
mode if machine mode traps it. -/
def refusesSupervisor (c : CsrFile) (trapped : UInt64) : Bool :=
  c.privilege == .user || (c.privilege == .supervisor && c.statusBit trapped)

/-- Executes an instruction of `len` bytes at the current program counter. `raw` is the trap value
if the instruction turns out to be illegal in the current mode. -/
def execute (i : Instr) (raw : UInt32) (len : UInt64) : Exec Unit := do
  let h := (← get).hart
  let pc := h.pc
  let next := pc + len
  let illegal := Trap.ofException (.illegalInstruction raw) pc
  let goOn : Exec Unit := modify fun m => m.setPc next
  match compute? h i with
  | some (rd, value) =>
    writeReg rd value
    goOn
  | none =>
    match jump? h next i with
    | some (target, link) =>
      writeReg link next
      modify fun m => m.setPc target
    | none =>
      match i with
      | .load op rd rs1 off =>
        let addr ← dataAddr rs1 off
        let value ← (load addr op.width).at pc
        writeReg rd (op.extend value)
        goOn
      | .store width rs1 rs2 off =>
        let addr ← dataAddr rs1 off
        let value ← readReg rs2
        (store addr width value).at pc
        goOn
      | .lr width rd rs1 =>
        executeLr pc width rd rs1
        goOn
      | .sc width rd rs1 rs2 =>
        executeSc pc width rd rs1 rs2
        goOn
      | .amo op width rd rs1 rs2 =>
        executeAmo pc op width rd rs1 rs2
        goOn
      | .csr op rd number operand =>
        executeCsr illegal op rd ⟨number.setWidth 16⟩ operand
        goOn
      | .ecall => raise pc (.environmentCall h.csrs.privilege)
      | .ebreak => raise pc .breakpoint
      | .mret =>
        if h.csrs.privilege ≠ .machine then throw illegal
        modify fun m => { m with hart := m.hart.machineReturn }
      | .sret =>
        if refusesSupervisor h.csrs Status.tsr then throw illegal
        modify fun m => { m with hart := m.hart.supervisorReturn }
      | .wfi =>
        if refusesSupervisor h.csrs Status.tw then throw illegal
        goOn
      | .sfenceVma .. =>
        if refusesSupervisor h.csrs Status.tvm then throw illegal
        modify fun m => { m with mmu := m.mmu.flush }
        goOn
      | _ => goOn

end RiscvBoard.Machine
