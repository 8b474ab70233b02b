import RiscvBoard.Hex
import RiscvBoard.Isa.Instr

/-!
Decoding of 32-bit instruction words. The opcode picks the format; small tables keyed by the
function fields pick the operation; and forms that need 64-bit registers are refused last.
-/

set_option autoImplicit false

namespace RiscvBoard

inductive DecodeError where
  | invalidOpcode (inst : UInt32)
  | invalidFunction (inst : UInt32)
  | needsRv64 (inst : UInt32)
  deriving DecidableEq, Repr

namespace DecodeError

def inst : DecodeError → UInt32
  | invalidOpcode inst => inst
  | invalidFunction inst => inst
  | needsRv64 inst => inst

def message : DecodeError → String
  | invalidOpcode inst => "invalid opcode: " ++ Hex.textPadded 8 inst.toNat
  | invalidFunction inst => "invalid function: " ++ Hex.textPadded 8 inst.toNat
  | needsRv64 inst => "instruction requires RV64: " ++ Hex.textPadded 8 inst.toNat

end DecodeError

def RegOp.ofFunct? (funct3 : BitVec 3) (funct7 : BitVec 7) : Option RegOp :=
  match funct7.toNat, funct3.toNat with
  | 0x00, 0 => some .add
  | 0x20, 0 => some .sub
  | 0x00, 1 => some .sll
  | 0x00, 2 => some .slt
  | 0x00, 3 => some .sltu
  | 0x00, 4 => some .xor
  | 0x00, 5 => some .srl
  | 0x20, 5 => some .sra
  | 0x00, 6 => some .or
  | 0x00, 7 => some .and
  | 0x01, 0 => some .mul
  | 0x01, 1 => some .mulh
  | 0x01, 2 => some .mulhsu
  | 0x01, 3 => some .mulhu
  | 0x01, 4 => some .div
  | 0x01, 5 => some .divu
  | 0x01, 6 => some .rem
  | 0x01, 7 => some .remu
  | _, _ => none

def RegWordOp.ofFunct? (funct3 : BitVec 3) (funct7 : BitVec 7) : Option RegWordOp :=
  match funct7.toNat, funct3.toNat with
  | 0x00, 0 => some .add
  | 0x20, 0 => some .sub
  | 0x00, 1 => some .sll
  | 0x00, 5 => some .srl
  | 0x20, 5 => some .sra
  | 0x01, 0 => some .mul
  | 0x01, 4 => some .div
  | 0x01, 5 => some .divu
  | 0x01, 6 => some .rem
  | 0x01, 7 => some .remu
  | _, _ => none

/-- The operation on a register and an immediate with the given function field; the two missing
codes belong to shifts. -/
def ImmOp.ofFunct? (funct3 : BitVec 3) : Option ImmOp :=
  match funct3.toNat with
  | 0 => some .add
  | 2 => some .slt
  | 3 => some .sltu
  | 4 => some .xor
  | 6 => some .or
  | 7 => some .and
  | _ => none

def ShiftOp.ofFunct? (funct3 : BitVec 3) (funct6 : BitVec 6) : Option ShiftOp :=
  match funct3.toNat, funct6.toNat with
  | 1, 0x00 => some .left
  | 5, 0x00 => some .rightLogical
  | 5, 0x10 => some .rightArithmetic
  | _, _ => none

def LoadOp.ofFunct? (funct3 : BitVec 3) : Option LoadOp :=
  match funct3.toNat with
  | 0 => some .byte
  | 1 => some .half
  | 2 => some .word
  | 3 => some .double
  | 4 => some .byteUnsigned
  | 5 => some .halfUnsigned
  | 6 => some .wordUnsigned
  | _ => none

def Width.ofStoreFunct? (funct3 : BitVec 3) : Option Width :=
  match funct3.toNat with
  | 0 => some .byte
  | 1 => some .half
  | 2 => some .word
  | 3 => some .double
  | _ => none

def BranchOp.ofFunct? (funct3 : BitVec 3) : Option BranchOp :=
  match funct3.toNat with
  | 0 => some .eq
  | 1 => some .ne
  | 4 => some .lt
  | 5 => some .ge
  | 6 => some .ltu
  | 7 => some .geu
  | _ => none

def AmoOp.ofFunct? (funct5 : BitVec 5) : Option AmoOp :=
  match funct5.toNat with
  | 0x01 => some .swap
  | 0x00 => some .add
  | 0x04 => some .xor
  | 0x0c => some .and
  | 0x08 => some .or
  | 0x10 => some .min
  | 0x14 => some .max
  | 0x18 => some .minu
  | 0x1c => some .maxu
  | _ => none

def AtomicWidth.ofFunct? (funct3 : BitVec 3) : Option AtomicWidth :=
  match funct3.toNat with
  | 2 => some .word
  | 3 => some .double
  | _ => none

namespace InstrWord

def opcode (w : BitVec 32) : BitVec 7 := w.extractLsb' 0 7

def rd (w : BitVec 32) : Reg := w.extractLsb' 7 5

def funct3 (w : BitVec 32) : BitVec 3 := w.extractLsb' 12 3

def rs1 (w : BitVec 32) : Reg := w.extractLsb' 15 5

def rs2 (w : BitVec 32) : Reg := w.extractLsb' 20 5

def funct7 (w : BitVec 32) : BitVec 7 := w.extractLsb' 25 7

def funct6 (w : BitVec 32) : BitVec 6 := w.extractLsb' 26 6

def funct5 (w : BitVec 32) : BitVec 5 := w.extractLsb' 27 5

def shamt (w : BitVec 32) : BitVec 6 := w.extractLsb' 20 6

def immI (w : BitVec 32) : BitVec 12 := w.extractLsb' 20 12

def immS (w : BitVec 32) : BitVec 12 := w.extractLsb' 25 7 ++ w.extractLsb' 7 5

/-- The branch offset in halfwords: bits 12, 11, 10 to 5 and 4 to 1 of the byte offset. -/
def immB (w : BitVec 32) : BitVec 12 :=
  w.extractLsb' 31 1 ++ w.extractLsb' 7 1 ++ w.extractLsb' 25 6 ++ w.extractLsb' 8 4

def immU (w : BitVec 32) : BitVec 20 := w.extractLsb' 12 20

/-- The jump offset in halfwords: bits 20, 19 to 12, 11 and 10 to 1 of the byte offset. -/
def immJ (w : BitVec 32) : BitVec 20 :=
  w.extractLsb' 31 1 ++ w.extractLsb' 12 8 ++ w.extractLsb' 20 1 ++ w.extractLsb' 21 10

end InstrWord

open InstrWord

/-- The control register operation with the given function field, and whether its operand is the
constant in the first source field. -/
def CsrOp.ofFunct? (funct3 : BitVec 3) : Option (CsrOp × Bool) :=
  match funct3.toNat with
  | 1 => some (.write, false)
  | 2 => some (.set, false)
  | 3 => some (.clear, false)
  | 5 => some (.write, true)
  | 6 => some (.set, true)
  | 7 => some (.clear, true)
  | _ => none

/-- Instructions without a register result under the system opcode. -/
def decodePrivileged (w : BitVec 32) : Option Instr :=
  if rd w ≠ 0 then none
  else if funct7 w = 0x09 then some (.sfenceVma (rs1 w) (rs2 w))
  else if rs1 w ≠ 0 then none
  else
    match (immI w).toNat with
    | 0x000 => some .ecall
    | 0x001 => some .ebreak
    | 0x102 => some .sret
    | 0x105 => some .wfi
    | 0x302 => some .mret
    | _ => none

def decodeAtomic (w : BitVec 32) (width : AtomicWidth) : Option Instr :=
  match (funct5 w).toNat with
  | 0x02 => if rs2 w = 0 then some (.lr width (rd w) (rs1 w)) else none
  | 0x03 => some (.sc width (rd w) (rs1 w) (rs2 w))
  | _ => (AmoOp.ofFunct? (funct5 w)).map fun op => .amo op width (rd w) (rs1 w) (rs2 w)

def Instr.decode (xlen : Xlen) (w : BitVec 32) : Except DecodeError Instr :=
  let inst : UInt32 := ⟨w⟩
  let known (found : Option Instr) : Except DecodeError Instr :=
    match found with
    | some i => .ok i
    | none => .error (.invalidFunction inst)
  let wide (found : Option Instr) : Except DecodeError Instr :=
    match found with
    | some i => if xlen = .rv64 then .ok i else .error (.needsRv64 inst)
    | none => .error (.invalidFunction inst)
  match (opcode w).toNat with
  | 0x33 => known ((RegOp.ofFunct? (funct3 w) (funct7 w)).map fun op =>
      .regReg op (rd w) (rs1 w) (rs2 w))
  | 0x13 =>
    match ImmOp.ofFunct? (funct3 w) with
    | some op => .ok (.regImm op (rd w) (rs1 w) (immI w))
    | none =>
      if xlen = .rv32 ∧ (shamt w).msb then .error (.invalidFunction inst)
      else known ((ShiftOp.ofFunct? (funct3 w) (funct6 w)).map fun op =>
        .shiftImm op (rd w) (rs1 w) (shamt w))
  | 0x03 =>
    match LoadOp.ofFunct? (funct3 w) with
    | some op =>
      let i := .load op (rd w) (rs1 w) (immI w)
      if op = .double ∨ op = .wordUnsigned then wide (some i) else .ok i
    | none => .error (.invalidFunction inst)
  | 0x23 =>
    match Width.ofStoreFunct? (funct3 w) with
    | some width =>
      let i := .store width (rs1 w) (rs2 w) (immS w)
      if width = .double then wide (some i) else .ok i
    | none => .error (.invalidFunction inst)
  | 0x63 => known ((BranchOp.ofFunct? (funct3 w)).map fun op =>
      .branch op (rs1 w) (rs2 w) (immB w))
  | 0x37 => .ok (.lui (rd w) (immU w))
  | 0x17 => .ok (.auipc (rd w) (immU w))
  | 0x6f => .ok (.jal (rd w) (immJ w))
  | 0x67 => known (if funct3 w = 0 then some (.jalr (rd w) (rs1 w) (immI w)) else none)
  | 0x73 =>
    if funct3 w = 0 then known (decodePrivileged w)
    else known ((CsrOp.ofFunct? (funct3 w)).map fun (op, constant) =>
      .csr op (rd w) (immI w) (if constant then .imm (rs1 w) else .reg (rs1 w)))
  | 0x1b =>
    if funct3 w = 0 then wide (some (.addiw (rd w) (rs1 w) (immI w)))
    else if (shamt w).msb then .error (.invalidFunction inst)
    else wide ((ShiftOp.ofFunct? (funct3 w) (funct6 w)).map fun op =>
      .shiftImmWord op (rd w) (rs1 w) (rs2 w))
  | 0x3b => wide ((RegWordOp.ofFunct? (funct3 w) (funct7 w)).map fun op =>
      .regRegWord op (rd w) (rs1 w) (rs2 w))
  | 0x2f =>
    match AtomicWidth.ofFunct? (funct3 w) with
    | some .word => known (decodeAtomic w .word)
    | some .double =>
      if xlen = .rv64 then known (decodeAtomic w .double) else .error (.needsRv64 inst)
    | none => .error (.invalidFunction inst)
  | 0x0f =>
    match (funct3 w).toNat with
    | 0 => .ok .fence
    | 1 => .ok .fenceI
    | _ => .error (.invalidFunction inst)
  | _ => .error (.invalidOpcode inst)

end RiscvBoard
