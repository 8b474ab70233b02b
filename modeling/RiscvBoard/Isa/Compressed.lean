import RiscvBoard.Isa.Decode

/-!
Expansion of 16-bit instructions into the instructions they abbreviate. Floating-point forms and
reserved encodings have no expansion.
-/

set_option autoImplicit false

namespace RiscvBoard

namespace Compressed

def funct3 (h : BitVec 16) : BitVec 3 := h.extractLsb' 13 3

def rd (h : BitVec 16) : Reg := h.extractLsb' 7 5

def rs2 (h : BitVec 16) : Reg := h.extractLsb' 2 5

/-- A three-bit register field, which names one of the registers 8 to 15. -/
def shortReg (field : BitVec 3) : Reg := 0b01#2 ++ field

def rdShort (h : BitVec 16) : Reg := shortReg (h.extractLsb' 2 3)

def rs1Short (h : BitVec 16) : Reg := shortReg (h.extractLsb' 7 3)

/-- The six-bit field split between bit 12 and bits 6 to 2: an immediate or a shift amount. -/
def imm6 (h : BitVec 16) : BitVec 6 := h.extractLsb' 12 1 ++ h.extractLsb' 2 5

/-- The jump offset in halfwords, bits 11 to 1 of the byte offset. -/
def jumpOffset (h : BitVec 16) : BitVec 11 :=
  h.extractLsb' 12 1 ++ h.extractLsb' 8 1 ++ h.extractLsb' 9 2 ++ h.extractLsb' 6 1 ++
    h.extractLsb' 7 1 ++ h.extractLsb' 2 1 ++ h.extractLsb' 11 1 ++ h.extractLsb' 3 3

/-- The branch offset in halfwords, bits 8 to 1 of the byte offset. -/
def branchOffset (h : BitVec 16) : BitVec 8 :=
  h.extractLsb' 12 1 ++ h.extractLsb' 5 2 ++ h.extractLsb' 2 1 ++ h.extractLsb' 10 2 ++
    h.extractLsb' 3 2

def wordOffset (h : BitVec 16) : BitVec 7 :=
  h.extractLsb' 5 1 ++ h.extractLsb' 10 3 ++ h.extractLsb' 6 1 ++ 0#2

def doubleOffset (h : BitVec 16) : BitVec 8 :=
  h.extractLsb' 5 2 ++ h.extractLsb' 10 3 ++ 0#3

def stackSlot (h : BitVec 16) : BitVec 10 :=
  h.extractLsb' 7 4 ++ h.extractLsb' 11 2 ++ h.extractLsb' 5 1 ++ h.extractLsb' 6 1 ++ 0#2

def stackAdjust (h : BitVec 16) : BitVec 10 :=
  h.extractLsb' 12 1 ++ h.extractLsb' 3 2 ++ h.extractLsb' 5 1 ++ h.extractLsb' 2 1 ++
    h.extractLsb' 6 1 ++ 0#4

def stackWordLoad (h : BitVec 16) : BitVec 8 :=
  h.extractLsb' 2 2 ++ h.extractLsb' 12 1 ++ h.extractLsb' 4 3 ++ 0#2

def stackDoubleLoad (h : BitVec 16) : BitVec 9 :=
  h.extractLsb' 2 3 ++ h.extractLsb' 12 1 ++ h.extractLsb' 5 2 ++ 0#3

def stackWordStore (h : BitVec 16) : BitVec 8 :=
  h.extractLsb' 7 2 ++ h.extractLsb' 9 4 ++ 0#2

def stackDoubleStore (h : BitVec 16) : BitVec 9 :=
  h.extractLsb' 7 3 ++ h.extractLsb' 10 3 ++ 0#3

def shortArithmetic (xlen : Xlen) (h : BitVec 16) : Option Instr :=
  let rd := rs1Short h
  match (h.extractLsb' 10 2).toNat with
  | 0 =>
    if xlen = .rv32 ∧ (imm6 h).msb then none else some (.shiftImm .rightLogical rd rd (imm6 h))
  | 1 =>
    if xlen = .rv32 ∧ (imm6 h).msb then none else some (.shiftImm .rightArithmetic rd rd (imm6 h))
  | 2 => some (.regImm .and rd rd ((imm6 h).signExtend 12))
  | _ =>
    let rs2 := rdShort h
    match (h.extractLsb' 12 1).toNat, (h.extractLsb' 5 2).toNat with
    | 0, 0 => some (.regReg .sub rd rd rs2)
    | 0, 1 => some (.regReg .xor rd rd rs2)
    | 0, 2 => some (.regReg .or rd rd rs2)
    | 0, _ => some (.regReg .and rd rd rs2)
    | _, 0 => if xlen = .rv64 then some (.regRegWord .sub rd rd rs2) else none
    | _, 1 => if xlen = .rv64 then some (.regRegWord .add rd rd rs2) else none
    | _, _ => none

def jumpOrMove (h : BitVec 16) : Option Instr :=
  let rd := rd h
  let rs2 := rs2 h
  if (h.extractLsb' 12 1) = 0#1 then
    if rs2 = 0 then
      if rd = 0 then none else some (.jalr 0 rd 0)
    else some (.regReg .add rd 0 rs2)
  else
    if rs2 = 0 then
      if rd = 0 then some .ebreak else some (.jalr 1 rd 0)
    else some (.regReg .add rd rd rs2)

/-- The instruction that a halfword abbreviates, if it has one. -/
def expand? (xlen : Xlen) (h : BitVec 16) : Option Instr :=
  match (h.extractLsb' 0 2).toNat, (funct3 h).toNat with
  | 0, 0 =>
    if stackSlot h = 0 then none
    else some (.regImm .add (rdShort h) 2 ((stackSlot h).setWidth 12))
  | 0, 2 => some (.load .word (rdShort h) (rs1Short h) ((wordOffset h).setWidth 12))
  | 0, 3 =>
    if xlen = .rv64 then
      some (.load .double (rdShort h) (rs1Short h) ((doubleOffset h).setWidth 12))
    else none
  | 0, 6 => some (.store .word (rs1Short h) (rdShort h) ((wordOffset h).setWidth 12))
  | 0, 7 =>
    if xlen = .rv64 then
      some (.store .double (rs1Short h) (rdShort h) ((doubleOffset h).setWidth 12))
    else none
  | 1, 0 => some (.regImm .add (rd h) (rd h) ((imm6 h).signExtend 12))
  | 1, 1 =>
    if xlen = .rv64 then
      if rd h = 0 then none else some (.addiw (rd h) (rd h) ((imm6 h).signExtend 12))
    else some (.jal 1 ((jumpOffset h).signExtend 20))
  | 1, 2 => some (.regImm .add (rd h) 0 ((imm6 h).signExtend 12))
  | 1, 3 =>
    if rd h = 2 then
      if stackAdjust h = 0 then none
      else some (.regImm .add 2 2 ((stackAdjust h).signExtend 12))
    else if imm6 h = 0 then none
    else some (.lui (rd h) ((imm6 h).signExtend 20))
  | 1, 4 => shortArithmetic xlen h
  | 1, 5 => some (.jal 0 ((jumpOffset h).signExtend 20))
  | 1, 6 => some (.branch .eq (rs1Short h) 0 ((branchOffset h).signExtend 12))
  | 1, 7 => some (.branch .ne (rs1Short h) 0 ((branchOffset h).signExtend 12))
  | 2, 0 =>
    if xlen = .rv32 ∧ (imm6 h).msb then none
    else some (.shiftImm .left (rd h) (rd h) (imm6 h))
  | 2, 2 =>
    if rd h = 0 then none else some (.load .word (rd h) 2 ((stackWordLoad h).setWidth 12))
  | 2, 3 =>
    if xlen = .rv64 then
      if rd h = 0 then none else some (.load .double (rd h) 2 ((stackDoubleLoad h).setWidth 12))
    else none
  | 2, 4 => jumpOrMove h
  | 2, 6 => some (.store .word 2 (rs2 h) ((stackWordStore h).setWidth 12))
  | 2, 7 =>
    if xlen = .rv64 then some (.store .double 2 (rs2 h) ((stackDoubleStore h).setWidth 12))
    else none
  | _, _ => none

end Compressed

def Instr.expand (xlen : Xlen) (h : BitVec 16) : Except DecodeError Instr :=
  match Compressed.expand? xlen h with
  | some i => .ok i
  | none => .error (.invalidOpcode ⟨h.setWidth 32⟩)

end RiscvBoard
