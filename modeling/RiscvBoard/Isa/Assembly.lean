import RiscvBoard.Hex
import RiscvBoard.Csr.Number
import RiscvBoard.Isa.Instr

/-!
Instructions as assembly text, with the calling convention's register names. Offsets and immediates
are signed decimal numbers, upper immediates and unnamed control registers hexadecimal ones.
-/

set_option autoImplicit false

namespace RiscvBoard

def Reg.names : Vector String 32 :=
  #v["zero", "ra", "sp", "gp", "tp", "t0", "t1", "t2", "s0", "s1", "a0", "a1", "a2", "a3", "a4",
    "a5", "a6", "a7", "s2", "s3", "s4", "s5", "s6", "s7", "s8", "s9", "s10", "s11", "t3", "t4",
    "t5", "t6"]

def Reg.name (r : Reg) : String :=
  have inside : r.toNat < 32 := Reg.toNat_lt r
  Reg.names[r.toNat]

def RegOp.mnemonic : RegOp → String
  | add => "add"
  | sub => "sub"
  | sll => "sll"
  | slt => "slt"
  | sltu => "sltu"
  | xor => "xor"
  | srl => "srl"
  | sra => "sra"
  | or => "or"
  | and => "and"
  | mul => "mul"
  | mulh => "mulh"
  | mulhsu => "mulhsu"
  | mulhu => "mulhu"
  | div => "div"
  | divu => "divu"
  | rem => "rem"
  | remu => "remu"

def RegWordOp.mnemonic : RegWordOp → String
  | add => "addw"
  | sub => "subw"
  | sll => "sllw"
  | srl => "srlw"
  | sra => "sraw"
  | mul => "mulw"
  | div => "divw"
  | divu => "divuw"
  | rem => "remw"
  | remu => "remuw"

def ImmOp.mnemonic : ImmOp → String
  | add => "addi"
  | slt => "slti"
  | sltu => "sltiu"
  | xor => "xori"
  | or => "ori"
  | and => "andi"

def ShiftOp.mnemonic : ShiftOp → String
  | left => "slli"
  | rightLogical => "srli"
  | rightArithmetic => "srai"

def LoadOp.mnemonic : LoadOp → String
  | byte => "lb"
  | half => "lh"
  | word => "lw"
  | double => "ld"
  | byteUnsigned => "lbu"
  | halfUnsigned => "lhu"
  | wordUnsigned => "lwu"

def Width.storeMnemonic : Width → String
  | byte => "sb"
  | half => "sh"
  | word => "sw"
  | double => "sd"

def BranchOp.mnemonic : BranchOp → String
  | eq => "beq"
  | ne => "bne"
  | lt => "blt"
  | ge => "bge"
  | ltu => "bltu"
  | geu => "bgeu"

def AmoOp.mnemonic : AmoOp → String
  | swap => "amoswap"
  | add => "amoadd"
  | xor => "amoxor"
  | and => "amoand"
  | or => "amoor"
  | min => "amomin"
  | max => "amomax"
  | minu => "amominu"
  | maxu => "amomaxu"

def AtomicWidth.suffix : AtomicWidth → String
  | word => ".w"
  | double => ".d"

def CsrOp.mnemonic (op : CsrOp) (operand : CsrOperand) : String :=
  let stem :=
    match op with
    | write => "csrrw"
    | set => "csrrs"
    | clear => "csrrc"
  match operand with
  | .reg _ => stem
  | .imm _ => stem ++ "i"

namespace Instr

def line (mnemonic : String) (operands : List String) : String :=
  mnemonic ++ " " ++ ", ".intercalate operands

def signed {n : Nat} (field : BitVec n) : String :=
  toString field.toInt

def memoryOperand {n : Nat} (off : BitVec n) (base : Reg) : String :=
  signed off ++ "(" ++ base.name ++ ")"

def addressOperand (base : Reg) : String :=
  "(" ++ base.name ++ ")"

/-- The name of a control register, or its number if it has none. -/
def csrOperandName (number : BitVec 12) : String :=
  match Csr.ofNumber? ⟨number.setWidth 16⟩ with
  | some register => register.name?.getD (Hex.textPadded 3 number.toNat)
  | none => Hex.textPadded 3 number.toNat

def text : Instr → String
  | regReg op rd rs1 rs2 => line op.mnemonic [rd.name, rs1.name, rs2.name]
  | regRegWord op rd rs1 rs2 => line op.mnemonic [rd.name, rs1.name, rs2.name]
  | regImm op rd rs1 imm =>
    if op = .add ∧ rd = 0 ∧ rs1 = 0 ∧ imm = 0 then "nop"
    else line op.mnemonic [rd.name, rs1.name, signed imm]
  | addiw rd rs1 imm => line "addiw" [rd.name, rs1.name, signed imm]
  | shiftImm op rd rs1 shamt => line op.mnemonic [rd.name, rs1.name, toString shamt.toNat]
  | shiftImmWord op rd rs1 shamt =>
    line (op.mnemonic ++ "w") [rd.name, rs1.name, toString shamt.toNat]
  | load op rd rs1 off => line op.mnemonic [rd.name, memoryOperand off rs1]
  | store width rs1 rs2 off => line width.storeMnemonic [rs2.name, memoryOperand off rs1]
  | branch op rs1 rs2 off => line op.mnemonic [rs1.name, rs2.name, signed (byteOffset off)]
  | jal rd off => line "jal" [rd.name, signed (byteOffset off)]
  | jalr rd rs1 off =>
    if rd = 0 ∧ rs1 = 1 ∧ off = 0 then "ret" else line "jalr" [rd.name, memoryOperand off rs1]
  | lui rd imm => line "lui" [rd.name, Hex.text imm.toNat]
  | auipc rd imm => line "auipc" [rd.name, Hex.text imm.toNat]
  | lr width rd rs1 => line ("lr" ++ width.suffix) [rd.name, addressOperand rs1]
  | sc width rd rs1 rs2 => line ("sc" ++ width.suffix) [rd.name, rs2.name, addressOperand rs1]
  | amo op width rd rs1 rs2 =>
    line (op.mnemonic ++ width.suffix) [rd.name, rs2.name, addressOperand rs1]
  | csr op rd number operand =>
    let source :=
      match operand with
      | .reg rs1 => rs1.name
      | .imm value => toString value.toNat
    line (op.mnemonic operand) [rd.name, csrOperandName number, source]
  | sfenceVma rs1 rs2 => line "sfence.vma" [rs1.name, rs2.name]
  | ecall => "ecall"
  | ebreak => "ebreak"
  | mret => "mret"
  | sret => "sret"
  | wfi => "wfi"
  | fence => "fence"
  | fenceI => "fence.i"

end Instr

end RiscvBoard
