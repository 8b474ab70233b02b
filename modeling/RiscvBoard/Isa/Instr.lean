import RiscvBoard.Access
import RiscvBoard.Xlen

/-!
Decoded instructions of the integer, multiplication, atomic and control register sets. Instructions
of one format share a constructor, and each field has exactly the bits that the format gives it, so
an immediate or a register number out of range cannot be written down.
-/

set_option autoImplicit false

namespace RiscvBoard

abbrev Reg := BitVec 5

theorem Reg.toNat_lt (r : Reg) : r.toNat < 32 :=
  r.isLt

inductive RegOp where
  | add | sub | sll | slt | sltu | xor | srl | sra | or | and
  | mul | mulh | mulhsu | mulhu | div | divu | rem | remu
  deriving DecidableEq, Repr

/-- Operations on the low words of two registers, for 64-bit registers only. -/
inductive RegWordOp where
  | add | sub | sll | srl | sra | mul | div | divu | rem | remu
  deriving DecidableEq, Repr

inductive ImmOp where
  | add | slt | sltu | xor | or | and
  deriving DecidableEq, Repr

inductive ShiftOp where
  | left | rightLogical | rightArithmetic
  deriving DecidableEq, Repr

/-- Loads; the unsigned ones do not repeat the top bit. -/
inductive LoadOp where
  | byte | half | word | double | byteUnsigned | halfUnsigned | wordUnsigned
  deriving DecidableEq, Repr

def LoadOp.width : LoadOp → Width
  | byte | byteUnsigned => .byte
  | half | halfUnsigned => .half
  | word | wordUnsigned => .word
  | double => .double

inductive BranchOp where
  | eq | ne | lt | ge | ltu | geu
  deriving DecidableEq, Repr

inductive AmoOp where
  | swap | add | xor | and | or | min | max | minu | maxu
  deriving DecidableEq, Repr

inductive AtomicWidth where
  | word | double
  deriving DecidableEq, Repr

def AtomicWidth.width : AtomicWidth → Width
  | word => .word
  | double => .double

inductive CsrOp where
  | write | set | clear
  deriving DecidableEq, Repr

inductive CsrOperand where
  | reg (rs1 : Reg)
  | imm (value : BitVec 5)
  deriving DecidableEq, Repr

/-- A decoded instruction. Branch and jump offsets count halfwords, since targets are even. -/
inductive Instr where
  | regReg (op : RegOp) (rd rs1 rs2 : Reg)
  | regRegWord (op : RegWordOp) (rd rs1 rs2 : Reg)
  | regImm (op : ImmOp) (rd rs1 : Reg) (imm : BitVec 12)
  | addiw (rd rs1 : Reg) (imm : BitVec 12)
  | shiftImm (op : ShiftOp) (rd rs1 : Reg) (shamt : BitVec 6)
  | shiftImmWord (op : ShiftOp) (rd rs1 : Reg) (shamt : BitVec 5)
  | load (op : LoadOp) (rd rs1 : Reg) (off : BitVec 12)
  | store (width : Width) (rs1 rs2 : Reg) (off : BitVec 12)
  | branch (op : BranchOp) (rs1 rs2 : Reg) (off : BitVec 12)
  | jal (rd : Reg) (off : BitVec 20)
  | jalr (rd rs1 : Reg) (off : BitVec 12)
  | lui (rd : Reg) (imm : BitVec 20)
  | auipc (rd : Reg) (imm : BitVec 20)
  | lr (width : AtomicWidth) (rd rs1 : Reg)
  | sc (width : AtomicWidth) (rd rs1 rs2 : Reg)
  | amo (op : AmoOp) (width : AtomicWidth) (rd rs1 rs2 : Reg)
  | csr (op : CsrOp) (rd : Reg) (number : BitVec 12) (operand : CsrOperand)
  | sfenceVma (rs1 rs2 : Reg)
  | ecall
  | ebreak
  | mret
  | sret
  | wfi
  | fence
  | fenceI
  deriving DecidableEq, Repr

namespace Instr

def byteOffset {n : Nat} (off : BitVec n) : BitVec (n + 1) :=
  off ++ 0#1

def upperImmediate (imm : BitVec 20) : BitVec 32 :=
  imm ++ 0#12

def widen {n : Nat} (field : BitVec n) : UInt64 :=
  ⟨field.signExtend 64⟩

/-- True of the instructions that a hart of the given width has. -/
def validFor : Xlen → Instr → Bool
  | .rv64, _ => true
  | .rv32, regRegWord .. => false
  | .rv32, addiw .. => false
  | .rv32, shiftImmWord .. => false
  | .rv32, shiftImm _ _ _ shamt => !shamt.msb
  | .rv32, load op .. => op != .double && op != .wordUnsigned
  | .rv32, store width .. => width != .double
  | .rv32, lr width .. => width != .double
  | .rv32, sc width .. => width != .double
  | .rv32, amo _ width .. => width != .double
  | .rv32, _ => true

end Instr

end RiscvBoard
