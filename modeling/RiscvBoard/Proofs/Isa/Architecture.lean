import Mathlib.Algebra.Group.Nat.Defs
import RiscvBoard.Isa.Instr

/-!
The integer instructions and the atomic operations as the architecture defines them. Registers and
program counter have exactly as many bits as the register width, and each operation is one on
numbers of that many bits. How a hart keeps its registers does not appear here.
-/

set_option autoImplicit false

namespace RiscvBoard

section Operations

variable {n : Nat}

/-- The amount of a shift by a register: as many low bits as it takes to number the bits of a
register. -/
def shiftAmount (b : BitVec n) : Nat :=
  b.toNat % 2 ^ n.log2

def truth (holds : Bool) : BitVec n :=
  if holds then 1#n else 0#n

def upperHalf (product : BitVec (2 * n)) : BitVec n :=
  product.extractLsb' n n

/-- The signed quotient, rounded to zero. Division by zero gives all ones, and the one quotient that
does not fit gives the dividend. -/
def quotient (a b : BitVec n) : BitVec n :=
  if b = 0#n then BitVec.allOnes n
  else if a = BitVec.intMin n ∧ b = BitVec.allOnes n then BitVec.intMin n
  else BitVec.ofInt n (a.toInt.tdiv b.toInt)

/-- The remainder of the signed quotient, with the sign of the dividend. Division by zero leaves the
dividend, and the quotient that does not fit leaves zero. -/
def remainder (a b : BitVec n) : BitVec n :=
  if b = 0#n then a
  else if a = BitVec.intMin n ∧ b = BitVec.allOnes n then 0#n
  else BitVec.ofInt n (a.toInt.tmod b.toInt)

/-- The unsigned quotient; division by zero gives all ones. -/
def quotientUnsigned (a b : BitVec n) : BitVec n :=
  if b = 0#n then BitVec.allOnes n else BitVec.ofNat n (a.toNat / b.toNat)

/-- The remainder of the unsigned quotient; division by zero leaves the dividend. -/
def remainderUnsigned (a b : BitVec n) : BitVec n :=
  if b = 0#n then a else BitVec.ofNat n (a.toNat % b.toNat)

def RegOp.value (a b : BitVec n) : RegOp → BitVec n
  | add => a + b
  | sub => a - b
  | sll => a <<< shiftAmount b
  | slt => truth (a.toInt < b.toInt)
  | sltu => truth (a.toNat < b.toNat)
  | xor => a ^^^ b
  | srl => a >>> shiftAmount b
  | sra => a.sshiftRight (shiftAmount b)
  | or => a ||| b
  | and => a &&& b
  | mul => a * b
  | mulh => upperHalf (a.signExtend (2 * n) * b.signExtend (2 * n))
  | mulhsu => upperHalf (a.signExtend (2 * n) * b.zeroExtend (2 * n))
  | mulhu => upperHalf (a.zeroExtend (2 * n) * b.zeroExtend (2 * n))
  | div => quotient a b
  | divu => quotientUnsigned a b
  | rem => remainder a b
  | remu => remainderUnsigned a b

def RegWordOp.onWords : RegWordOp → RegOp
  | add => .add
  | sub => .sub
  | sll => .sll
  | srl => .srl
  | sra => .sra
  | mul => .mul
  | div => .div
  | divu => .divu
  | rem => .rem
  | remu => .remu

def ImmOp.onRegs : ImmOp → RegOp
  | add => .add
  | slt => .slt
  | sltu => .sltu
  | xor => .xor
  | or => .or
  | and => .and

def ShiftOp.value (a : BitVec n) (amount : Nat) : ShiftOp → BitVec n
  | left => a <<< amount
  | rightLogical => a >>> amount
  | rightArithmetic => a.sshiftRight amount

def BranchOp.taken (a b : BitVec n) : BranchOp → Bool
  | eq => a = b
  | ne => a ≠ b
  | lt => a.toInt < b.toInt
  | ge => b.toInt ≤ a.toInt
  | ltu => a.toNat < b.toNat
  | geu => b.toNat ≤ a.toNat

def AmoOp.value (old src : BitVec n) : AmoOp → BitVec n
  | swap => src
  | add => old + src
  | xor => old ^^^ src
  | and => old &&& src
  | or => old ||| src
  | min => if old.toInt < src.toInt then old else src
  | max => if src.toInt < old.toInt then old else src
  | minu => if old.toNat < src.toNat then old else src
  | maxu => if src.toNat < old.toNat then old else src

end Operations

def AtomicWidth.bits : AtomicWidth → Nat
  | word => 32
  | double => 64

/-- The registers and the program counter of a hart whose registers have `n` bits. -/
@[ext]
structure ArchState (n : Nat) where
  regs : Reg → BitVec n
  pc : BitVec n

namespace ArchState

variable {n : Nat}

def write (s : ArchState n) (rd : Reg) (value : BitVec n) : ArchState n :=
  { s with regs := fun r => if r = rd ∧ rd ≠ 0 then value else s.regs r }

def jump (s : ArchState n) (target : BitVec n) : ArchState n :=
  { s with pc := target }

def word (s : ArchState n) (r : Reg) : BitVec 32 :=
  (s.regs r).setWidth 32

end ArchState

namespace Instr

variable {n : Nat}

/-- The computational instructions, jumps and conditional branches of the base and multiplication
sets. -/
def isInteger : Instr → Bool
  | regReg .. | regRegWord .. | regImm .. | addiw .. | shiftImm .. | shiftImmWord .. => true
  | lui .. | auipc .. | jal .. | jalr .. | branch .. => true
  | _ => false

/-- The register that an instruction computes and its result; nothing for branches, jumps, and
instructions that are not integer ones. -/
def result? (s : ArchState n) : Instr → Option (Reg × BitVec n)
  | regReg op rd rs1 rs2 => some (rd, op.value (s.regs rs1) (s.regs rs2))
  | regRegWord op rd rs1 rs2 =>
    some (rd, (op.onWords.value (s.word rs1) (s.word rs2)).signExtend n)
  | regImm op rd rs1 imm => some (rd, op.onRegs.value (s.regs rs1) (imm.signExtend n))
  | addiw rd rs1 imm => some (rd, (s.word rs1 + imm.signExtend 32).signExtend n)
  | shiftImm op rd rs1 shamt => some (rd, op.value (s.regs rs1) shamt.toNat)
  | shiftImmWord op rd rs1 shamt => some (rd, (op.value (s.word rs1) shamt.toNat).signExtend n)
  | lui rd imm => some (rd, (imm ++ 0#12).signExtend n)
  | auipc rd imm => some (rd, s.pc + (imm ++ 0#12).signExtend n)
  | _ => none

/-- What an integer instruction of `len` bytes makes of registers and program counter. -/
def next? (len : BitVec n) (s : ArchState n) : Instr → Option (ArchState n)
  | branch op rs1 rs2 off =>
    let target := s.pc + (off ++ 0#1).signExtend n
    some (s.jump (if op.taken (s.regs rs1) (s.regs rs2) then target else s.pc + len))
  | jal rd off => some ((s.write rd (s.pc + len)).jump (s.pc + (off ++ 0#1).signExtend n))
  | jalr rd rs1 off =>
    let target := (s.regs rs1 + off.signExtend n) &&& ~~~1#n
    some ((s.write rd (s.pc + len)).jump target)
  | i => (i.result? s).map fun (rd, value) => (s.write rd value).jump (s.pc + len)

end Instr

end RiscvBoard
