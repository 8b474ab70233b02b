import RiscvBoard.Isa.Instr

/-!
What the computational instructions compute. Operands are registers in canonical form; the caller
brings the result back to canonical form when it writes a register.
-/

set_option autoImplicit false

namespace RiscvBoard

def flag (b : Bool) : UInt64 :=
  if b then 1 else 0

/-- The result of an operation on two registers. Division by zero gives all ones or the dividend,
and the one overflowing quotient wraps. -/
def RegOp.eval (xlen : Xlen) (a b : UInt64) : RegOp → UInt64
  | add => a + b
  | sub => a - b
  | sll => a <<< (b &&& xlen.shiftMask)
  | slt => flag (a.toInt64 < b.toInt64)
  | sltu => flag (a < b)
  | xor => a ^^^ b
  | srl => xlen.truncate a >>> (b &&& xlen.shiftMask)
  | sra => (a.toInt64 >>> (b &&& xlen.shiftMask).toInt64).toUInt64
  | or => a ||| b
  | and => a &&& b
  | mul => a * b
  | mulh => UInt64.ofInt ((a.toInt64.toInt * b.toInt64.toInt) >>> xlen.bits)
  | mulhsu => UInt64.ofInt ((a.toInt64.toInt * (xlen.truncate b).toNat) >>> xlen.bits)
  | mulhu => UInt64.ofNat (((xlen.truncate a).toNat * (xlen.truncate b).toNat) >>> xlen.bits)
  | div => if b = 0 then 0xffffffffffffffff else (a.toInt64 / b.toInt64).toUInt64
  | divu =>
    if xlen.truncate b = 0 then 0xffffffffffffffff else xlen.truncate a / xlen.truncate b
  | rem => if b = 0 then a else (a.toInt64 % b.toInt64).toUInt64
  | remu => if xlen.truncate b = 0 then xlen.truncate a else xlen.truncate a % xlen.truncate b

def RegWordOp.eval (a b : UInt64) (op : RegWordOp) : UInt64 :=
  let x := a.toUInt32
  let y := b.toUInt32
  let result : UInt32 :=
    match op with
    | add => x + y
    | sub => x - y
    | sll => x <<< (y &&& 31)
    | srl => x >>> (y &&& 31)
    | sra => (x.toInt32 >>> (y &&& 31).toInt32).toUInt32
    | mul => x * y
    | div => if y = 0 then 0xffffffff else (x.toInt32 / y.toInt32).toUInt32
    | divu => if y = 0 then 0xffffffff else x / y
    | rem => if y = 0 then x else (x.toInt32 % y.toInt32).toUInt32
    | remu => if y = 0 then x else x % y
  result.toInt32.toInt64.toUInt64

def ImmOp.eval (a imm : UInt64) : ImmOp → UInt64
  | add => a + imm
  | slt => flag (a.toInt64 < imm.toInt64)
  | sltu => flag (a < imm)
  | xor => a ^^^ imm
  | or => a ||| imm
  | and => a &&& imm

def ShiftOp.eval (xlen : Xlen) (a shamt : UInt64) : ShiftOp → UInt64
  | left => a <<< shamt
  | rightLogical => xlen.truncate a >>> shamt
  | rightArithmetic => (a.toInt64 >>> shamt.toInt64).toUInt64

def ShiftOp.evalWord (a : UInt64) (shamt : UInt32) (op : ShiftOp) : UInt64 :=
  let x := a.toUInt32
  let result : UInt32 :=
    match op with
    | left => x <<< shamt
    | rightLogical => x >>> shamt
    | rightArithmetic => (x.toInt32 >>> shamt.toInt32).toUInt32
  result.toInt32.toInt64.toUInt64

def BranchOp.holds (a b : UInt64) : BranchOp → Bool
  | eq => a == b
  | ne => a != b
  | lt => a.toInt64 < b.toInt64
  | ge => b.toInt64 ≤ a.toInt64
  | ltu => a < b
  | geu => b ≤ a

def LoadOp.extend (value : UInt64) : LoadOp → UInt64
  | byte => value.toUInt8.toInt8.toInt64.toUInt64
  | half => value.toUInt16.toInt16.toInt64.toUInt64
  | word => signExtendWord value
  | double | byteUnsigned | halfUnsigned | wordUnsigned => value

def AtomicWidth.extend (value : UInt64) : AtomicWidth → UInt64
  | word => signExtendWord value
  | double => value

/-- The part of a register that an atomic comparison looks at, as an unsigned number. -/
def AtomicWidth.unsigned (value : UInt64) : AtomicWidth → UInt64
  | word => value &&& 0xffffffff
  | double => value

def AmoOp.eval (width : AtomicWidth) (old src : UInt64) : AmoOp → UInt64
  | swap => src
  | add => old + src
  | xor => old ^^^ src
  | and => old &&& src
  | or => old ||| src
  | min => if (width.extend old).toInt64 < (width.extend src).toInt64 then old else src
  | max => if (width.extend src).toInt64 < (width.extend old).toInt64 then old else src
  | minu => if width.unsigned old < width.unsigned src then old else src
  | maxu => if width.unsigned src < width.unsigned old then old else src

end RiscvBoard
