/-!
Register widths. A register holds 64 bits for both widths; on the narrow one its canonical form
repeats bit 31 upwards, and addresses drop everything above bit 31.
-/

set_option autoImplicit false

namespace RiscvBoard

inductive Xlen where
  | rv32
  | rv64
  deriving DecidableEq, Repr

/-- The low 32 bits, read as a signed number and widened to 64 bits. -/
def signExtendWord (value : UInt64) : UInt64 :=
  value.toUInt32.toInt32.toInt64.toUInt64

namespace Xlen

def bits : Xlen → Nat
  | rv32 => 32
  | rv64 => 64

/-- Drops everything above the register width, as addresses and the program counter do. -/
def truncate : Xlen → UInt64 → UInt64
  | rv32, value => value &&& 0xffffffff
  | rv64, value => value

/-- The form in which a register keeps a value: sign-extended from bit 31 on the narrow width. -/
def canonical : Xlen → UInt64 → UInt64
  | rv32, value => signExtendWord value
  | rv64, value => value

def shiftMask : Xlen → UInt64
  | rv32 => 31
  | rv64 => 63

end Xlen

end RiscvBoard
