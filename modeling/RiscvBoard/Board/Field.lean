import RiscvBoard.Access

/-!
Bytes inside a little-endian device register: reading some of them, and replacing some of them.
-/

set_option autoImplicit false

namespace RiscvBoard

/-- The bytes of a register from a byte offset on; past the eighth byte there are none. -/
def readField (register offset : UInt64) (w : Width) : UInt64 :=
  if offset ≥ 8 then 0 else (register >>> (offset * 8)) &&& w.mask

/-- A register with the bytes from a byte offset on replaced. -/
def writeField (register offset : UInt64) (w : Width) (value : UInt64) : UInt64 :=
  if offset ≥ 8 then register
  else
    let mask := w.mask <<< (offset * 8)
    (register &&& ~~~mask) ||| ((value <<< (offset * 8)) &&& mask)

end RiscvBoard
