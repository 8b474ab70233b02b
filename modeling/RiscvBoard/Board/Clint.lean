import RiscvBoard.Board.Field

/-!
The core-local interruptor of one hart: a clock, the time at which its timer interrupt rises, and
a bit that raises the software interrupt.
-/

set_option autoImplicit false

namespace RiscvBoard

/-- The core-local interruptor. -/
structure Clint where
  msip : UInt32
  mtimecmp : UInt64
  mtime : UInt64
  deriving DecidableEq

namespace Clint

/-- After reset no timer interrupt rises until the guest sets a time for it. -/
def reset : Clint :=
  ⟨0, 0xffffffffffffffff, 0⟩

def tick (c : Clint) : Clint :=
  { c with mtime := c.mtime + 1 }

def timerPending (c : Clint) : Bool :=
  c.mtime ≥ c.mtimecmp

def softwarePending (c : Clint) : Bool :=
  c.msip &&& 1 != 0

def msipOffset : UInt64 := 0x0

def mtimecmpOffset : UInt64 := 0x4000

def mtimeOffset : UInt64 := 0xbff8

def within (offset register size : UInt64) : Bool :=
  register ≤ offset && offset - register < size

/-- Reads a register; the rest of the window reads zero. -/
def load (c : Clint) (offset : UInt64) (w : Width) : UInt64 :=
  if within offset msipOffset 4 then readField c.msip.toUInt64 (offset - msipOffset) w
  else if within offset mtimecmpOffset 8 then readField c.mtimecmp (offset - mtimecmpOffset) w
  else if within offset mtimeOffset 8 then readField c.mtime (offset - mtimeOffset) w
  else 0

/-- Writes a register; the software interrupt register keeps one bit. -/
def store (c : Clint) (offset : UInt64) (w : Width) (value : UInt64) : Clint :=
  if within offset msipOffset 4 then
    { c with msip := (writeField c.msip.toUInt64 (offset - msipOffset) w value).toUInt32 &&& 1 }
  else if within offset mtimecmpOffset 8 then
    { c with mtimecmp := writeField c.mtimecmp (offset - mtimecmpOffset) w value }
  else if within offset mtimeOffset 8 then
    { c with mtime := writeField c.mtime (offset - mtimeOffset) w value }
  else c

end Clint

end RiscvBoard
