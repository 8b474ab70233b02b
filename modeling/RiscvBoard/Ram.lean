import RiscvBoard.Access

/-!
Guest memory: a block of bytes from a fixed physical address on. Accesses may be misaligned, are
little-endian, and must lie inside the block as a whole.
-/

set_option autoImplicit false

namespace RiscvBoard

structure Ram where
  bytes : ByteArray

namespace Ram

/-- The physical address of the first byte. -/
def base : UInt64 := 0x80000000

/-- A block of zero bytes of the given size, built from a block of half the size. -/
def zeroBytes (n : Nat) : ByteArray :=
  if n = 0 then ByteArray.empty
  else
    let half := zeroBytes (n / 2)
    if n % 2 = 0 then half ++ half else (half ++ half).push 0

def zeros (size : Nat) : Ram :=
  ⟨zeroBytes size⟩

def size (r : Ram) : Nat :=
  r.bytes.size

def limit (r : Ram) : UInt64 :=
  base + r.size.toUInt64

/-- The position of an address in the block; meaningful for addresses from `base` on. -/
def offset (addr : UInt64) : Nat :=
  (addr - base).toNat

def contains (r : Ram) (addr : UInt64) (n : Nat) : Bool :=
  base ≤ addr && offset addr + n ≤ r.size

/-- The byte at a position, zero outside the block. -/
def byteAt (r : Ram) (i : Nat) : UInt8 :=
  if h : i < r.bytes.size then r.bytes[i] else 0

def setByteAt (r : Ram) (i : Nat) (b : UInt8) : Ram :=
  if h : i < r.bytes.size then ⟨r.bytes.set i b h⟩ else r

/-- The little-endian number in `n` bytes from a position on. -/
def readAt (r : Ram) (i : Nat) : Nat → UInt64
  | 0 => 0
  | n + 1 => (r.byteAt i).toUInt64 ||| (r.readAt (i + 1) n <<< 8)

/-- Writes the low `n` bytes of a number from a position on, low byte first. -/
def writeAt (r : Ram) (i : Nat) : Nat → UInt64 → Ram
  | 0, _ => r
  | n + 1, value => (r.setByteAt i value.toUInt8).writeAt (i + 1) n (value >>> 8)

def read (r : Ram) (addr : UInt64) (w : Width) : UInt64 :=
  r.readAt (offset addr) w.bytes

def write (r : Ram) (addr : UInt64) (w : Width) (value : UInt64) : Ram :=
  r.writeAt (offset addr) w.bytes value

def load (r : Ram) (addr : UInt64) (w : Width) : Except MemFault UInt64 :=
  if r.contains addr w.bytes then .ok (r.read addr w) else .error (.outOfRange addr)

def store (r : Ram) (addr : UInt64) (w : Width) (value : UInt64) : Except MemFault Ram :=
  if r.contains addr w.bytes then .ok (r.write addr w value) else .error (.outOfRange addr)

def blit (r : Ram) (addr : UInt64) (block : ByteArray) : Ram :=
  ⟨block.copySlice 0 r.bytes (offset addr) block.size⟩

def loadBytes (r : Ram) (addr : UInt64) (n : Nat) : Except MemFault ByteArray :=
  if r.contains addr n then .ok (r.bytes.extract (offset addr) (offset addr + n))
  else .error (.outOfRange addr)

def storeBytes (r : Ram) (addr : UInt64) (block : ByteArray) : Except MemFault Ram :=
  if r.contains addr block.size then .ok (r.blit addr block) else .error (.outOfRange addr)

end Ram

end RiscvBoard
