/-!
Executable images in the ELF format, as a loader sees them: the header, the program headers and the
symbols. How they are read from a file is left to a reader.
-/

set_option autoImplicit false

namespace RiscvBoard

namespace Elf

structure Segment where
  type : UInt32
  offset : UInt64
  physicalAddr : UInt64
  fileSize : UInt64
  memorySize : UInt64
  deriving DecidableEq, Repr

structure Symbol where
  /-- The name, if the string table has one for the symbol. -/
  name? : Option String
  type : UInt8
  value : UInt64
  deriving DecidableEq, Repr

structure Header where
  /-- The code of the class, which fixes the size of an address. -/
  cls : UInt8
  /-- The code of the order of the bytes in a number. -/
  encoding : UInt8
  type : UInt16
  machine : UInt16
  entry : UInt64
  deriving DecidableEq, Repr

structure Image where
  header : Header
  segments : List Segment
  symbols : List Symbol
  deriving DecidableEq, Repr

/-- A reader of images. It says what is wrong with a file that it refuses. -/
abbrev Reader := ByteArray → Except String Image

def magic : List UInt8 := [0x7f, 0x45, 0x4c, 0x46]

def hasMagic (file : ByteArray) : Bool :=
  (file.extract 0 4).data.toList == magic

end Elf

end RiscvBoard
