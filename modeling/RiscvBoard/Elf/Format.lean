import RiscvBoard.Elf.Image

/-!
A reader of files in the ELF format, of both classes and both byte orders. It reads the header, the
program headers, and the symbols of the last symbol table.
-/

set_option autoImplicit false

namespace RiscvBoard

namespace Elf

inductive ByteOrder where
  | little
  | big
  deriving DecidableEq, Repr

structure Layout where
  /-- The number of bytes of an address. -/
  wordSize : Nat
  order : ByteOrder
  deriving DecidableEq, Repr

def byte? (file : ByteArray) (i : Nat) : Option UInt8 :=
  if h : i < file.size then some file[i] else none

def number? (order : ByteOrder) (file : ByteArray) (offset n : Nat) : Option UInt64 :=
  if offset + n ≤ file.size then
    let bytes := (file.extract offset (offset + n)).data.toList
    let highFirst :=
      match order with
      | .little => bytes.reverse
      | .big => bytes
    some (highFirst.foldl (fun acc b => (acc <<< 8) ||| b.toUInt64) 0)
  else none

namespace Layout

def ofCodes (cls encoding : UInt8) : Layout :=
  ⟨if cls = 1 then 4 else 8, if encoding = 1 then .little else .big⟩

def half? (l : Layout) (file : ByteArray) (start : Nat) : Option UInt16 :=
  (number? l.order file start 2).map UInt64.toUInt16

def word? (l : Layout) (file : ByteArray) (start : Nat) : Option UInt32 :=
  (number? l.order file start 4).map UInt64.toUInt32

def long? (l : Layout) (file : ByteArray) (start : Nat) : Option UInt64 :=
  number? l.order file start l.wordSize

def headerSize (l : Layout) : Nat :=
  40 + 3 * l.wordSize

def segmentSize (l : Layout) : Nat :=
  8 + 6 * l.wordSize

def sectionSize (l : Layout) : Nat :=
  16 + 6 * l.wordSize

def symbolSize (l : Layout) : Nat :=
  8 + 2 * l.wordSize

end Layout

def Header.layout (h : Header) : Layout :=
  .ofCodes h.cls h.encoding

def Header.read? (file : ByteArray) : Option Header := do
  guard (hasMagic file)
  let cls ← byte? file 4
  let encoding ← byte? file 5
  guard ((cls = 1 ∨ cls = 2) ∧ (encoding = 1 ∨ encoding = 2))
  let l := Layout.ofCodes cls encoding
  guard (l.headerSize ≤ file.size)
  let type ← l.half? file 16
  let machine ← l.half? file 18
  let entry ← l.long? file 24
  return { cls, encoding, type, machine, entry }

structure Tables where
  segmentOffset : UInt64
  segmentCount : UInt16
  sectionOffset : UInt64
  sectionCount : UInt16
  /-- The section that holds the section names. -/
  nameSection : UInt16
  deriving DecidableEq, Repr

namespace Layout

variable (l : Layout) (file : ByteArray)

def tables? : Option Tables := do
  let segmentOffset ← l.long? file (24 + l.wordSize)
  let sectionOffset ← l.long? file (24 + 2 * l.wordSize)
  let segmentCount ← l.half? file (32 + 3 * l.wordSize)
  let sectionCount ← l.half? file (36 + 3 * l.wordSize)
  let nameSection ← l.half? file (38 + 3 * l.wordSize)
  return { segmentOffset, segmentCount, sectionOffset, sectionCount, nameSection }

def segment? (start : Nat) : Option Segment := do
  guard (start + l.segmentSize ≤ file.size)
  let type ← l.word? file start
  let offset ← l.long? file (start + l.wordSize)
  let physicalAddr ← l.long? file (start + 3 * l.wordSize)
  let fileSize ← l.long? file (start + 4 * l.wordSize)
  let memorySize ← l.long? file (start + 5 * l.wordSize)
  return { type, offset, physicalAddr, fileSize, memorySize }

def segments? (t : Tables) : Option (List Segment) := do
  guard (t.segmentCount.toNat ≤ file.size / l.segmentSize)
  (List.range t.segmentCount.toNat).mapM fun i =>
    l.segment? file (t.segmentOffset.toNat + i * l.segmentSize)

end Layout

structure Section where
  type : UInt32
  addr : UInt64
  offset : UInt64
  size : UInt64
  link : UInt32
  entrySize : UInt64
  deriving DecidableEq, Repr

/-- Whether the bytes of a section lie inside a file of the given size, and its addresses do not
wrap. Sections without bytes in the file always fit. -/
def Section.fits (s : Section) (fileSize : Nat) : Bool :=
  s.type == 8 || s.size == 0 ||
    (s.offset.toNat + s.size.toNat ≤ fileSize && s.addr.toNat + s.size.toNat < UInt64.size)

/-- A table of names, each ended by a zero byte. -/
abbrev StringTable := ByteArray

def nameAt? (table : StringTable) (offset : Nat) : Option String :=
  if offset < table.size then
    let rest := (table.extract offset table.size).data.toList
    String.fromUTF8? ⟨(rest.takeWhile fun b => b != 0).toArray⟩
  else none

namespace Layout

variable (l : Layout) (file : ByteArray)

def section? (start : Nat) : Option Section := do
  guard (start + l.sectionSize ≤ file.size)
  let type ← l.word? file (start + 4)
  let addr ← l.long? file (start + 8 + l.wordSize)
  let offset ← l.long? file (start + 8 + 2 * l.wordSize)
  let size ← l.long? file (start + 8 + 3 * l.wordSize)
  let link ← l.word? file (start + 8 + 4 * l.wordSize)
  let entrySize ← l.long? file (start + 16 + 5 * l.wordSize)
  return { type, addr, offset, size, link, entrySize }

/-- Reads the section headers. An offset of zero means that there are none, and a count of zero that
the first header holds the count. -/
def sections? (t : Tables) : Option (List Section) := do
  if t.sectionOffset = 0 then return []
  let first ← l.section? file t.sectionOffset.toNat
  let count := if t.sectionCount = 0 then first.size.toNat else t.sectionCount.toNat
  guard (count ≤ file.size / l.sectionSize)
  let rest ← (List.range (count - 1)).mapM fun i =>
    l.section? file (t.sectionOffset.toNat + (i + 1) * l.sectionSize)
  return first :: rest

end Layout

/-- The string table in a section; a section that does not exist holds an empty one. -/
def stringTable? (file : ByteArray) (sections : List Section) (index : Nat) :
    Option StringTable := do
  let index :=
    if index = 0xffff then (sections.head?.map fun s => s.link.toNat).getD 0 else index
  match sections[index]? with
  | none => return ByteArray.empty
  | some s =>
    guard (s.fits file.size)
    guard (s.offset.toNat + s.size.toNat ≤ file.size)
    let table := file.extract s.offset.toNat (s.offset.toNat + s.size.toNat)
    guard table.validateUTF8
    return table

namespace Layout

variable (l : Layout) (file : ByteArray)

/-- Reads the symbol at an offset. The type is in the low half of the byte that has it, and stands
before the value in the wider class only. -/
def symbol? (names : StringTable) (start : Nat) : Option Symbol := do
  let name ← l.word? file start
  let type ← byte? file (start + if l.wordSize = 4 then 12 else 4)
  let value ← l.long? file (start + if l.wordSize = 4 then 4 else 8)
  return ⟨nameAt? names name.toNat, type &&& 0xf, value⟩

def symbols? (sections : List Section) : Option (List Symbol) :=
  match sections.reverse.find? fun s => s.type == 2 with
  | none => some []
  | some s => do
    let count := if s.entrySize = 0 then 0 else (s.size / s.entrySize).toNat
    guard (count * l.symbolSize < UInt64.size)
    guard (s.offset.toNat < file.size)
    guard (s.offset.toNat + count * l.symbolSize ≤ file.size)
    let names ← stringTable? file sections s.link.toNat
    (List.range count).mapM fun i => l.symbol? file names (s.offset.toNat + i * l.symbolSize)

end Layout

/-- Reads an image. The table of section names is checked although nothing is taken from it. -/
def Image.read? (file : ByteArray) : Option Image := do
  let header ← Header.read? file
  let l := header.layout
  let t ← l.tables? file
  let segments ← l.segments? file t
  let sections ← l.sections? file t
  let _ ← stringTable? file sections t.nameSection.toNat
  let symbols ← l.symbols? file sections
  return { header, segments, symbols }

def fileReader : Reader := fun file =>
  match Image.read? file with
  | some image => .ok image
  | none => .error "a header or table cannot be read"

end Elf

end RiscvBoard
