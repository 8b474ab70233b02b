import RiscvBoard.Elf.Image
import RiscvBoard.Hex
import RiscvBoard.Ram
import RiscvBoard.Xlen
import Std.Data.HashMap

/-!
Loading of images into guest memory: ELF files by their segments, and flat binaries at the start of
memory.
-/

set_option autoImplicit false

namespace RiscvBoard

inductive LoadError where
  | malformed (cause : String)
  | unsupportedClass (cls : UInt8)
  | notLittleEndian
  | wrongMachine (machine : UInt16)
  | unsupportedType (type : UInt16)
  | segmentOutsideFile (offset size : UInt64)
  | segmentSize (offset : UInt64)
  | segmentOutsideRam (start limit ramStart ramLimit : UInt64)
  | imageTooLarge (size ram : Nat)
  | deviceTreeTooLarge (size limit : Nat)
  | memory (fault : MemFault)
  deriving DecidableEq, Repr

def LoadError.message : LoadError → String
  | malformed cause => "malformed ELF: " ++ cause
  | unsupportedClass cls => "unsupported ELF class " ++ toString cls.toNat
  | notLittleEndian => "expected little-endian ELF"
  | wrongMachine machine =>
    "expected RISC-V ELF, found machine type " ++ toString machine.toNat
  | unsupportedType type =>
    "unsupported ELF type " ++ toString type.toNat ++ " (want ET_EXEC or ET_DYN)"
  | segmentOutsideFile offset size =>
    "segment outside file: off=" ++ Hex.text offset.toNat ++ " size=" ++ Hex.text size.toNat
  | segmentSize offset =>
    "p_memsz smaller than p_filesz for segment at off=" ++ Hex.text offset.toNat
  | segmentOutsideRam start limit ramStart ramLimit =>
    "segment outside RAM: [" ++ Hex.text start.toNat ++ "," ++ Hex.text limit.toNat ++
      ") not within [" ++ Hex.text ramStart.toNat ++ "," ++ Hex.text ramLimit.toNat ++ ")"
  | imageTooLarge size ram =>
    "image of " ++ toString size ++ " bytes does not fit in " ++ toString ram ++ " bytes of RAM"
  | deviceTreeTooLarge size limit =>
    "device tree of " ++ toString size ++ " bytes does not fit the " ++ toString limit ++
      "-byte window"
  | memory fault => "memory write failed: " ++ fault.message

abbrev SymbolTable := Std.HashMap String UInt64

structure LoadedImage where
  entry : UInt64
  symbols : SymbolTable
  /-- The address of the exit word, if the image has one. -/
  tohost : Option UInt64

namespace Elf

def narrowClass : UInt8 := 1

def wideClass : UInt8 := 2

def littleEndian : UInt8 := 1

def machineNumber : UInt16 := 243

def executableType : UInt16 := 2

def sharedType : UInt16 := 3

def loadType : UInt32 := 1

def Header.xlen (h : Header) : Except LoadError Xlen :=
  if h.cls = narrowClass then .ok .rv32
  else if h.cls = wideClass then .ok .rv64
  else .error (.unsupportedClass h.cls)

def Header.check (h : Header) : Except LoadError Unit :=
  if h.cls ≠ narrowClass ∧ h.cls ≠ wideClass then .error (.unsupportedClass h.cls)
  else if h.encoding ≠ littleEndian then .error .notLittleEndian
  else if h.machine ≠ machineNumber then .error (.wrongMachine h.machine)
  else if h.type ≠ executableType ∧ h.type ≠ sharedType then .error (.unsupportedType h.type)
  else .ok ()

/-- The address after a segment in memory, at most the largest number. -/
def Segment.limit (s : Segment) : UInt64 :=
  if s.physicalAddr.toNat + s.memorySize.toNat < UInt64.size then s.physicalAddr + s.memorySize
  else 0xffffffffffffffff

def Segment.check (s : Segment) (file : ByteArray) (ram : Ram) : Except LoadError Unit :=
  if s.offset.toNat + s.fileSize.toNat > file.size then
    .error (.segmentOutsideFile s.offset s.fileSize)
  else if s.memorySize < s.fileSize then .error (.segmentSize s.offset)
  else if s.physicalAddr < Ram.base ∨ s.limit > ram.limit then
    .error (.segmentOutsideRam s.physicalAddr s.limit Ram.base ram.limit)
  else .ok ()

/-- The bytes of a segment in memory: those in the file, and zeros after them. -/
def Segment.contents (s : Segment) (file : ByteArray) : ByteArray :=
  file.extract s.offset.toNat (s.offset.toNat + s.fileSize.toNat) ++
    Ram.zeroBytes (s.memorySize.toNat - s.fileSize.toNat)

/-- Writes the segments that are to be loaded, in order. Those before a bad one stay loaded. -/
def loadSegments (file : ByteArray) : List Segment → EStateM LoadError Ram Unit
  | [] => pure ()
  | s :: rest =>
    if s.type = loadType then fun ram =>
      match s.check file ram with
      | .error e => .error e ram
      | .ok _ =>
        let block := s.contents file
        if ram.contains s.physicalAddr block.size then
          loadSegments file rest (ram.blit s.physicalAddr block)
        else .error (.memory (.outOfRange s.physicalAddr)) ram
    else loadSegments file rest

/-- The name of a symbol that stands for an address, as functions and symbols without a type do. -/
def Symbol.addressName? (s : Symbol) : Option String :=
  s.name?.filter fun name => name != "" && (s.type == 0 || s.type == 2)

/-- The addresses that the symbols name; the last of several symbols of one name counts. -/
def symbolTable (symbols : List Symbol) : SymbolTable :=
  symbols.foldl (fun t s =>
    match s.addressName? with
    | some name => t.insert name s.value
    | none => t) ∅

/-- The address of the exit word: the last symbol of that name, whatever its type. -/
def exitWord? (symbols : List Symbol) : Option UInt64 :=
  (symbols.reverse.find? fun s => s.name? == some "tohost").map Symbol.value

section Reading

variable (reader : Reader) (file : ByteArray)

def xlen : Except LoadError Xlen :=
  match reader file with
  | .ok image => image.header.xlen
  | .error cause => .error (.malformed cause)

def load : EStateM LoadError Ram LoadedImage := do
  match reader file with
  | .error cause => throw (.malformed cause)
  | .ok image =>
    match image.header.check with
    | .error e => throw e
    | .ok _ =>
      loadSegments file image.segments
      return {
        entry := image.header.entry
        symbols := symbolTable image.symbols
        tohost := exitWord? image.symbols }

end Reading

end Elf

def loadFlat (file : ByteArray) : EStateM LoadError Ram UInt64 := fun ram =>
  if file.size > ram.size then .error (.imageTooLarge file.size ram.size) ram
  else .ok Ram.base (ram.blit Ram.base file)

end RiscvBoard
