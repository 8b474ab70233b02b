import RiscvBoard.Csr.File
import RiscvBoard.Ram

/-!
The page table walk of the two-level, three-level and four-level schemes. It reads guest memory and
changes nothing; the accessed and dirty bits that an access has to set are part of its answer.
-/

set_option autoImplicit false

namespace RiscvBoard

namespace Pte

def valid : UInt64 := 0x1

def readable : UInt64 := 0x2

def writable : UInt64 := 0x4

def executable : UInt64 := 0x8

def user : UInt64 := 0x10

def accessed : UInt64 := 0x40

def dirty : UInt64 := 0x80

def has (entry bits : UInt64) : Bool :=
  entry &&& bits != 0

end Pte

def pageSize : Nat := 4096

def pageShift : UInt64 := 12

def pageOffset (addr : UInt64) : UInt64 :=
  addr &&& 0xfff

namespace PagingMode

def levels : PagingMode → Nat
  | bare => 0
  | sv32 => 2
  | sv39 => 3
  | sv48 => 4

def indexBits : PagingMode → UInt64
  | sv32 => 10
  | _ => 9

def entryWidth : PagingMode → Width
  | sv32 => .word
  | _ => .double

def entryPage (mode : PagingMode) (entry : UInt64) : UInt64 :=
  match mode with
  | sv32 => (entry >>> 10) &&& 0x3fffff
  | _ => (entry >>> 10) &&& 0xfffffffffff

/-- Whether the upper bits of a virtual address repeat its top translated bit. -/
def isCanonical (mode : PagingMode) (addr : UInt64) : Bool :=
  let repeats (unused : Int64) : Bool := ((addr.toInt64 <<< unused) >>> unused).toUInt64 == addr
  match mode with
  | sv39 => repeats 25
  | sv48 => repeats 16
  | _ => true

def levelShift (mode : PagingMode) (level : Nat) : UInt64 :=
  pageShift + mode.indexBits * level.toUInt64

def index (mode : PagingMode) (addr : UInt64) (level : Nat) : UInt64 :=
  (addr >>> mode.levelShift level) &&& ((1 <<< mode.indexBits) - 1)

def entryAddr (mode : PagingMode) (table addr : UInt64) (level : Nat) : UInt64 :=
  table + mode.index addr level * mode.entryWidth.bytes.toUInt64

/-- The part of a virtual address that a leaf at a level leaves as it is. -/
def offsetMask (mode : PagingMode) (level : Nat) : UInt64 :=
  (1 <<< mode.levelShift level) - 1

def isAligned (mode : PagingMode) (page : UInt64) (level : Nat) : Bool :=
  page &&& ((1 <<< (mode.indexBits * level.toUInt64)) - 1) == 0

/-- Whether an entry is malformed: not valid, writable without being readable, or, in the wide
format, with reserved bits. -/
def isMalformed (mode : PagingMode) (entry : UInt64) : Bool :=
  !Pte.has entry Pte.valid ||
    (!Pte.has entry Pte.readable && Pte.has entry Pte.writable) ||
    (mode.entryWidth == .double && entry >>> 54 != 0)

end PagingMode

def Pte.isPointer (entry : UInt64) : Bool :=
  !Pte.has entry (Pte.readable ||| Pte.executable)

/-- Whether a leaf lets the given mode at a page, under the permission settings of the status
word. -/
def Pte.permits (entry : UInt64) (kind : AccessKind) (mode : Privilege) (c : CsrFile) : Bool :=
  let owner :=
    match mode with
    | .user => Pte.has entry Pte.user
    | .supervisor =>
      !Pte.has entry Pte.user || (kind != .fetch && c.statusBit Status.sum)
    | .machine => true
  owner &&
    match kind with
    | .fetch => Pte.has entry Pte.executable
    | .load =>
      Pte.has entry Pte.readable ||
        (c.statusBit Status.mxr && Pte.has entry Pte.executable)
    | .store => Pte.has entry Pte.writable

/-- A leaf after an access: accessed, and dirty if the access was a store. -/
def Pte.touch (entry : UInt64) : AccessKind → UInt64
  | .store => entry ||| Pte.accessed ||| Pte.dirty
  | _ => entry ||| Pte.accessed

structure Walk where
  paddr : UInt64
  leaf : UInt64
  /-- Where the leaf lies. -/
  leafAddr : UInt64
  /-- The leaf with the bits that the access has to set, if it lacks any. -/
  update : Option UInt64
  deriving DecidableEq

namespace Walk

/-- Walks from a table on; `n` levels are left. -/
def descend (ram : Ram) (c : CsrFile) (addr : UInt64) (kind : AccessKind) (mode : Privilege) :
    Nat → UInt64 → Except MemFault Walk
  | 0, _ => .error (.page kind addr)
  | level + 1, table =>
    let paging := c.pagingMode
    let entryAddr := paging.entryAddr table addr level
    match ram.load entryAddr paging.entryWidth with
    | .error _ => .error (.access kind addr)
    | .ok entry =>
      if paging.isMalformed entry then .error (.page kind addr)
      else if Pte.isPointer entry then
        descend ram c addr kind mode level (paging.entryPage entry <<< pageShift)
      else if !Pte.permits entry kind mode c then .error (.page kind addr)
      else if !paging.isAligned (paging.entryPage entry) level then .error (.page kind addr)
      else
        let mask := paging.offsetMask level
        let touched := Pte.touch entry kind
        .ok {
          paddr := ((paging.entryPage entry <<< pageShift) &&& ~~~mask) ||| (addr &&& mask)
          leaf := entry
          leafAddr := entryAddr
          update := if touched = entry then none else some touched }

def run (ram : Ram) (c : CsrFile) (addr : UInt64) (kind : AccessKind) (mode : Privilege) :
    Except MemFault Walk :=
  if c.pagingMode.isCanonical addr then
    descend ram c addr kind mode c.pagingMode.levels (c.rootPage <<< pageShift)
  else .error (.page kind addr)

end Walk

end RiscvBoard
