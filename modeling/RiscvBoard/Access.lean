import RiscvBoard.Hex

/-!
Memory accesses: what an access is for, how many bytes it moves, and how it can fail.
-/

set_option autoImplicit false

namespace RiscvBoard

/-- What a memory access is for. Permission checks and fault reporting both depend on it. -/
inductive AccessKind where
  | fetch
  | load
  | store
  deriving DecidableEq, Hashable, Repr

def AccessKind.name : AccessKind → String
  | fetch => "Fetch"
  | load => "Load"
  | store => "Store"

inductive Width where
  | byte
  | half
  | word
  | double
  deriving DecidableEq, Repr

namespace Width

def bytes : Width → Nat
  | byte => 1
  | half => 2
  | word => 4
  | double => 8

def mask : Width → UInt64
  | byte => 0xff
  | half => 0xffff
  | word => 0xffffffff
  | double => 0xffffffffffffffff

def truncate (w : Width) (value : UInt64) : UInt64 :=
  value &&& w.mask

end Width

/-- Why a memory access failed. -/
inductive MemFault where
  /-- No memory and no device answers at the physical address. -/
  | outOfRange (addr : UInt64)
  /-- The access reached a physical address that does not take it. -/
  | access (kind : AccessKind) (addr : UInt64)
  /-- The page tables do not permit the access. -/
  | page (kind : AccessKind) (addr : UInt64)
  deriving DecidableEq, Repr

def MemFault.message : MemFault → String
  | outOfRange addr => "address out of range: " ++ Hex.text addr.toNat
  | access kind addr => kind.name ++ " access fault at " ++ Hex.text addr.toNat
  | page kind addr => kind.name ++ " page fault at " ++ Hex.text addr.toNat

end RiscvBoard
