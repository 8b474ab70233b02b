import RiscvBoard.Access
import RiscvBoard.Privilege
import Std.Data.HashMap

/-!
The page cache: a bounded map from page, access kind and privilege to a page and its
permissions. When it is full it is emptied before the next insertion.
-/

set_option autoImplicit false

namespace RiscvBoard

/-- What a page is remembered for. The access kind is part of it, so that a page cached for
loads never lets a store skip the walk that marks it dirty. -/
structure CacheKey where
  page : UInt64
  kind : AccessKind
  mode : Privilege
  deriving DecidableEq, Hashable

structure CacheEntry where
  /-- The physical number of the small page; larger pages are split. -/
  page : UInt64
  /-- The permission bits of the leaf, to be checked again on each use. -/
  perms : UInt8
  deriving DecidableEq

structure PageCache where
  entries : Std.HashMap CacheKey CacheEntry
  hits : UInt64
  misses : UInt64

namespace PageCache

/-- The number of entries at which the cache is emptied. -/
def capacity : Nat := 4096

def empty : PageCache :=
  ⟨∅, 0, 0⟩

def size (t : PageCache) : Nat :=
  t.entries.size

def find? (t : PageCache) (key : CacheKey) : Option CacheEntry :=
  t.entries[key]?

def count (t : PageCache) (hit : Bool) : PageCache :=
  if hit then { t with hits := t.hits + 1 } else { t with misses := t.misses + 1 }

def lookup (t : PageCache) (key : CacheKey) : Option CacheEntry × PageCache :=
  let found := t.find? key
  (found, t.count found.isSome)

def insert (t : PageCache) (key : CacheKey) (entry : CacheEntry) : PageCache :=
  let entries := if t.size ≥ capacity then ∅ else t.entries
  { t with entries := entries.insert key entry }

/-- Forgets every entry, but not the statistics. -/
def flush (t : PageCache) : PageCache :=
  { t with entries := ∅ }

end PageCache

end RiscvBoard
