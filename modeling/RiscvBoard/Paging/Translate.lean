import RiscvBoard.Paging.Cache
import RiscvBoard.Paging.Walk

/-!
How virtual addresses are translated: the walk, the update of the leaf it used, and the cache in
front of both.
-/

set_option autoImplicit false

namespace RiscvBoard

/-- The paging unit: its cache, and whether the cache is in use. -/
structure Mmu where
  cache : PageCache
  cacheEnabled : Bool

namespace Mmu

def reset : Mmu :=
  ⟨.empty, false⟩

/-- Switches the cache on or off; either way it is emptied. -/
def setCacheEnabled (u : Mmu) (on : Bool) : Mmu :=
  ⟨u.cache.flush, on⟩

def flush (u : Mmu) : Mmu :=
  { u with cache := u.cache.flush }

def isTranslated (c : CsrFile) (kind : AccessKind) : Bool :=
  c.effectivePrivilege kind != .machine && c.pagingMode != .bare

/-- What an access needs from the page tables, before anything is changed. -/
inductive Plan where
  /-- The physical address is the virtual one. -/
  | identity (addr : UInt64)
  /-- The cache answers. -/
  | cached (result : Except MemFault UInt64)
  /-- The page tables were walked. -/
  | walked (addr : UInt64) (result : Except MemFault Walk)

def cacheKey (c : CsrFile) (addr : UInt64) (kind : AccessKind) : CacheKey :=
  ⟨addr >>> pageShift, kind, c.effectivePrivilege kind⟩

/-- The answer of a cache entry: its permissions are checked again. -/
def cachedAddr (c : CsrFile) (addr : UInt64) (kind : AccessKind) (entry : CacheEntry) :
    Except MemFault UInt64 :=
  if Pte.permits entry.perms.toUInt64 kind (c.effectivePrivilege kind) c then
    .ok ((entry.page <<< pageShift) ||| pageOffset addr)
  else .error (.page kind addr)

def entryOf (w : Walk) : CacheEntry :=
  ⟨w.paddr >>> pageShift, (w.update.getD w.leaf).toUInt8⟩

def cached? (u : Mmu) (c : CsrFile) (addr : UInt64) (kind : AccessKind) : Option CacheEntry :=
  if u.cacheEnabled then u.cache.find? (cacheKey c addr kind) else none

def plan (u : Mmu) (ram : Ram) (c : CsrFile) (vaddr : UInt64) (kind : AccessKind) : Plan :=
  let addr := c.xlen.truncate vaddr
  if isTranslated c kind then
    match u.cached? c addr kind with
    | some entry => .cached (cachedAddr c addr kind entry)
    | none => .walked addr (Walk.run ram c addr kind (c.effectivePrivilege kind))
  else .identity addr

def Plan.result : Plan → Except MemFault UInt64
  | .identity addr => .ok addr
  | .cached result => result
  | .walked _ result => result.map Walk.paddr

/-- The unit after an access with the given plan: uses of the cache are counted, and a walk that
succeeded is remembered. -/
def afterPlan (u : Mmu) (c : CsrFile) (kind : AccessKind) : Plan → Mmu
  | .identity _ => u
  | .cached _ => { u with cache := u.cache.count true }
  | .walked addr result =>
    if u.cacheEnabled then
      let cache := u.cache.count false
      match result with
      | .ok w => { u with cache := cache.insert (cacheKey c addr kind) (entryOf w) }
      | .error _ => { u with cache := cache }
    else u

/-- Memory after an access with the given plan: a leaf that lacks its accessed or dirty bit gets
it. -/
def updateLeaf (ram : Ram) (c : CsrFile) : Plan → Ram
  | .walked _ (.ok w) =>
    match w.update with
    | some touched => ram.write w.leafAddr c.pagingMode.entryWidth touched
    | none => ram
  | _ => ram

/-- Translates an address for an access, and sets the bits that the access has to set in the page
table. -/
def translate (u : Mmu) (ram : Ram) (c : CsrFile) (vaddr : UInt64) (kind : AccessKind) :
    Except MemFault UInt64 × Mmu × Ram :=
  let plan := u.plan ram c vaddr kind
  (plan.result, u.afterPlan c kind plan, updateLeaf ram c plan)

/-- Translates an address without any effect on the page tables or the cache. -/
def probe (ram : Ram) (c : CsrFile) (vaddr : UInt64) (kind : AccessKind) :
    Except MemFault UInt64 :=
  let addr := c.xlen.truncate vaddr
  if isTranslated c kind then
    (Walk.run ram c addr kind (c.effectivePrivilege kind)).map Walk.paddr
  else .ok addr

end Mmu

end RiscvBoard
