import RiscvBoard.Machine.Basic

/-!
Loads and stores at virtual addresses. An access that crosses into the next page is translated for
both pages before any byte moves, and a store lands in full or not at all.
-/

set_option autoImplicit false

namespace RiscvBoard.Machine

def translate (vaddr : UInt64) (kind : AccessKind) : Access UInt64 := fun m =>
  let plan := m.mmu.plan m.bus.ram m.hart.csrs vaddr kind
  let m := { m with
    mmu := m.mmu.afterPlan m.hart.csrs kind plan
    bus := { m.bus with ram := Mmu.updateLeaf m.bus.ram m.hart.csrs plan } }
  match plan.result with
  | .ok paddr => .ok paddr m
  | .error f => .error f m

/-- The physical bytes of an access: one range, or the end of one page and the start of another. -/
structure Span where
  /-- The physical address of the first byte. -/
  first : UInt64
  /-- The physical start of the next page and the number of bytes before it, if it is reached. -/
  next : Option (UInt64 × Nat)
  deriving DecidableEq

def Span.byteAddr (s : Span) (i : Nat) : UInt64 :=
  match s.next with
  | none => s.first + i.toUInt64
  | some (second, split) =>
    if i < split then s.first + i.toUInt64 else second + (i - split).toUInt64

def nextPage (xlen : Xlen) (vaddr : UInt64) : UInt64 :=
  xlen.truncate ((vaddr ||| 0xfff) + 1)

def translateSpan (vaddr : UInt64) (w : Width) (kind : AccessKind) : Access Span := do
  let offset := (pageOffset vaddr).toNat
  let first ← translate vaddr kind
  if offset + w.bytes ≤ pageSize then return ⟨first, none⟩
  let xlen := (← get).xlen
  let second ← translate (nextPage xlen vaddr) kind
  return ⟨first, some (second, pageSize - offset)⟩

/-- Loads at a physical address; a miss is reported at the virtual one. -/
def loadPhys (paddr vaddr : UInt64) (w : Width) (kind : AccessKind) : Access UInt64 := fun m =>
  match Bus.load paddr w m.bus with
  | .ok value bus => .ok value { m with bus := bus }
  | .error _ bus => .error (.access kind vaddr) { m with bus := bus }

/-- Ends the run if a nonzero value landed in the exit word. -/
def checkTohost (m : Machine) (paddr value : UInt64) : Machine :=
  if m.tohost = some paddr ∧ value ≠ 0 then { m with exitCode := some value } else m

def storeBus (paddr vaddr : UInt64) (w : Width) (value : UInt64) : Access Unit := fun m =>
  match Bus.store paddr w value m.bus with
  | .ok _ bus => .ok () { m with bus := bus }
  | .error _ bus => .error (.access .store vaddr) { m with bus := bus }

/-- Stores at a physical address, which ends the run if it is that of the exit word. -/
def storePhys (paddr vaddr : UInt64) (w : Width) (value : UInt64) : Access Unit := do
  storeBus paddr vaddr w (w.truncate value)
  modify fun m => m.checkTohost paddr (w.truncate value)

/-- Loads the bytes of a split access below the `i`-th, the last one first. -/
def loadBytes (s : Span) (vaddr : UInt64) : Nat → UInt64 → Access UInt64
  | 0, value => return value
  | i + 1, value => do
    let byte ← loadPhys (s.byteAddr i) vaddr .byte .load
    loadBytes s vaddr i ((value <<< 8) ||| byte)

def load (vaddr : UInt64) (w : Width) : Access UInt64 := do
  let vaddr := (← get).xlen.truncate vaddr
  let span ← translateSpan vaddr w .load
  match span.next with
  | none => loadPhys span.first vaddr w .load
  | some _ => loadBytes span vaddr w.bytes 0

def acceptsBytes (m : Machine) (s : Span) (n : Nat) : Bool :=
  (List.range n).all fun i => m.bus.acceptsStore (s.byteAddr i) .byte

def storeBytes (s : Span) (vaddr value : UInt64) (i : Nat) : Nat → Access Unit
  | 0 => return
  | n + 1 => do
    storeBus (s.byteAddr i) vaddr .byte ((value >>> (8 * i).toUInt64) &&& 0xff)
    storeBytes s vaddr value (i + 1) n

/-- Stores a value across two pages. No byte is stored unless every byte can be. -/
def storeSplit (s : Span) (vaddr : UInt64) (w : Width) (value : UInt64) : Access Unit := do
  if (← get).acceptsBytes s w.bytes then
    storeBytes s vaddr value 0 w.bytes
    modify fun m => m.checkTohost s.first (w.truncate value)
  else throw (.access .store vaddr)

def store (vaddr : UInt64) (w : Width) (value : UInt64) : Access Unit := do
  let vaddr := (← get).xlen.truncate vaddr
  let span ← translateSpan vaddr w .store
  match span.next with
  | none => storePhys span.first vaddr w value
  | some _ => storeSplit span vaddr w value

end RiscvBoard.Machine
