/-!
The physical address map: the windows of the devices below guest memory.
-/

set_option autoImplicit false

namespace RiscvBoard

inductive Device where
  /-- The read-only description of the hardware. -/
  | deviceTree
  | clint
  | plic
  | uart
  | virtio
  deriving DecidableEq, Repr

namespace Device

def base : Device → UInt64
  | deviceTree => 0x1020
  | clint => 0x2000000
  | plic => 0xc000000
  | uart => 0x10000000
  | virtio => 0x10001000

def windowSize : Device → UInt64
  | deviceTree => 0xfe0
  | clint => 0x10000
  | plic => 0x4000000
  | uart => 0x100
  | virtio => 0x1000

def all : List Device :=
  [deviceTree, clint, plic, uart, virtio]

def covers (d : Device) (addr : UInt64) : Bool :=
  d.base ≤ addr && addr - d.base < d.windowSize

/-- The device whose window holds an address, with the offset into the window. -/
def find? (addr : UInt64) : Option (Device × UInt64) :=
  (all.find? fun d => d.covers addr).map fun d => (d, addr - d.base)

end Device

end RiscvBoard
