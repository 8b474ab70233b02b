import RiscvBoard.Board.Clint
import RiscvBoard.Board.Plic
import RiscvBoard.Board.Uart
import RiscvBoard.Board.VirtioBlock
import RiscvBoard.Board.Windows
import RiscvBoard.Csr.File

/-!
The physical address space: guest memory and the devices. An access goes to memory or to one device
as a whole, or it fails as out of range.
-/

set_option autoImplicit false

namespace RiscvBoard

/-- Guest memory and the devices of the board. -/
structure Bus where
  ram : Ram
  deviceTree : ByteArray
  clint : Clint
  plic : Plic
  uart : Uart
  virtio : VirtioBlock

namespace Bus

def reset (ramSize : Nat) : Bus where
  ram := Ram.zeros ramSize
  deviceTree := ByteArray.empty
  clint := Clint.reset
  plic := Plic.reset
  uart := Uart.reset
  virtio := VirtioBlock.ofDisk ByteArray.empty

/-- The device whose window holds an access as a whole, with the offset into the window. -/
def device? (addr : UInt64) (w : Width) : Option (Device × UInt64) :=
  match Device.find? addr with
  | some (d, offset) =>
    if offset.toNat + w.bytes ≤ d.windowSize.toNat then some (d, offset) else none
  | none => none

/-- The little-endian number in `n` bytes of the hardware description from a position on, with zeros
after its end. -/
def deviceTreeAt (tree : ByteArray) (i : Nat) : Nat → UInt64
  | 0 => 0
  | n + 1 => ((tree[i]?).getD 0).toUInt64 ||| (deviceTreeAt tree (i + 1) n <<< 8)

def peekDevice (b : Bus) (offset : UInt64) (w : Width) : Device → UInt64
  | .deviceTree => deviceTreeAt b.deviceTree offset.toNat w.bytes
  | .clint => b.clint.load offset w
  | .plic => b.plic.peek offset w
  | .uart => (b.uart.peek offset).toUInt64
  | .virtio => b.virtio.load offset w

def loadDevice (b : Bus) (offset : UInt64) (w : Width) : Device → UInt64
  | .deviceTree => deviceTreeAt b.deviceTree offset.toNat w.bytes
  | .clint => b.clint.load offset w
  | .plic => b.plic.loaded offset w
  | .uart => (b.uart.loaded offset).toUInt64
  | .virtio => b.virtio.load offset w

def afterLoad (b : Bus) (offset : UInt64) : Device → Bus
  | .plic => { b with plic := b.plic.afterLoad offset }
  | .uart => { b with uart := b.uart.afterLoad offset }
  | _ => b

/-- What a load would return, without its side effects. -/
def peek (b : Bus) (addr : UInt64) (w : Width) : Except MemFault UInt64 :=
  if b.ram.contains addr w.bytes then .ok (b.ram.read addr w)
  else
    match device? addr w with
    | some (d, offset) => .ok (b.peekDevice offset w d)
    | none => .error (.outOfRange addr)

/-- Loads a value. Only a load from a device changes the board. -/
def load (addr : UInt64) (w : Width) : EStateM MemFault Bus UInt64 := fun b =>
  if b.ram.contains addr w.bytes then .ok (b.ram.read addr w) b
  else
    match device? addr w with
    | some (d, offset) => .ok (b.loadDevice offset w d) (b.afterLoad offset d)
    | none => .error (.outOfRange addr) b

def acceptsStore (b : Bus) (addr : UInt64) (w : Width) : Bool :=
  b.ram.contains addr w.bytes ||
    match device? addr w with
    | some (d, _) => d != .deviceTree
    | none => false

def storeDevice (b : Bus) (offset : UInt64) (w : Width) (value : UInt64) : Device → Bus
  | .deviceTree => b
  | .clint => { b with clint := b.clint.store offset w value }
  | .plic => { b with plic := b.plic.store offset w value }
  | .uart => { b with uart := b.uart.store offset value.toUInt8 }
  | .virtio => { b with virtio := b.virtio.store offset w value }

/-- Stores a value. Memory comes before the devices, and the hardware description takes no stores.
-/
def store (addr : UInt64) (w : Width) (value : UInt64) : EStateM MemFault Bus Unit := fun b =>
  if b.ram.contains addr w.bytes then .ok () { b with ram := b.ram.write addr w value }
  else
    match device? addr w with
    | some (.deviceTree, _) | none => .error (.outOfRange addr) b
    | some (d, offset) => .ok () (b.storeDevice offset w value d)

def lines (b : Bus) : UInt32 :=
  (if b.uart.interrupting then 1 <<< Plic.uartSource else 0) |||
    (if b.virtio.interrupting then 1 <<< Plic.virtioSource else 0)

def tickVirtio (b : Bus) : Bus :=
  let { ram, deviceTree, clint, plic, uart, virtio } := b
  let ⟨virtio, ram⟩ := VirtioBlock.tick ⟨virtio, ram⟩
  { ram, deviceTree, clint, plic, uart, virtio }

def tick (b : Bus) : Bus :=
  let b := { b with clint := b.clint.tick }
  let b := b.tickVirtio
  { b with plic := b.plic.update b.lines }

/-- Shows the clock and the interrupt lines of the devices to the hart. -/
def drive (b : Bus) (c : CsrFile) : CsrFile :=
  let c := { c with time := b.clint.mtime }
  let c := c.setPending Interrupt.machineTimer.bit b.clint.timerPending
  let c := c.setPending Interrupt.machineSoftware.bit b.clint.softwarePending
  let c := c.setPending Interrupt.machineExternal.bit (b.plic.contextPending .machine)
  c.setPending Interrupt.supervisorExternal.bit (b.plic.contextPending .supervisor)

end Bus

end RiscvBoard
