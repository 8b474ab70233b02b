import RiscvBoard.Board.Field
import RiscvBoard.Ram

/-!
A block device with one request queue in guest memory. The driver notifies the device after adding
requests; a fixed number of clocks later the device works through every request made available since
the last time, moves sectors between the disk image and guest memory, and reports each request as
used.

The queue has three parts, one after the other from `queueBase` on: the descriptor table (sixteen
bytes each: address, length, flags, next), the available ring (flags, index, heads), and, rounded up
to the queue's alignment, the used ring (flags, index, pairs of head and length).
-/

set_option autoImplicit false

namespace RiscvBoard

structure Descriptor where
  addr : UInt64
  len : UInt32
  flags : UInt16
  next : UInt16
  deriving DecidableEq, Repr

namespace Descriptor

def hasNext (d : Descriptor) : Bool :=
  d.flags &&& 1 != 0

def deviceWritable (d : Descriptor) : Bool :=
  d.flags &&& 2 != 0

end Descriptor

inductive RequestStatus where
  | ok
  | ioError
  | unsupported
  deriving DecidableEq, Repr

def RequestStatus.code : RequestStatus → UInt8
  | ok => 0
  | ioError => 1
  | unsupported => 2

structure VirtioBlock where
  disk : ByteArray
  clock : UInt64
  deviceFeaturesSel : UInt32
  driverFeatures : UInt32
  driverFeaturesSel : UInt32
  guestPageSize : UInt32
  queueSel : UInt32
  queueNum : UInt32
  queueAlign : UInt32
  queuePage : UInt32
  interruptStatus : UInt32
  status : UInt32
  /-- The available ring index up to which requests were taken. -/
  lastAvail : UInt16
  /-- The used ring index after the last report. -/
  usedIndex : UInt16
  /-- The clocks at which the driver notified, oldest first. -/
  notifications : List UInt64

namespace VirtioBlock

def sectorSize : UInt64 := 512

def queueNumMax : UInt32 := 0x2000

/-- The number of clocks between a notification and its service. -/
def accessDelay : UInt64 := 500

def ofDisk (disk : ByteArray) : VirtioBlock where
  disk := disk
  clock := 0
  deviceFeaturesSel := 0
  driverFeatures := 0
  driverFeaturesSel := 0
  guestPageSize := 0
  queueSel := 0
  queueNum := 0
  queueAlign := 0x1000
  queuePage := 0
  interruptStatus := 0
  status := 0
  lastAvail := 0
  usedIndex := 0
  notifications := []

def attach (d : VirtioBlock) (disk : ByteArray) : VirtioBlock :=
  { d with disk := disk }

def capacity (d : VirtioBlock) : UInt64 :=
  d.disk.size.toUInt64 / sectorSize

def interrupting (d : VirtioBlock) : Bool :=
  d.interruptStatus &&& 1 != 0

/-- Forgets everything except the disk and the clock. -/
def reset (d : VirtioBlock) : VirtioBlock :=
  { ofDisk d.disk with clock := d.clock }

inductive Register where
  | deviceFeaturesSel
  | driverFeatures
  | driverFeaturesSel
  | guestPageSize
  | queueSel
  | queueNum
  | queueAlign
  | queuePage
  | queueNotify
  | interruptStatus
  | interruptAck
  | status
  | capacityLow
  | capacityHigh
  /-- A register that always shows the same value. -/
  | constant (value : UInt32)
  deriving DecidableEq

def Register.at (aligned : UInt64) : Register :=
  match aligned.toNat with
  | 0x000 => .constant 0x74726976
  | 0x004 => .constant 1
  | 0x008 => .constant 2
  | 0x00c => .constant 0x554d4551
  | 0x014 => .deviceFeaturesSel
  | 0x020 => .driverFeatures
  | 0x024 => .driverFeaturesSel
  | 0x028 => .guestPageSize
  | 0x030 => .queueSel
  | 0x034 => .constant queueNumMax
  | 0x038 => .queueNum
  | 0x03c => .queueAlign
  | 0x040 => .queuePage
  | 0x050 => .queueNotify
  | 0x060 => .interruptStatus
  | 0x064 => .interruptAck
  | 0x070 => .status
  | 0x100 => .capacityLow
  | 0x104 => .capacityHigh
  | _ => .constant 0

/-- The word that a register shows; the driver's own settings are write-only. -/
def wordAt (d : VirtioBlock) : Register → UInt64
  | .constant value => value.toUInt64
  | .queuePage => d.queuePage.toUInt64
  | .interruptStatus => d.interruptStatus.toUInt64
  | .status => d.status.toUInt64
  | .capacityLow => d.capacity &&& 0xffffffff
  | .capacityHigh => d.capacity >>> 32
  | _ => 0

def load (d : VirtioBlock) (offset : UInt64) (w : Width) : UInt64 :=
  readField (d.wordAt (Register.at (offset &&& ~~~3))) (offset &&& 3) w

/-- Writes a register. Notifications count only while the first queue is selected, and a zero status
resets the device. -/
def store (d : VirtioBlock) (offset : UInt64) (w : Width) (value : UInt64) : VirtioBlock :=
  let merge (old : UInt32) : UInt32 := (writeField old.toUInt64 (offset &&& 3) w value).toUInt32
  match Register.at (offset &&& ~~~3) with
  | .deviceFeaturesSel => { d with deviceFeaturesSel := merge d.deviceFeaturesSel }
  | .driverFeatures => { d with driverFeatures := merge d.driverFeatures }
  | .driverFeaturesSel => { d with driverFeaturesSel := merge d.driverFeaturesSel }
  | .guestPageSize => { d with guestPageSize := merge d.guestPageSize }
  | .queueSel => { d with queueSel := merge d.queueSel }
  | .queueNum => { d with queueNum := min (merge d.queueNum) queueNumMax }
  | .queueAlign => { d with queueAlign := merge d.queueAlign }
  | .queuePage => { d with queuePage := merge d.queuePage }
  | .queueNotify =>
    if d.queueSel = 0 then { d with notifications := d.notifications ++ [d.clock] } else d
  | .interruptAck => { d with interruptStatus := d.interruptStatus &&& ~~~value.toUInt32 }
  | .status =>
    let d := { d with status := merge d.status }
    if d.status = 0 then d.reset else d
  | .interruptStatus | .capacityLow | .capacityHigh | .constant _ => d

def queueBase (d : VirtioBlock) : UInt64 :=
  d.queuePage.toUInt64 * d.guestPageSize.toUInt64

def availBase (d : VirtioBlock) : UInt64 :=
  d.queueBase + d.queueNum.toUInt64 * 16

def availEnd (d : VirtioBlock) : UInt64 :=
  d.availBase + 4 + d.queueNum.toUInt64 * 2

/-- The address of the used ring: the next multiple of the alignment. -/
def usedBase (d : VirtioBlock) : UInt64 :=
  let align := max d.queueAlign.toUInt64 1
  let quotient := d.availEnd / align
  (if d.availEnd % align = 0 then quotient else quotient + 1) * align

def descriptorAddr (d : VirtioBlock) (index : UInt16) : UInt64 :=
  d.queueBase + 16 * index.toUInt64

def availSlot (d : VirtioBlock) (index : UInt16) : UInt64 :=
  d.availBase + 4 + 2 * (index % d.queueNum.toUInt16).toUInt64

def usedSlot (d : VirtioBlock) (index : UInt16) : UInt64 :=
  d.usedBase + 4 + 8 * (index % d.queueNum.toUInt16).toUInt64

def readDescriptor (d : VirtioBlock) (ram : Ram) (index : UInt16) : Except MemFault Descriptor := do
  let entry := d.descriptorAddr index
  let addr ← ram.load entry .double
  let len ← ram.load (entry + 8) .word
  let flags ← ram.load (entry + 12) .half
  let next ← ram.load (entry + 14) .half
  return ⟨addr, len.toUInt32, flags.toUInt16, next.toUInt16⟩

/-- The descriptors of a chain from an index on, at most `n` of them. -/
def readChain (d : VirtioBlock) (ram : Ram) : Nat → UInt16 → Except MemFault (List Descriptor)
  | 0, _ => return []
  | n + 1, index => do
    let desc ← d.readDescriptor ram index
    if desc.hasNext then
      return desc :: (← d.readChain ram n (desc.next % d.queueNum.toUInt16))
    else return [desc]

/-- What a request works on: the disk and guest memory. -/
structure Storage where
  disk : ByteArray
  ram : Ram

def Storage.load (addr : UInt64) (w : Width) : EStateM MemFault Storage UInt64 := fun s =>
  match s.ram.load addr w with
  | .ok value => .ok value s
  | .error e => .error e s

def Storage.store (addr : UInt64) (w : Width) (value : UInt64) : EStateM MemFault Storage Unit :=
  fun s =>
    if s.ram.contains addr w.bytes then .ok () { s with ram := s.ram.write addr w value }
    else .error (.outOfRange addr) s

inductive RequestKind where
  /-- From the disk into guest memory. -/
  | input
  /-- From guest memory onto the disk. -/
  | output
  deriving DecidableEq, Repr

def RequestKind.ofCode? (code : UInt32) : Option RequestKind :=
  if code = 0 then some .input else if code = 1 then some .output else none

/-- Moves one buffer between the disk, from a byte position on, and guest memory. -/
def transfer (kind : RequestKind) (position : UInt64) (desc : Descriptor) :
    EStateM MemFault Storage Unit := fun s =>
  let n := desc.len.toNat
  match kind with
  | .input =>
    if s.ram.contains desc.addr n then
      let block := s.disk.extract position.toNat (position.toNat + n)
      .ok () { s with ram := s.ram.blit desc.addr block }
    else .error (.outOfRange desc.addr) s
  | .output =>
    if s.ram.contains desc.addr n then
      let block := s.ram.bytes.extract (Ram.offset desc.addr) (Ram.offset desc.addr + n)
      .ok () { s with disk := block.copySlice 0 s.disk position.toNat n }
    else .error (.outOfRange desc.addr) s

def RequestKind.matches (kind : RequestKind) (desc : Descriptor) : Bool :=
  match kind with
  | .input => desc.deviceWritable
  | .output => !desc.deviceWritable

/-- The sum of two lengths, at most the largest length. -/
def addLength (a b : UInt32) : UInt32 :=
  if a.toNat + b.toNat < UInt32.size then a + b else 0xffffffff

/-- Moves the data buffers of a request one after the other; answers with the outcome and the number
of bytes written into guest memory. A buffer that leaves the disk, or that faces the wrong way, ends
the request. -/
def transferAll (kind : Option RequestKind) :
    List Descriptor → UInt64 → UInt32 → EStateM MemFault Storage (RequestStatus × UInt32)
  | [], _, written => pure (.ok, written)
  | desc :: rest, position, written => do
    let inside := position.toNat + desc.len.toNat ≤ (← get).disk.size
    if !inside then return (.ioError, written)
    match kind with
    | none => return (.unsupported, written)
    | some kind =>
      if !kind.matches desc then return (.unsupported, written)
      transfer kind position desc
      let written :=
        match kind with
        | .input => addLength written desc.len
        | .output => written
      transferAll (some kind) rest (position + desc.len.toUInt64) written

/-- The byte position of a sector, at most the largest number. -/
def sectorPosition (sector : UInt64) : UInt64 :=
  if sector.toNat * sectorSize.toNat < UInt64.size then sector * sectorSize else 0xffffffffffffffff

/-- Carries out the request that a chain describes: a header with the kind and the sector, data
buffers, and a status byte. Answers with the number of bytes written into guest memory. -/
def serve (chain : List Descriptor) : EStateM MemFault Storage UInt32 := do
  match chain with
  | [] | [_] => return 0
  | header :: second :: rest =>
    let last := (second :: rest).getLast (by simp)
    let data := (second :: rest).dropLast
    let code ← Storage.load header.addr .word
    let sector ← Storage.load (header.addr + 8) .double
    let (status, written) ←
      transferAll (RequestKind.ofCode? code.toUInt32) data (sectorPosition sector) 0
    Storage.store last.addr .byte status.code.toUInt64
    return addLength written 1

structure Dma where
  device : VirtioBlock
  ram : Ram

def processChain (head : UInt16) : EStateM MemFault Dma UInt32 := fun s =>
  match s.device.readChain s.ram s.device.queueNum.toNat head with
  | .error e => .error e s
  | .ok chain =>
    let { device, ram } := s
    match serve chain ⟨device.disk, ram⟩ with
    | .ok written ⟨disk, ram⟩ => .ok written ⟨{ device with disk := disk }, ram⟩
    | .error e ⟨disk, ram⟩ => .error e ⟨{ device with disk := disk }, ram⟩

def Dma.store (addr : UInt64) (w : Width) (value : UInt64) : EStateM MemFault Dma Unit := fun s =>
  if s.ram.contains addr w.bytes then .ok () { s with ram := s.ram.write addr w value }
  else .error (.outOfRange addr) s

/-- Reports a request as used: the slot first, then the ring index. -/
def pushUsed (head : UInt16) (len : UInt32) : EStateM MemFault Dma Unit := do
  let device := (← get).device
  let slot := device.usedSlot device.usedIndex
  Dma.store slot .word head.toUInt64
  Dma.store (slot + 4) .word len.toUInt64
  modify fun s => { s with device := { s.device with usedIndex := s.device.usedIndex + 1 } }
  Dma.store (device.usedBase + 2) .half (device.usedIndex + 1).toUInt64

def processNext : EStateM MemFault Dma (UInt16 × UInt32) := do
  let s ← get
  match s.ram.load (s.device.availSlot s.device.lastAvail) .half with
  | .error e => throw e
  | .ok head =>
    let written ← processChain (head.toUInt16 % s.device.queueNum.toUInt16)
    return (head.toUInt16, written)

/-- Works through `n` available requests. A malformed request is dropped; a used ring that cannot be
written ends the work, which the answer `false` tells. -/
def processAll : Nat → Dma → Bool × Dma
  | 0, s => (true, s)
  | n + 1, s =>
    let next (s : Dma) : Dma :=
      { s with device := { s.device with lastAvail := s.device.lastAvail + 1 } }
    match processNext s with
    | .error _ s => processAll n (next s)
    | .ok (head, len) s =>
      match pushUsed head len s with
      | .error _ s => (false, s)
      | .ok _ s => processAll n (next s)

/-- Works through every request made available since the last time, and raises the interrupt. -/
def processQueue (s : Dma) : Dma :=
  if s.device.queueNum = 0 ∨ s.device.guestPageSize = 0 then s
  else
    match s.ram.load (s.device.availBase + 2) .half with
    | .error _ => s
    | .ok index =>
      match processAll (index.toUInt16 - s.device.lastAvail).toNat s with
      | (false, s) => s
      | (true, s) =>
        { s with device := { s.device with interruptStatus := s.device.interruptStatus ||| 1 } }

/-- Advances the clock by one, and serves the oldest notification when its time has come. -/
def tick (s : Dma) : Dma :=
  let s := { s with device := { s.device with clock := s.device.clock + 1 } }
  match s.device.notifications with
  | [] => s
  | first :: rest =>
    if s.device.clock - first ≥ accessDelay then
      processQueue { s with device := { s.device with notifications := rest } }
    else s

end VirtioBlock

end RiscvBoard
