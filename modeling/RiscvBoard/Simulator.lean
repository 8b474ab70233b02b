import RiscvBoard.DeviceTree.Board
import RiscvBoard.Elf.Load
import RiscvBoard.Machine.Inspect
import RiscvBoard.Machine.Run

/-!
A simulator: a machine that was booted from an image, together with the image's symbols.
-/

set_option autoImplicit false

namespace RiscvBoard

structure Settings where
  ramSize : Nat
  /-- The register width; taken from the image if it is not given. -/
  xlen : Option Xlen
  /-- Whether mapped pages are cached, which changes no result. -/
  pageCache : Bool
  bootargs : String
  deriving DecidableEq

namespace Settings

def mebibytes (n : Nat) : Nat :=
  n * 1024 * 1024

def deviceTree (settings : Settings) (xlen : Xlen) : ByteArray :=
  DeviceTree.boardBlob settings.ramSize.toUInt64 xlen settings.bootargs

def default : Settings :=
  ⟨mebibytes 128, none, true, "console=ttyS0 root=/dev/vda rw"⟩

end Settings

structure Simulator where
  machine : Machine
  symbols : SymbolTable

/-- A breakpoint that no program counter of a 32-bit hart can reach. -/
structure InvalidBreakpoint where
  addr : UInt64
  deriving DecidableEq, Repr

def InvalidBreakpoint.message (e : InvalidBreakpoint) : String :=
  "breakpoint " ++ Hex.text e.addr.toNat ++ " does not fit in a 32-bit address"

namespace Simulator

def checkDeviceTree (blob : ByteArray) : Except LoadError Unit :=
  let limit := Device.deviceTree.windowSize.toNat
  if blob.size > limit then .error (.deviceTreeTooLarge blob.size limit) else .ok ()

/-- The first argument of the guest: the number of the hart. -/
def hartIdReg : Reg := 10

/-- The second argument of the guest: the address of the hardware description. -/
def deviceTreeReg : Reg := 11

def ofLoaded (settings : Settings) (xlen : Xlen) (loaded : LoadedImage) (ram : Ram) : Simulator :=
  let m := Machine.reset 0 xlen
  let m := m.setPc (xlen.truncate loaded.entry)
  let m := (m.setReg hartIdReg 0).setReg deviceTreeReg Device.deviceTree.base
  { machine := { m with
      bus := { m.bus with ram := ram, deviceTree := settings.deviceTree xlen }
      mmu := m.mmu.setCacheEnabled settings.pageCache
      tohost := loaded.tohost }
    symbols := loaded.symbols }

section Booting

variable (reader : Elf.Reader) (settings : Settings) (image : ByteArray)

/-- The register width for an image: the wish of the settings, else what the image asks for. -/
def chooseXlen : Except LoadError Xlen :=
  match settings.xlen with
  | some xlen => .ok xlen
  | none => if Elf.hasMagic image then Elf.xlen reader image else .ok .rv64

def loadImage : EStateM LoadError Ram LoadedImage :=
  if Elf.hasMagic image then Elf.load reader image
  else do
    let entry ← loadFlat image
    return ⟨entry, ∅, none⟩

def boot : Except LoadError Simulator := do
  let xlen ← chooseXlen reader settings image
  match loadImage reader image (Ram.zeros settings.ramSize) with
  | .error e _ => throw e
  | .ok loaded ram =>
    checkDeviceTree (settings.deviceTree xlen)
    return ofLoaded settings xlen loaded ram

end Booting

def attachDisk (s : Simulator) (disk : ByteArray) : Simulator :=
  let m := s.machine
  { s with machine := { m with bus := { m.bus with virtio := m.bus.virtio.attach disk } } }

def attachDeviceTree (s : Simulator) (blob : ByteArray) : Except LoadError Simulator := do
  checkDeviceTree blob
  let m := s.machine
  return { s with machine := { m with bus := { m.bus with deviceTree := blob } } }

def checkBreakpoints (xlen : Xlen) (breakpoints : List UInt64) : Except InvalidBreakpoint Unit :=
  match xlen, breakpoints.find? fun addr => addr > 0xffffffff with
  | .rv32, some addr => .error ⟨addr⟩
  | _, _ => .ok ()

end Simulator

end RiscvBoard
