import RiscvBoard.Board.Plic
import RiscvBoard.Board.Windows
import RiscvBoard.DeviceTree.Blob
import RiscvBoard.Hex
import RiscvBoard.Ram
import RiscvBoard.Xlen

/-!
The device tree of the board: memory, the hart with its interrupt controller, and the devices at
their addresses.
-/

set_option autoImplicit false

namespace RiscvBoard.DeviceTree

open Property

def hartHandle : UInt32 := 1

def plicHandle : UInt32 := 2

def nameAt (stem : String) (addr : UInt64) : String :=
  stem ++ "@" ++ Hex.digits addr.toNat

def chosenNode (bootargs : String) : Node :=
  ⟨"chosen", [text "bootargs" bootargs, text "stdout-path" "/soc/uart@10000000"], []⟩

def memoryNode (ramSize : UInt64) : Node :=
  ⟨nameAt "memory" Ram.base, [text "device_type" "memory", reg Ram.base ramSize], []⟩

def isaText : Xlen → String
  | .rv32 => "rv32imacsu"
  | .rv64 => "rv64imacsu"

def mmuText : Xlen → String
  | .rv32 => "riscv,sv32"
  | .rv64 => "riscv,sv39"

def cpusNode (xlen : Xlen) : Node :=
  ⟨"cpus",
    [cells "#address-cells" [1], cells "#size-cells" [0],
      cells "timebase-frequency" [10000000]],
    [⟨"cpu@0",
      [text "device_type" "cpu", cells "reg" [0], text "status" "okay",
        text "compatible" "riscv", text "riscv,isa" (isaText xlen),
        text "mmu-type" (mmuText xlen)],
      [⟨"interrupt-controller",
        [cells "#interrupt-cells" [1], empty "interrupt-controller",
          text "compatible" "riscv,cpu-intc", cells "phandle" [hartHandle]],
        []⟩]⟩]⟩

def uartNode : Node :=
  ⟨nameAt "uart" Device.uart.base,
    [cells "interrupts" [Plic.uartSource], cells "interrupt-parent" [plicHandle],
      cells "clock-frequency" [0x384000], reg Device.uart.base Device.uart.windowSize,
      text "compatible" "ns16550a"],
    []⟩

def virtioNode : Node :=
  ⟨nameAt "virtio_mmio" Device.virtio.base,
    [cells "interrupts" [Plic.virtioSource], cells "interrupt-parent" [plicHandle],
      reg Device.virtio.base Device.virtio.windowSize, text "compatible" "virtio,mmio"],
    []⟩

def plicNode : Node :=
  ⟨nameAt "plic" Device.plic.base,
    [cells "phandle" [plicHandle], cells "riscv,ndev" [31],
      reg Device.plic.base Device.plic.windowSize,
      cells "interrupts-extended" [hartHandle, 11, hartHandle, 9],
      empty "interrupt-controller",
      texts "compatible" ["sifive,plic-1.0.0", "riscv,plic0"],
      cells "#interrupt-cells" [1], cells "#address-cells" [0]],
    []⟩

def clintNode : Node :=
  ⟨nameAt "clint" Device.clint.base,
    [cells "interrupts-extended" [hartHandle, 3, hartHandle, 7],
      reg Device.clint.base Device.clint.windowSize,
      texts "compatible" ["sifive,clint0", "riscv,clint0"]],
    []⟩

def socNode : Node :=
  ⟨"soc",
    [cells "#address-cells" [2], cells "#size-cells" [2], text "compatible" "simple-bus",
      empty "ranges"],
    [uartNode, virtioNode, plicNode, clintNode]⟩

def boardTree (ramSize : UInt64) (xlen : Xlen) (bootargs : String) : Node :=
  ⟨"",
    [cells "#address-cells" [2], cells "#size-cells" [2], text "compatible" "riscv-virtio",
      text "model" "riscv-virtio,qemu"],
    [chosenNode bootargs, memoryNode ramSize, cpusNode xlen, socNode]⟩

def boardBlob (ramSize : UInt64) (xlen : Xlen) (bootargs : String) : ByteArray :=
  ⟨(boardTree ramSize xlen bootargs).flatten.toArray⟩

end RiscvBoard.DeviceTree
