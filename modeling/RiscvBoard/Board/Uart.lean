import RiscvBoard.Board.Fifo

/-!
A serial line (UART) with the registers that a console driver uses. Bytes that the guest transmits
wait in the output queue for the host; bytes from the host wait in the input queue for the guest.
The transmitter is always ready.
-/

set_option autoImplicit false

namespace RiscvBoard

structure Uart where
  input : Fifo
  output : Fifo
  ier : UInt8
  lcr : UInt8
  mcr : UInt8
  scr : UInt8
  fcr : UInt8
  divisor : UInt16
  /-- Set when the transmitter became empty and the guest has not yet been told. -/
  thrEmptyPending : Bool

namespace Uart

def reset : Uart :=
  ⟨.empty, .empty, 0, 0, 0, 0, 0, 0, false⟩

def pushInput (u : Uart) (b : UInt8) : Uart :=
  { u with input := u.input.push b }

def nextOutput (u : Uart) : UInt8 :=
  u.output.head?.getD 0

def dropOutput (u : Uart) : Uart :=
  { u with output := u.output.tail }

/-- The transmitted bytes up to the first zero byte, which ends a reading of the queue. -/
def pendingText (u : Uart) : List UInt8 :=
  u.output.toList.takeWhile fun b => b != 0

/-- Removes the transmitted bytes up to the first zero byte, and that byte. -/
def dropPendingText (u : Uart) : Uart :=
  { u with output := ⟨(u.output.toList.dropWhile fun b => b != 0).tail, []⟩ }

def hasOutput (u : Uart) : Bool :=
  !u.output.isEmpty

def divisorAccess (u : Uart) : Bool :=
  u.lcr &&& 0x80 != 0

/-- The line status: the transmitter is empty, and input may be ready. -/
def lineStatus (u : Uart) : UInt8 :=
  if u.input.isEmpty then 0x60 else 0x61

def receiveInterrupt (u : Uart) : Bool :=
  u.ier &&& 0x01 != 0 && !u.input.isEmpty

def transmitInterrupt (u : Uart) : Bool :=
  u.ier &&& 0x02 != 0 && u.thrEmptyPending

/-- The interrupt identification: received bytes come first. -/
def interruptId (u : Uart) : UInt8 :=
  let fifo : UInt8 := if u.fcr &&& 1 != 0 then 0xc0 else 0
  let id : UInt8 :=
    if u.receiveInterrupt then 0x04 else if u.transmitInterrupt then 0x02 else 0x01
  fifo ||| id

def interrupting (u : Uart) : Bool :=
  u.interruptId &&& 1 == 0

def peek (u : Uart) (offset : UInt64) : UInt8 :=
  match offset.toNat with
  | 0 => if u.divisorAccess then u.divisor.toUInt8 else u.input.head?.getD 0
  | 1 => if u.divisorAccess then (u.divisor >>> 8).toUInt8 else u.ier
  | 2 => u.interruptId
  | 3 => u.lcr
  | 4 => u.mcr
  | 5 => u.lineStatus
  | 6 => 0xb0
  | 7 => u.scr
  | _ => 0

/-- What a load of a register returns: the received byte that it takes from the queue, the interrupt
identification that it reports, or what the register shows. -/
def loaded (u : Uart) (offset : UInt64) : UInt8 :=
  match offset.toNat with
  | 0 => if u.divisorAccess then u.peek offset else u.input.head?.getD 0
  | 2 => u.interruptId
  | _ => u.peek offset

/-- The serial line after a register was read: a received byte leaves the queue, and reporting the
empty transmitter ends its interrupt. -/
def afterLoad (u : Uart) (offset : UInt64) : Uart :=
  match offset.toNat with
  | 0 => if u.divisorAccess then u else { u with input := u.input.tail }
  | 2 => if u.interruptId &&& 0x0f = 0x02 then { u with thrEmptyPending := false } else u
  | _ => u

def store (u : Uart) (offset : UInt64) (value : UInt8) : Uart :=
  match offset.toNat with
  | 0 =>
    if u.divisorAccess then { u with divisor := (u.divisor &&& 0xff00) ||| value.toUInt16 }
    else { u with output := u.output.push value, thrEmptyPending := true }
  | 1 =>
    if u.divisorAccess then
      { u with divisor := (u.divisor &&& (0x00ff : UInt16)) ||| (value.toUInt16 <<< 8) }
    else
      let rises := value &&& 0x02 != 0 && u.ier &&& 0x02 == 0
      { u with ier := value &&& 0x0f, thrEmptyPending := u.thrEmptyPending || rises }
  | 2 =>
    let input := if value &&& 0x02 != 0 then .empty else u.input
    { u with fcr := value, input := input }
  | 3 => { u with lcr := value }
  | 4 => { u with mcr := value }
  | 7 => { u with scr := value }
  | _ => u

end Uart

end RiscvBoard
