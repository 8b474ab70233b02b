/-!
The control and status registers and their numbers. Registers that come in banks carry an index.
-/

set_option autoImplicit false

namespace RiscvBoard

/-- A control or status register. The names with a trailing `h` are upper halves, which exist on
32-bit harts only. -/
inductive Csr where
  | sstatus | sie | stvec | scounteren | senvcfg
  | sscratch | sepc | scause | stval | sip | satp
  | mstatus | misa | medeleg | mideleg | mie | mtvec | mcounteren | menvcfg | mstatush
  | mcountinhibit
  | mhpmevent (index : Fin 29)
  | mscratch | mepc | mcause | mtval | mip
  | pmpcfg (index : Fin 16)
  | pmpaddr (index : Fin 64)
  | mcycle | minstret
  | mhpmcounter (index : Fin 29)
  | mcycleh | minstreth
  | mhpmcounterh (index : Fin 29)
  | cycle | time | instret
  | hpmcounter (index : Fin 29)
  | cycleh | timeh | instreth
  | hpmcounterh (index : Fin 29)
  | mvendorid | marchid | mimpid | mhartid | mconfigptr
  deriving DecidableEq, Repr

namespace Csr

def number : Csr → UInt16
  | sstatus => 0x100
  | sie => 0x104
  | stvec => 0x105
  | scounteren => 0x106
  | senvcfg => 0x10a
  | sscratch => 0x140
  | sepc => 0x141
  | scause => 0x142
  | stval => 0x143
  | sip => 0x144
  | satp => 0x180
  | mstatus => 0x300
  | misa => 0x301
  | medeleg => 0x302
  | mideleg => 0x303
  | mie => 0x304
  | mtvec => 0x305
  | mcounteren => 0x306
  | menvcfg => 0x30a
  | mstatush => 0x310
  | mcountinhibit => 0x320
  | mhpmevent index => 0x323 + index.val.toUInt16
  | mscratch => 0x340
  | mepc => 0x341
  | mcause => 0x342
  | mtval => 0x343
  | mip => 0x344
  | pmpcfg index => 0x3a0 + index.val.toUInt16
  | pmpaddr index => 0x3b0 + index.val.toUInt16
  | mcycle => 0xb00
  | minstret => 0xb02
  | mhpmcounter index => 0xb03 + index.val.toUInt16
  | mcycleh => 0xb80
  | minstreth => 0xb82
  | mhpmcounterh index => 0xb83 + index.val.toUInt16
  | cycle => 0xc00
  | time => 0xc01
  | instret => 0xc02
  | hpmcounter index => 0xc03 + index.val.toUInt16
  | cycleh => 0xc80
  | timeh => 0xc81
  | instreth => 0xc82
  | hpmcounterh index => 0xc83 + index.val.toUInt16
  | mvendorid => 0xf11
  | marchid => 0xf12
  | mimpid => 0xf13
  | mhartid => 0xf14
  | mconfigptr => 0xf15

/-- The member of a bank of `size` registers that a number falls on, when the bank starts at
`first`. -/
def inBank (n : UInt16) (first size : Nat) (member : Fin size → Csr) : Option Csr :=
  if h : first ≤ n.toNat ∧ n.toNat - first < size then some (member ⟨n.toNat - first, h.2⟩)
  else none

def ofNumber? (n : UInt16) : Option Csr :=
  match n.toNat with
  | 0x100 => some sstatus
  | 0x104 => some sie
  | 0x105 => some stvec
  | 0x106 => some scounteren
  | 0x10a => some senvcfg
  | 0x140 => some sscratch
  | 0x141 => some sepc
  | 0x142 => some scause
  | 0x143 => some stval
  | 0x144 => some sip
  | 0x180 => some satp
  | 0x300 => some mstatus
  | 0x301 => some misa
  | 0x302 => some medeleg
  | 0x303 => some mideleg
  | 0x304 => some mie
  | 0x305 => some mtvec
  | 0x306 => some mcounteren
  | 0x30a => some menvcfg
  | 0x310 => some mstatush
  | 0x320 => some mcountinhibit
  | 0x340 => some mscratch
  | 0x341 => some mepc
  | 0x342 => some mcause
  | 0x343 => some mtval
  | 0x344 => some mip
  | 0xb00 => some mcycle
  | 0xb02 => some minstret
  | 0xb80 => some mcycleh
  | 0xb82 => some minstreth
  | 0xc00 => some cycle
  | 0xc01 => some time
  | 0xc02 => some instret
  | 0xc80 => some cycleh
  | 0xc81 => some timeh
  | 0xc82 => some instreth
  | 0xf11 => some mvendorid
  | 0xf12 => some marchid
  | 0xf13 => some mimpid
  | 0xf14 => some mhartid
  | 0xf15 => some mconfigptr
  | _ =>
    inBank n 0x323 29 mhpmevent
      <|> inBank n 0x3a0 16 pmpcfg
      <|> inBank n 0x3b0 64 pmpaddr
      <|> inBank n 0xb03 29 mhpmcounter
      <|> inBank n 0xb83 29 mhpmcounterh
      <|> inBank n 0xc03 29 hpmcounter
      <|> inBank n 0xc83 29 hpmcounterh

def name? : Csr → Option String
  | sstatus => some "sstatus"
  | sie => some "sie"
  | stvec => some "stvec"
  | sscratch => some "sscratch"
  | sepc => some "sepc"
  | scause => some "scause"
  | stval => some "stval"
  | sip => some "sip"
  | satp => some "satp"
  | mstatus => some "mstatus"
  | misa => some "misa"
  | medeleg => some "medeleg"
  | mideleg => some "mideleg"
  | mie => some "mie"
  | mtvec => some "mtvec"
  | mscratch => some "mscratch"
  | mepc => some "mepc"
  | mcause => some "mcause"
  | mtval => some "mtval"
  | mip => some "mip"
  | mhartid => some "mhartid"
  | cycle => some "cycle"
  | time => some "time"
  | instret => some "instret"
  | _ => none

end Csr

end RiscvBoard
