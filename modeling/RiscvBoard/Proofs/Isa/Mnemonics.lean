import Mathlib.Data.List.Nodup
import RiscvBoard.Isa.Assembly

/-!
The first words of assembly lines. A first word stands for the operation of an instruction, the two
aliases counted as operations of their own, and no two operations have the same one.
-/

set_option autoImplicit false

namespace RiscvBoard

/-- What the first word of a line of assembly text stands for: one of the aliases, or what an
instruction does apart from its operands. -/
inductive Opcode where
  | nop
  | ret
  | regReg (op : RegOp)
  | regRegWord (op : RegWordOp)
  | regImm (op : ImmOp)
  | addiw
  | shiftImm (op : ShiftOp)
  | shiftImmWord (op : ShiftOp)
  | load (op : LoadOp)
  | store (width : Width)
  | branch (op : BranchOp)
  | jal
  | jalr
  | lui
  | auipc
  | lr (width : AtomicWidth)
  | sc (width : AtomicWidth)
  | amo (op : AmoOp) (width : AtomicWidth)
  | csr (op : CsrOp)
  | csrImm (op : CsrOp)
  | sfenceVma
  | ecall
  | ebreak
  | mret
  | sret
  | wfi
  | fence
  | fenceI
  deriving DecidableEq

namespace Opcode

def mnemonic : Opcode → String
  | nop => "nop"
  | ret => "ret"
  | regReg op => op.mnemonic
  | regRegWord op => op.mnemonic
  | regImm op => op.mnemonic
  | addiw => "addiw"
  | shiftImm op => op.mnemonic
  | shiftImmWord op => op.mnemonic ++ "w"
  | load op => op.mnemonic
  | store width => width.storeMnemonic
  | branch op => op.mnemonic
  | jal => "jal"
  | jalr => "jalr"
  | lui => "lui"
  | auipc => "auipc"
  | lr width => "lr" ++ width.suffix
  | sc width => "sc" ++ width.suffix
  | amo op width => op.mnemonic ++ width.suffix
  | csr op => op.mnemonic (.reg 0)
  | csrImm op => op.mnemonic (.imm 0)
  | sfenceVma => "sfence.vma"
  | ecall => "ecall"
  | ebreak => "ebreak"
  | mret => "mret"
  | sret => "sret"
  | wfi => "wfi"
  | fence => "fence"
  | fenceI => "fence.i"

def all : List Opcode :=
  [.add, .sub, .sll, .slt, .sltu, .xor, .srl, .sra, .or, .and, .mul, .mulh, .mulhsu, .mulhu, .div,
    .divu, .rem, .remu].map regReg ++
  [.add, .sub, .sll, .srl, .sra, .mul, .div, .divu, .rem, .remu].map regRegWord ++
  [.add, .slt, .sltu, .xor, .or, .and].map regImm ++
  [.left, .rightLogical, .rightArithmetic].map shiftImm ++
  [.left, .rightLogical, .rightArithmetic].map shiftImmWord ++
  [.byte, .half, .word, .double, .byteUnsigned, .halfUnsigned, .wordUnsigned].map load ++
  [.byte, .half, .word, .double].map store ++
  [.eq, .ne, .lt, .ge, .ltu, .geu].map branch ++
  [.word, .double].flatMap (fun width => lr width :: sc width ::
    [.swap, .add, .xor, .and, .or, .min, .max, .minu, .maxu].map (amo · width)) ++
  [.write, .set, .clear].flatMap (fun op => [csr op, csrImm op]) ++
  [nop, ret, addiw, jal, jalr, lui, auipc, sfenceVma, ecall, ebreak, mret, sret, wfi, fence, fenceI]

private theorem mem_all (o : Opcode) : o ∈ all := by
  cases o with
  | regReg op => cases op <;> decide
  | regRegWord op => cases op <;> decide
  | regImm op => cases op <;> decide
  | shiftImm op => cases op <;> decide
  | shiftImmWord op => cases op <;> decide
  | load op => cases op <;> decide
  | store width => cases width <;> decide
  | branch op => cases op <;> decide
  | lr width => cases width <;> decide
  | sc width => cases width <;> decide
  | amo op width => cases op <;> cases width <;> decide
  | csr op => cases op <;> decide
  | csrImm op => cases op <;> decide
  | _ => decide

private theorem nodup_mnemonics : (all.map mnemonic).Nodup := by
  decide +kernel

theorem mnemonic_injective : Function.Injective mnemonic :=
  fun a b same => List.inj_on_of_nodup_map nodup_mnemonics (mem_all a) (mem_all b) same

theorem space_notMem_mnemonic (o : Opcode) : ' ' ∉ o.mnemonic.toList := by
  have words : all.all fun o => ' ' ∉ o.mnemonic.toList := by
    decide +kernel
  simpa using List.all_eq_true.1 words o (mem_all o)

end Opcode

end RiscvBoard
