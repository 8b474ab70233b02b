import Std.Data.String.ToInt
import RiscvBoard.Proofs.Csr.Access
import RiscvBoard.Proofs.Isa.Mnemonics
import RiscvBoard.Proofs.Numerals

/-!
Assembly text determines the instruction. A line of text is a mnemonic and operands of certain
kinds; the mnemonic ends at the first space and an operand at the next comma, and of one kind no two
operands look alike. From the line so read the instruction is put together again.
-/

set_option autoImplicit false

namespace RiscvBoard

open Instr (byteOffset csrOperandName)

/-! ### Separators -/

private theorem append_separator_inj {c : Char} {xs ys zs ws : List Char} (first : c ∉ xs)
    (second : c ∉ ys) (same : xs ++ c :: zs = ys ++ c :: ws) : xs = ys ∧ zs = ws := by
  rcases List.append_eq_append_iff.1 same with ⟨more, rfl, rest⟩ | ⟨more, rfl, rest⟩
  · cases more with
    | nil => exact ⟨(List.append_nil xs).symm, (List.cons.inj rest).2⟩
    | cons d more =>
      obtain rfl := (List.cons.inj rest).1
      exact absurd (by simp) second
  · cases more with
    | nil => exact ⟨List.append_nil ys, (List.cons.inj rest).2.symm⟩
    | cons d more =>
      obtain rfl := (List.cons.inj rest).1
      exact absurd (by simp) first

/-! ### Registers -/

namespace Reg

private theorem name_injective : Function.Injective name := by
  have names : Reg.names.toList.Nodup := by decide +kernel
  intro r s same
  have entries : Reg.names.toList.get ⟨r.toNat, by simp [r.toNat_lt]⟩ =
      Reg.names.toList.get ⟨s.toNat, by simp [s.toNat_lt]⟩ := by
    simpa [name] using same
  exact BitVec.eq_of_toNat_eq (Fin.val_eq_of_eq (List.nodup_iff_injective_get.1 names entries))

private theorem comma_notMem_name (r : Reg) : ',' ∉ r.name.toList := by
  have words : ∀ s ∈ Reg.names.toList, ',' ∉ s.toList := by decide +kernel
  exact words _ (by simp [name])

end Reg

namespace Csr

def named : List Csr :=
  [sstatus, sie, stvec, sscratch, sepc, scause, stval, sip, satp, mstatus, misa, medeleg, mideleg,
    mie, mtvec, mscratch, mepc, mcause, mtval, mip, mhartid, cycle, time, instret]

private theorem mem_named {csr : Csr} {s : String} (name : csr.name? = some s) : csr ∈ named := by
  cases csr <;> first | decide | cases name

private theorem name?_inj {csr csr' : Csr} {s : String} (name : csr.name? = some s)
    (name' : csr'.name? = some s) : csr = csr' := by
  have names : (named.map name?).Nodup := by decide +kernel
  exact List.inj_on_of_nodup_map names (mem_named name) (mem_named name') (name.trans name'.symm)

private theorem name?_plain {csr : Csr} {s : String} (name : csr.name? = some s) :
    ',' ∉ s.toList ∧ s.toList.head? ≠ some '0' := by
  have words : ∀ csr ∈ named, ∀ s ∈ csr.name?, ',' ∉ s.toList ∧ s.toList.head? ≠ some '0' := by
    decide +kernel
  exact words csr (mem_named name) s name

end Csr

def csrName? (number : BitVec 12) : Option String :=
  (Csr.ofNumber? ⟨number.setWidth 16⟩).bind Csr.name?

private theorem csrOperandName_eq (number : BitVec 12) :
    csrOperandName number = (csrName? number).getD (Hex.textPadded 3 number.toNat) := by
  unfold csrOperandName csrName?
  cases Csr.ofNumber? ⟨number.setWidth 16⟩ <;> rfl

private theorem csrName?_inj {n n' : BitVec 12} {s : String} (name : csrName? n = some s)
    (name' : csrName? n' = some s) : n = n' := by
  obtain ⟨csr, found, name⟩ := Option.bind_eq_some_iff.1 name
  obtain ⟨csr', found', name'⟩ := Option.bind_eq_some_iff.1 name'
  obtain rfl := Csr.name?_inj name name'
  have number := (Csr.number_of_ofNumber? found).symm.trans (Csr.number_of_ofNumber? found')
  have same : n.setWidth 16 = n'.setWidth 16 := congrArg UInt16.toBitVec number
  apply BitVec.eq_of_toNat_eq
  have equal := congrArg BitVec.toNat same
  rwa [BitVec.toNat_setWidth_of_le (by decide), BitVec.toNat_setWidth_of_le (by decide)] at equal

private theorem ne_textPadded_of_csrName? {n : BitVec 12} {s : String} (name : csrName? n = some s)
    (k : Nat) : s ≠ Hex.textPadded 3 k := by
  obtain ⟨csr, -, name⟩ := Option.bind_eq_some_iff.1 name
  rintro rfl
  refine (Csr.name?_plain name).2 ?_
  rw [Hex.textPadded, String.toList_append]
  rfl

private theorem csrOperandName_injective : Function.Injective csrOperandName := by
  intro n n' same
  rw [csrOperandName_eq, csrOperandName_eq] at same
  cases name : csrName? n with
  | some s =>
    cases name' : csrName? n' with
    | some s' =>
      rw [name, name'] at same
      obtain rfl : s = s' := same
      exact csrName?_inj name name'
    | none =>
      rw [name, name'] at same
      exact absurd same (ne_textPadded_of_csrName? name _)
  | none =>
    cases name' : csrName? n' with
    | some s' =>
      rw [name, name'] at same
      exact absurd same.symm (ne_textPadded_of_csrName? name' _)
    | none =>
      rw [name, name'] at same
      exact BitVec.eq_of_toNat_eq (Hex.textPadded_injective 3 same)

private theorem comma_notMem_csrOperandName (number : BitVec 12) :
    ',' ∉ (csrOperandName number).toList := by
  rw [csrOperandName_eq]
  cases name : csrName? number with
  | some s =>
    obtain ⟨csr, -, name⟩ := Option.bind_eq_some_iff.1 name
    exact (Csr.name?_plain name).1
  | none => exact Hex.notMem_textPadded (fun d => Nat.digitChar_ne ',' rfl) (by decide) 3 _

/-! ### Operands -/

inductive Operand where
  | reg (r : Reg)
  | decimal (z : Int)
  | memory (off : Int) (base : Reg)
  | address (base : Reg)
  | csr (number : BitVec 12)
  | hexadecimal (n : Nat)

namespace Operand

inductive Kind where
  | reg
  | decimal
  | memory
  | address
  | csr
  | hexadecimal

def kind : Operand → Kind
  | reg _ => .reg
  | decimal _ => .decimal
  | memory .. => .memory
  | address _ => .address
  | csr _ => .csr
  | hexadecimal _ => .hexadecimal

def text : Operand → String
  | reg r => r.name
  | decimal z => toString z
  | memory off base => toString off ++ "(" ++ base.name ++ ")"
  | address base => "(" ++ base.name ++ ")"
  | csr number => csrOperandName number
  | hexadecimal n => Hex.text n

private theorem text_address (base : Reg) :
    (address base).text.toList = '(' :: (base.name.toList ++ [')']) := by
  simp only [text, String.toList_append]
  rfl

private theorem text_memory (off : Int) (base : Reg) :
    (memory off base).text.toList = (toString off).toList ++ (address base).text.toList := by
  simp only [text, String.toList_append, List.append_assoc]

private theorem comma_notMem_text (o : Operand) : ',' ∉ o.text.toList := by
  have decimal (z : Int) : ',' ∉ (toString z).toList :=
    notMem_decimal (fun d => Nat.digitChar_ne ',' rfl) (by decide) z
  have address (base : Reg) : ',' ∉ (address base).text.toList := by
    simp [text_address, base.comma_notMem_name]
  cases o with
  | reg r => exact r.comma_notMem_name
  | decimal z => exact decimal z
  | memory off base =>
    rw [text_memory, List.mem_append]
    exact not_or.2 ⟨decimal off, address base⟩
  | address base => exact address base
  | csr number => exact comma_notMem_csrOperandName number
  | hexadecimal n => exact Hex.notMem_text (fun d => Nat.digitChar_ne ',' rfl) (by decide) n

private theorem address_text_inj {base base' : Reg}
    (same : base.name.toList ++ [')'] = base'.name.toList ++ [')']) : base = base' :=
  Reg.name_injective (String.toList_inj.1 (List.append_cancel_right same))

private theorem memory_text_inj {off off' : Int} {base base' : Reg}
    (same : (memory off base).text = (memory off' base').text) : off = off' ∧ base = base' := by
  have bracket (z : Int) : '(' ∉ (toString z).toList :=
    notMem_decimal (fun d => Nat.digitChar_ne '(' rfl) (by decide) z
  have spelled := congrArg String.toList same
  rw [text_memory, text_memory, text_address, text_address] at spelled
  obtain ⟨number, register⟩ := append_separator_inj (bracket off) (bracket off') spelled
  exact ⟨Int.repr_inj.1 (String.toList_inj.1 number), address_text_inj register⟩

private theorem eq_of_text_eq : ∀ {a b : Operand}, a.kind = b.kind → a.text = b.text → a = b
  | reg _, reg _, _, same => congrArg reg (Reg.name_injective same)
  | decimal _, decimal _, _, same => congrArg decimal (Int.repr_inj.1 same)
  | memory .., memory .., _, same =>
    congrArg₂ memory (memory_text_inj same).1 (memory_text_inj same).2
  | address base, address base', _, same => by
    have spelled := congrArg String.toList same
    rw [text_address, text_address] at spelled
    exact congrArg address (address_text_inj (List.cons.inj spelled).2)
  | csr _, csr _, _, same => congrArg csr (csrOperandName_injective same)
  | hexadecimal _, hexadecimal _, _, same => congrArg hexadecimal (Hex.text_injective same)

private theorem eq_of_map_text_eq : ∀ {as bs : List Operand},
    as.map kind = bs.map kind → as.map text = bs.map text → as = bs
  | [], [], _, _ => rfl
  | a :: as, b :: bs, kinds, texts => by
    obtain ⟨kind, kinds⟩ := List.cons.inj kinds
    obtain ⟨text, texts⟩ := List.cons.inj texts
    rw [eq_of_text_eq kind text, eq_of_map_text_eq kinds texts]

private theorem intercalate_inj : ∀ {ss ts : List String}, (∀ s ∈ ss, ',' ∉ s.toList) →
    (∀ t ∈ ts, ',' ∉ t.toList) → ss.length = ts.length →
    ", ".intercalate ss = ", ".intercalate ts → ss = ts
  | [], [], _, _, _, _ => rfl
  | [s], [t], _, _, _, same => by
    rw [String.intercalate_singleton, String.intercalate_singleton] at same
    rw [same]
  | s :: s' :: ss, t :: t' :: ts, first, second, length, same => by
    have spelled (u u' : String) (us : List String) :
        (", ".intercalate (u :: u' :: us)).toList =
          u.toList ++ ',' :: (" " ++ ", ".intercalate (u' :: us)).toList := by
      simp only [String.intercalate_cons_cons, String.toList_append, List.append_assoc]
      rfl
    have whole := congrArg String.toList same
    rw [spelled, spelled] at whole
    obtain ⟨here, later⟩ := append_separator_inj (first s (by simp)) (second t (by simp)) whole
    have later := (String.append_right_inj _).1 (String.toList_inj.1 later)
    rw [String.toList_inj.1 here, intercalate_inj (fun u u_mem => first u (.tail _ u_mem))
      (fun u u_mem => second u (.tail _ u_mem)) (Nat.succ.inj length) later]

end Operand

/-! ### Lines -/

def Opcode.kinds : Opcode → List Operand.Kind
  | nop | ret | ecall | ebreak | mret | sret | wfi | fence | fenceI => []
  | regReg _ | regRegWord _ => [.reg, .reg, .reg]
  | regImm _ | addiw | shiftImm _ | shiftImmWord _ | branch _ => [.reg, .reg, .decimal]
  | load _ | store _ | jalr => [.reg, .memory]
  | jal => [.reg, .decimal]
  | lui | auipc => [.reg, .hexadecimal]
  | lr _ => [.reg, .address]
  | sc _ | amo .. => [.reg, .reg, .address]
  | csr _ => [.reg, .csr, .reg]
  | csrImm _ => [.reg, .csr, .decimal]
  | sfenceVma => [.reg, .reg]

/-- A line of assembly text as it is read: what its first word stands for, and its operands. -/
structure Line where
  opcode : Opcode
  operands : List Operand

namespace Line

def text (l : Line) : String :=
  if l.operands.isEmpty then l.opcode.mnemonic
  else Instr.line l.opcode.mnemonic (l.operands.map Operand.text)

def WellFormed (l : Line) : Prop :=
  l.operands.map Operand.kind = l.opcode.kinds

private theorem takeWhile_text (l : Line) :
    l.text.toList.takeWhile (· != ' ') = l.opcode.mnemonic.toList := by
  have word : ∀ c ∈ l.opcode.mnemonic.toList, (c != ' ') = true := by
    rintro c inside
    refine bne_iff_ne.2 ?_
    rintro rfl
    exact l.opcode.space_notMem_mnemonic inside
  have ends (rest : List Char) (stop : rest.takeWhile (· != ' ') = []) :
      (l.opcode.mnemonic.toList ++ rest).takeWhile (· != ' ') = l.opcode.mnemonic.toList := by
    rw [List.takeWhile_append_of_pos word, stop, List.append_nil]
  unfold text
  split
  · simpa using ends [] rfl
  · rw [Instr.line, String.toList_append, String.toList_append, List.append_assoc]
    exact ends _ rfl

private theorem text_inj {l l' : Line} (formed : l.WellFormed) (formed' : l'.WellFormed)
    (same : l.text = l'.text) : l = l' := by
  rcases l with ⟨opcode, operands⟩
  rcases l' with ⟨opcode', operands'⟩
  obtain rfl : opcode = opcode' := by
    have words := congrArg (fun s => s.toList.takeWhile (· != ' ')) same
    simp only [takeWhile_text] at words
    exact Opcode.mnemonic_injective (String.toList_inj.1 words)
  have kinds : operands.map Operand.kind = operands'.map Operand.kind :=
    Eq.trans formed (Eq.symm formed')
  have length : operands.length = operands'.length := by
    simpa using congrArg List.length kinds
  suffices texts : operands.map Operand.text = operands'.map Operand.text by
    rw [Operand.eq_of_map_text_eq kinds texts]
  have plain (operands : List Operand) : ∀ s ∈ operands.map Operand.text, ',' ∉ s.toList := by
    intro s shown
    obtain ⟨o, -, rfl⟩ := List.mem_map.1 shown
    exact o.comma_notMem_text
  refine Operand.intercalate_inj (plain _) (plain _) (by simpa using length) ?_
  unfold text at same
  dsimp only at same
  cases operands with
  | nil => rw [List.length_eq_zero_iff.1 length.symm]
  | cons o operands =>
    cases operands' with
    | nil => cases length
    | cons o' operands' => exact (String.append_right_inj _).1 same

end Line

/-! ### Instructions -/

namespace Instr

def toLine : Instr → Line
  | regReg op rd rs1 rs2 => ⟨.regReg op, [.reg rd, .reg rs1, .reg rs2]⟩
  | regRegWord op rd rs1 rs2 => ⟨.regRegWord op, [.reg rd, .reg rs1, .reg rs2]⟩
  | regImm op rd rs1 imm =>
    if op = .add ∧ rd = 0 ∧ rs1 = 0 ∧ imm = 0 then ⟨.nop, []⟩
    else ⟨.regImm op, [.reg rd, .reg rs1, .decimal imm.toInt]⟩
  | addiw rd rs1 imm => ⟨.addiw, [.reg rd, .reg rs1, .decimal imm.toInt]⟩
  | shiftImm op rd rs1 shamt => ⟨.shiftImm op, [.reg rd, .reg rs1, .decimal shamt.toNat]⟩
  | shiftImmWord op rd rs1 shamt => ⟨.shiftImmWord op, [.reg rd, .reg rs1, .decimal shamt.toNat]⟩
  | load op rd rs1 off => ⟨.load op, [.reg rd, .memory off.toInt rs1]⟩
  | store width rs1 rs2 off => ⟨.store width, [.reg rs2, .memory off.toInt rs1]⟩
  | branch op rs1 rs2 off => ⟨.branch op, [.reg rs1, .reg rs2, .decimal (byteOffset off).toInt]⟩
  | jal rd off => ⟨.jal, [.reg rd, .decimal (byteOffset off).toInt]⟩
  | jalr rd rs1 off =>
    if rd = 0 ∧ rs1 = 1 ∧ off = 0 then ⟨.ret, []⟩
    else ⟨.jalr, [.reg rd, .memory off.toInt rs1]⟩
  | lui rd imm => ⟨.lui, [.reg rd, .hexadecimal imm.toNat]⟩
  | auipc rd imm => ⟨.auipc, [.reg rd, .hexadecimal imm.toNat]⟩
  | lr width rd rs1 => ⟨.lr width, [.reg rd, .address rs1]⟩
  | sc width rd rs1 rs2 => ⟨.sc width, [.reg rd, .reg rs2, .address rs1]⟩
  | amo op width rd rs1 rs2 => ⟨.amo op width, [.reg rd, .reg rs2, .address rs1]⟩
  | csr op rd number (.reg rs1) => ⟨.csr op, [.reg rd, .csr number, .reg rs1]⟩
  | csr op rd number (.imm value) => ⟨.csrImm op, [.reg rd, .csr number, .decimal value.toNat]⟩
  | sfenceVma rs1 rs2 => ⟨.sfenceVma, [.reg rs1, .reg rs2]⟩
  | ecall => ⟨.ecall, []⟩
  | ebreak => ⟨.ebreak, []⟩
  | mret => ⟨.mret, []⟩
  | sret => ⟨.sret, []⟩
  | wfi => ⟨.wfi, []⟩
  | fence => ⟨.fence, []⟩
  | fenceI => ⟨.fenceI, []⟩

end Instr

def Line.toInstr? : Line → Option Instr
  | ⟨.nop, []⟩ => some (.regImm .add 0 0 0)
  | ⟨.ret, []⟩ => some (.jalr 0 1 0)
  | ⟨.regReg op, [.reg rd, .reg rs1, .reg rs2]⟩ => some (.regReg op rd rs1 rs2)
  | ⟨.regRegWord op, [.reg rd, .reg rs1, .reg rs2]⟩ => some (.regRegWord op rd rs1 rs2)
  | ⟨.regImm op, [.reg rd, .reg rs1, .decimal z]⟩ => some (.regImm op rd rs1 (.ofInt 12 z))
  | ⟨.addiw, [.reg rd, .reg rs1, .decimal z]⟩ => some (.addiw rd rs1 (.ofInt 12 z))
  | ⟨.shiftImm op, [.reg rd, .reg rs1, .decimal z]⟩ => some (.shiftImm op rd rs1 (.ofInt 6 z))
  | ⟨.shiftImmWord op, [.reg rd, .reg rs1, .decimal z]⟩ =>
    some (.shiftImmWord op rd rs1 (.ofInt 5 z))
  | ⟨.load op, [.reg rd, .memory z rs1]⟩ => some (.load op rd rs1 (.ofInt 12 z))
  | ⟨.store width, [.reg rs2, .memory z rs1]⟩ => some (.store width rs1 rs2 (.ofInt 12 z))
  | ⟨.branch op, [.reg rs1, .reg rs2, .decimal z]⟩ => some (.branch op rs1 rs2 (.ofInt 12 (z / 2)))
  | ⟨.jal, [.reg rd, .decimal z]⟩ => some (.jal rd (.ofInt 20 (z / 2)))
  | ⟨.jalr, [.reg rd, .memory z rs1]⟩ => some (.jalr rd rs1 (.ofInt 12 z))
  | ⟨.lui, [.reg rd, .hexadecimal n]⟩ => some (.lui rd (.ofNat 20 n))
  | ⟨.auipc, [.reg rd, .hexadecimal n]⟩ => some (.auipc rd (.ofNat 20 n))
  | ⟨.lr width, [.reg rd, .address rs1]⟩ => some (.lr width rd rs1)
  | ⟨.sc width, [.reg rd, .reg rs2, .address rs1]⟩ => some (.sc width rd rs1 rs2)
  | ⟨.amo op width, [.reg rd, .reg rs2, .address rs1]⟩ => some (.amo op width rd rs1 rs2)
  | ⟨.csr op, [.reg rd, .csr number, .reg rs1]⟩ => some (.csr op rd number (.reg rs1))
  | ⟨.csrImm op, [.reg rd, .csr number, .decimal z]⟩ =>
    some (.csr op rd number (.imm (.ofInt 5 z)))
  | ⟨.sfenceVma, [.reg rs1, .reg rs2]⟩ => some (.sfenceVma rs1 rs2)
  | ⟨.ecall, []⟩ => some .ecall
  | ⟨.ebreak, []⟩ => some .ebreak
  | ⟨.mret, []⟩ => some .mret
  | ⟨.sret, []⟩ => some .sret
  | ⟨.wfi, []⟩ => some .wfi
  | ⟨.fence, []⟩ => some .fence
  | ⟨.fenceI, []⟩ => some .fenceI
  | _ => none

namespace Instr

private theorem text_toLine (i : Instr) : i.toLine.text = i.text := by
  cases i with
  | regImm op rd rs1 imm =>
    rw [toLine, text]
    split <;> rfl
  | jalr rd rs1 off =>
    rw [toLine, text]
    split <;> rfl
  | csr op rd number operand => cases operand <;> rfl
  | _ => rfl

private theorem wellFormed_toLine (i : Instr) : i.toLine.WellFormed := by
  cases i with
  | regImm op rd rs1 imm =>
    rw [toLine]
    split <;> rfl
  | jalr rd rs1 off =>
    rw [toLine]
    split <;> rfl
  | csr op rd number operand => cases operand <;> rfl
  | _ => rfl

private theorem ofInt_half_byteOffset {n : Nat} (off : BitVec n) :
    BitVec.ofInt n ((byteOffset off).toInt / 2) = off := by
  have doubled : (byteOffset off).toInt = 2 * off.toInt := by
    rw [byteOffset, BitVec.toInt_append]
    split
    case isTrue empty =>
      obtain rfl := eq_of_beq empty
      rw [BitVec.of_length_zero (x := off)]
      rfl
    case isFalse => simp
  rw [doubled, Int.mul_ediv_cancel_left _ (by decide), BitVec.ofInt_toInt]

private theorem ofInt_unsigned {n : Nat} (field : BitVec n) :
    BitVec.ofInt n (field.toNat : Int) = field := by
  rw [BitVec.ofInt_natCast, BitVec.ofNat_toNat, BitVec.setWidth_eq]

private theorem toInstr?_toLine (i : Instr) : i.toLine.toInstr? = some i := by
  cases i with
  | regImm op rd rs1 imm =>
    rw [toLine]
    split
    case isTrue short =>
      obtain ⟨rfl, rfl, rfl, rfl⟩ := short
      rfl
    case isFalse => simp only [Line.toInstr?, BitVec.ofInt_toInt]
  | jalr rd rs1 off =>
    rw [toLine]
    split
    case isTrue short =>
      obtain ⟨rfl, rfl, rfl⟩ := short
      rfl
    case isFalse => simp only [Line.toInstr?, BitVec.ofInt_toInt]
  | csr op rd number operand =>
    cases operand with
    | reg rs1 => rfl
    | imm value => simp only [toLine, Line.toInstr?, ofInt_unsigned]
  | branch op rs1 rs2 off => simp only [toLine, Line.toInstr?, ofInt_half_byteOffset]
  | jal rd off => simp only [toLine, Line.toInstr?, ofInt_half_byteOffset]
  | _ =>
    simp only [toLine, Line.toInstr?, BitVec.ofInt_toInt, BitVec.ofNat_toNat, BitVec.setWidth_eq,
      ofInt_unsigned]

/-- No two instructions have the same assembly text. That text does not depend on the width of a
hart, so this holds of all that the decoder and the expansion of short forms give, for each. -/
theorem assembly_injective : Function.Injective text := by
  intro i j same
  rw [← text_toLine, ← text_toLine] at same
  have lines := Line.text_inj i.wellFormed_toLine j.wellFormed_toLine same
  have back := congrArg Line.toInstr? lines
  rw [toInstr?_toLine, toInstr?_toLine] at back
  exact Option.some.inj back

end Instr

end RiscvBoard
