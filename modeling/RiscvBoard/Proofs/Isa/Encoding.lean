import RiscvBoard.Isa.Decode

/-!
The encoding of instructions as 32-bit words, in the six standard formats. A word of a format is
known by its fields, and the tables by which decoding picks an operation are the inverses of the
function fields.
-/

set_option autoImplicit false

namespace RiscvBoard

/-! ### Function fields -/

def RegOp.funct3 : RegOp → BitVec 3
  | add | sub | mul => 0
  | sll | mulh => 1
  | slt | mulhsu => 2
  | sltu | mulhu => 3
  | xor | div => 4
  | srl | sra | divu => 5
  | or | rem => 6
  | and | remu => 7

def RegOp.funct7 : RegOp → BitVec 7
  | add | sll | slt | sltu | xor | srl | or | and => 0x00
  | sub | sra => 0x20
  | mul | mulh | mulhsu | mulhu | div | divu | rem | remu => 0x01

def RegWordOp.funct3 : RegWordOp → BitVec 3
  | add | sub | mul => 0
  | sll => 1
  | div => 4
  | srl | sra | divu => 5
  | rem => 6
  | remu => 7

def RegWordOp.funct7 : RegWordOp → BitVec 7
  | add | sll | srl => 0x00
  | sub | sra => 0x20
  | mul | div | divu | rem | remu => 0x01

def ImmOp.funct3 : ImmOp → BitVec 3
  | add => 0
  | slt => 2
  | sltu => 3
  | xor => 4
  | or => 6
  | and => 7

def ShiftOp.funct3 : ShiftOp → BitVec 3
  | left => 1
  | rightLogical | rightArithmetic => 5

def ShiftOp.funct6 : ShiftOp → BitVec 6
  | left | rightLogical => 0x00
  | rightArithmetic => 0x10

def LoadOp.funct3 : LoadOp → BitVec 3
  | byte => 0
  | half => 1
  | word => 2
  | double => 3
  | byteUnsigned => 4
  | halfUnsigned => 5
  | wordUnsigned => 6

def Width.storeFunct3 : Width → BitVec 3
  | byte => 0
  | half => 1
  | word => 2
  | double => 3

def BranchOp.funct3 : BranchOp → BitVec 3
  | eq => 0
  | ne => 1
  | lt => 4
  | ge => 5
  | ltu => 6
  | geu => 7

def AmoOp.funct5 : AmoOp → BitVec 5
  | add => 0x00
  | swap => 0x01
  | xor => 0x04
  | or => 0x08
  | and => 0x0c
  | min => 0x10
  | max => 0x14
  | minu => 0x18
  | maxu => 0x1c

def AtomicWidth.funct3 : AtomicWidth → BitVec 3
  | word => 2
  | double => 3

def CsrOp.funct3 : CsrOp → Bool → BitVec 3
  | write, false => 1
  | set, false => 2
  | clear, false => 3
  | write, true => 5
  | set, true => 6
  | clear, true => 7

def CsrOperand.isConstant : CsrOperand → Bool
  | reg _ => false
  | imm _ => true

def CsrOperand.field : CsrOperand → BitVec 5
  | reg rs1 => rs1
  | imm value => value

/-! ### Formats -/

namespace InstrWord

section Formats

variable (rs2 rs1 : Reg) (funct3 : BitVec 3) (rd : Reg) (opcode : BitVec 7)

def rType (funct7 : BitVec 7) : BitVec 32 :=
  funct7 ++ rs2 ++ rs1 ++ funct3 ++ rd ++ opcode

def iType (imm : BitVec 12) : BitVec 32 :=
  imm ++ rs1 ++ funct3 ++ rd ++ opcode

def sType (imm : BitVec 12) : BitVec 32 :=
  imm.extractLsb' 5 7 ++ rs2 ++ rs1 ++ funct3 ++ imm.extractLsb' 0 5 ++ opcode

/-- The branch format: bits 12 and 10 to 5 of the offset, the source registers, and bits 4 to 1 and
11 of the offset. Bit 0 is not encoded. -/
def bType (offset : BitVec 13) : BitVec 32 :=
  offset.extractLsb' 12 1 ++ offset.extractLsb' 5 6 ++ rs2 ++ rs1 ++ funct3 ++
    offset.extractLsb' 1 4 ++ offset.extractLsb' 11 1 ++ opcode

def uType (imm : BitVec 32) : BitVec 32 :=
  imm.extractLsb' 12 20 ++ rd ++ opcode

/-- The jump format: bits 20, 10 to 1, 11 and 19 to 12 of the offset. Bit 0 is not encoded. -/
def jType (offset : BitVec 21) : BitVec 32 :=
  offset.extractLsb' 20 1 ++ offset.extractLsb' 1 10 ++ offset.extractLsb' 11 1 ++
    offset.extractLsb' 12 8 ++ rd ++ opcode

/-- The atomic format: a function field, then the two ordering bits, both clear. -/
def atomicType (funct5 : BitVec 5) : BitVec 32 :=
  rType rs2 rs1 funct3 rd opcode (funct5 ++ 0#2)

end Formats

end InstrWord

open InstrWord

namespace Instr

def encode : Instr → BitVec 32
  | regReg op rd rs1 rs2 => rType rs2 rs1 op.funct3 rd 0x33 op.funct7
  | regRegWord op rd rs1 rs2 => rType rs2 rs1 op.funct3 rd 0x3b op.funct7
  | regImm op rd rs1 imm => iType rs1 op.funct3 rd 0x13 imm
  | addiw rd rs1 imm => iType rs1 0 rd 0x1b imm
  | shiftImm op rd rs1 shamt => iType rs1 op.funct3 rd 0x13 (op.funct6 ++ shamt)
  | shiftImmWord op rd rs1 shamt => rType shamt rs1 op.funct3 rd 0x1b (op.funct6 ++ 0#1)
  | load op rd rs1 off => iType rs1 op.funct3 rd 0x03 off
  | store width rs1 rs2 off => sType rs2 rs1 width.storeFunct3 0x23 off
  | branch op rs1 rs2 off => bType rs2 rs1 op.funct3 0x63 (byteOffset off)
  | jal rd off => jType rd 0x6f (byteOffset off)
  | jalr rd rs1 off => iType rs1 0 rd 0x67 off
  | lui rd imm => uType rd 0x37 (upperImmediate imm)
  | auipc rd imm => uType rd 0x17 (upperImmediate imm)
  | lr width rd rs1 => atomicType 0 rs1 width.funct3 rd 0x2f 0x02
  | sc width rd rs1 rs2 => atomicType rs2 rs1 width.funct3 rd 0x2f 0x03
  | amo op width rd rs1 rs2 => atomicType rs2 rs1 width.funct3 rd 0x2f op.funct5
  | csr op rd number operand => iType operand.field (op.funct3 operand.isConstant) rd 0x73 number
  | sfenceVma rs1 rs2 => rType rs2 rs1 0 0 0x73 0x09
  | ecall => iType 0 0 0 0x73 0x000
  | ebreak => iType 0 0 0 0x73 0x001
  | sret => iType 0 0 0 0x73 0x102
  | wfi => iType 0 0 0 0x73 0x105
  | mret => iType 0 0 0 0x73 0x302
  | fence => iType 0 0 0 0x0f 0
  | fenceI => iType 0 1 0 0x0f 0

/-- The bits of the word that decoding does not look at: the ordering bits 26 and 25 of an atomic
access, and the operands of a fence in bits 31 to 15 and 11 to 7. -/
def freeBits : Instr → BitVec 32
  | lr .. | sc .. | amo .. => 0x06000000
  | fence | fenceI => 0xffff8f80
  | _ => 0

/-- A word stands for an instruction: it is the instruction's encoding, up to the free bits. -/
def IsEncodedBy (i : Instr) (w : BitVec 32) : Prop :=
  w &&& ~~~i.freeBits = i.encode

theorem isEncodedBy_iff_eq {i : Instr} {w : BitVec 32} (fixed : i.freeBits = 0) :
    i.IsEncodedBy w ↔ w = i.encode := by
  rw [IsEncodedBy, fixed, BitVec.ofNat_eq_ofNat, BitVec.not_zero, BitVec.and_allOnes]

end Instr

/-! ### Words of a format -/

namespace InstrWord

section Formats

variable {w : BitVec 32} {src2 src1 dest : Reg} {f3 : BitVec 3} {op f7 : BitVec 7}

theorem eq_rType_iff : w = rType src2 src1 f3 dest op f7 ↔
    opcode w = op ∧ rd w = dest ∧ funct3 w = f3 ∧ rs1 w = src1 ∧ rs2 w = src2 ∧ funct7 w = f7 := by
  unfold rType opcode rd funct3 rs1 rs2 funct7
  constructor
  · rintro rfl
    simp (disch := decide) only [BitVec.extractLsb'_append_eq_of_add_le,
      BitVec.extractLsb'_append_eq_of_le, BitVec.extractLsb'_eq_self, Nat.reduceSub, and_self]
  · rintro ⟨rfl, rfl, rfl, rfl, rfl, rfl⟩
    simp (disch := decide) only [BitVec.extractLsb'_append_extractLsb'_eq_extractLsb']
    exact BitVec.extractLsb'_eq_self.symm

theorem eq_iType_iff {imm : BitVec 12} : w = iType src1 f3 dest op imm ↔
    opcode w = op ∧ rd w = dest ∧ funct3 w = f3 ∧ rs1 w = src1 ∧ immI w = imm := by
  unfold iType opcode rd funct3 rs1 immI
  constructor
  · rintro rfl
    simp (disch := decide) only [BitVec.extractLsb'_append_eq_of_add_le,
      BitVec.extractLsb'_append_eq_of_le, BitVec.extractLsb'_eq_self, Nat.reduceSub, and_self]
  · rintro ⟨rfl, rfl, rfl, rfl, rfl⟩
    simp (disch := decide) only [BitVec.extractLsb'_append_extractLsb'_eq_extractLsb']
    exact BitVec.extractLsb'_eq_self.symm

theorem eq_sType_iff {imm : BitVec 12} : w = sType src2 src1 f3 op imm ↔
    opcode w = op ∧ funct3 w = f3 ∧ rs1 w = src1 ∧ rs2 w = src2 ∧ immS w = imm := by
  unfold sType opcode funct3 rs1 rs2 immS
  constructor
  · rintro rfl
    simp (disch := decide) only [BitVec.extractLsb'_append_eq_of_add_le,
      BitVec.extractLsb'_append_eq_of_le, BitVec.extractLsb'_eq_self, Nat.reduceSub, and_self,
      BitVec.extractLsb'_append_extractLsb'_eq_extractLsb']
  · rintro ⟨rfl, rfl, rfl, rfl, rfl⟩
    simp (disch := decide) only [BitVec.extractLsb'_append_eq_of_add_le,
      BitVec.extractLsb'_append_eq_of_le, BitVec.extractLsb'_eq_self, Nat.reduceSub,
      BitVec.extractLsb'_append_extractLsb'_eq_extractLsb']

theorem eq_bType_iff {off : BitVec 12} : w = bType src2 src1 f3 op (Instr.byteOffset off) ↔
    opcode w = op ∧ funct3 w = f3 ∧ rs1 w = src1 ∧ rs2 w = src2 ∧ immB w = off := by
  unfold bType opcode funct3 rs1 rs2 immB Instr.byteOffset
  constructor
  · rintro rfl
    simp (disch := decide) only [BitVec.extractLsb'_append_eq_of_add_le,
      BitVec.extractLsb'_append_eq_of_le, BitVec.extractLsb'_eq_self, Nat.reduceSub, and_self,
      BitVec.extractLsb'_append_extractLsb'_eq_extractLsb']
  · rintro ⟨rfl, rfl, rfl, rfl, rfl⟩
    simp (disch := decide) only [BitVec.extractLsb'_append_eq_of_add_le,
      BitVec.extractLsb'_append_eq_of_le, BitVec.extractLsb'_eq_self, Nat.reduceSub,
      BitVec.extractLsb'_append_extractLsb'_eq_extractLsb']

theorem eq_uType_iff {imm : BitVec 20} : w = uType dest op (Instr.upperImmediate imm) ↔
    opcode w = op ∧ rd w = dest ∧ immU w = imm := by
  unfold uType opcode rd immU Instr.upperImmediate
  constructor
  · rintro rfl
    simp (disch := decide) only [BitVec.extractLsb'_append_eq_of_add_le,
      BitVec.extractLsb'_append_eq_of_le, BitVec.extractLsb'_eq_self, Nat.reduceSub, and_self]
  · rintro ⟨rfl, rfl, rfl⟩
    simp (disch := decide) only [BitVec.extractLsb'_append_eq_of_le, BitVec.extractLsb'_eq_self,
      Nat.reduceSub, BitVec.extractLsb'_append_extractLsb'_eq_extractLsb']

theorem eq_jType_iff {off : BitVec 20} : w = jType dest op (Instr.byteOffset off) ↔
    opcode w = op ∧ rd w = dest ∧ immJ w = off := by
  unfold jType opcode rd immJ Instr.byteOffset
  constructor
  · rintro rfl
    simp (disch := decide) only [BitVec.extractLsb'_append_eq_of_add_le,
      BitVec.extractLsb'_append_eq_of_le, BitVec.extractLsb'_eq_self, Nat.reduceSub, and_self,
      BitVec.extractLsb'_append_extractLsb'_eq_extractLsb']
  · rintro ⟨rfl, rfl, rfl⟩
    simp (disch := decide) only [BitVec.extractLsb'_append_eq_of_add_le,
      BitVec.extractLsb'_append_eq_of_le, BitVec.extractLsb'_eq_self, Nat.reduceSub,
      BitVec.extractLsb'_append_extractLsb'_eq_extractLsb']

/-! ### Words of a format, up to some bits -/

private theorem append_eq_append_iff {m n : Nat} {x x' : BitVec m} {y y' : BitVec n} :
    x ++ y = x' ++ y' ↔ x = x' ∧ y = y' := by
  constructor
  · intro same
    have upper := congrArg (BitVec.extractLsb' n m) same
    have lower := congrArg (BitVec.extractLsb' 0 n) same
    rw [BitVec.extractLsb'_append_eq_of_le (Nat.le_refl n),
      BitVec.extractLsb'_append_eq_of_le (Nat.le_refl n), Nat.sub_self,
      BitVec.extractLsb'_eq_self, BitVec.extractLsb'_eq_self] at upper
    rw [BitVec.extractLsb'_append_eq_of_add_le (by omega),
      BitVec.extractLsb'_append_eq_of_add_le (by omega), BitVec.extractLsb'_eq_self,
      BitVec.extractLsb'_eq_self] at lower
    exact ⟨upper, lower⟩
  · rintro ⟨rfl, rfl⟩
    rfl

private theorem immI_eq_append (w : BitVec 32) : immI w = funct6 w ++ shamt w := by
  unfold immI funct6 shamt
  rw [BitVec.extractLsb'_append_extractLsb'_eq_extractLsb' (by decide)]

private theorem funct7_eq_append (w : BitVec 32) :
    funct7 w = funct6 w ++ BitVec.ofBool (shamt w).msb := by
  have bit : BitVec.ofBool (shamt w).msb = w.extractLsb' 25 1 := by
    apply BitVec.eq_of_getElem_eq
    intro i single
    obtain rfl : i = 0 := by omega
    simp [shamt, BitVec.msb_eq_getLsbD_last]
  unfold funct7 funct6
  rw [bit, BitVec.extractLsb'_append_extractLsb'_eq_extractLsb' (by decide)]

theorem funct7_eq_extractLsb' (w : BitVec 32) : funct7 w = (immI w).extractLsb' 5 7 := by
  have joined : immI w = funct7 w ++ rs2 w := by
    unfold immI funct7 rs2
    rw [BitVec.extractLsb'_append_extractLsb'_eq_extractLsb' (by decide)]
  rw [joined, BitVec.extractLsb'_append_eq_of_le (by decide), BitVec.extractLsb'_eq_self]

theorem eq_shift_iff {f6 amount : BitVec 6} : w = iType src1 f3 dest op (f6 ++ amount) ↔
    opcode w = op ∧ rd w = dest ∧ funct3 w = f3 ∧ rs1 w = src1 ∧ funct6 w = f6 ∧
      shamt w = amount := by
  rw [eq_iType_iff, immI_eq_append, append_eq_append_iff]

theorem eq_wordShift_iff {f6 : BitVec 6} : w = rType src2 src1 f3 dest op (f6 ++ 0#1) ↔
    opcode w = op ∧ rd w = dest ∧ funct3 w = f3 ∧ rs1 w = src1 ∧ rs2 w = src2 ∧ funct6 w = f6 ∧
      (shamt w).msb = false := by
  have bit (b : Bool) : BitVec.ofBool b = 0#1 ↔ b = false := by cases b <;> decide
  rw [eq_rType_iff, funct7_eq_append, append_eq_append_iff, bit]

private theorem extractLsb'_and_of_ones {mask : BitVec 32} {i n : Nat}
    (ones : mask.extractLsb' i n = BitVec.allOnes n) :
    (w &&& mask).extractLsb' i n = w.extractLsb' i n := by
  rw [BitVec.extractLsb'_and, ones, BitVec.and_allOnes]

private theorem extractLsb'_and_of_zeros {mask : BitVec 32} {i n : Nat}
    (zeros : mask.extractLsb' i n = 0#n) : (w &&& mask).extractLsb' i n = 0#n := by
  rw [BitVec.extractLsb'_and, zeros, BitVec.and_zero]

theorem and_eq_atomicType_iff {f5 : BitVec 5} :
    w &&& ~~~0x06000000#32 = atomicType src2 src1 f3 dest op f5 ↔
      opcode w = op ∧ rd w = dest ∧ funct3 w = f3 ∧ rs1 w = src1 ∧ rs2 w = src2 ∧
        funct5 w = f5 := by
  have upper : funct7 (w &&& ~~~0x06000000#32) = funct5 w ++ 0#2 := by
    unfold funct7 funct5
    have split (v : BitVec 32) : v.extractLsb' 25 7 = v.extractLsb' 27 5 ++ v.extractLsb' 25 2 := by
      rw [BitVec.extractLsb'_append_extractLsb'_eq_extractLsb' (by decide)]
    rw [split, extractLsb'_and_of_ones rfl, extractLsb'_and_of_zeros rfl]
  rw [atomicType, eq_rType_iff, upper, append_eq_append_iff]
  unfold opcode rd funct3 rs1 rs2
  rw [extractLsb'_and_of_ones rfl, extractLsb'_and_of_ones rfl, extractLsb'_and_of_ones rfl,
    extractLsb'_and_of_ones rfl, extractLsb'_and_of_ones rfl]
  simp only [and_true]

theorem atomicType_and_mask (f5 : BitVec 5) :
    atomicType src2 src1 f3 dest op f5 &&& ~~~0x06000000#32 =
      atomicType src2 src1 f3 dest op f5 := by
  obtain ⟨code, target, funct, source1, source2, -⟩ := eq_rType_iff.1
    (rfl : atomicType src2 src1 f3 dest op f5 = rType src2 src1 f3 dest op (f5 ++ 0#2))
  have upper : funct5 (atomicType src2 src1 f3 dest op f5) = f5 := by
    unfold funct5 atomicType rType
    simp (disch := decide) only [BitVec.extractLsb'_append_eq_of_le, BitVec.extractLsb'_eq_self,
      Nat.reduceSub]
  exact and_eq_atomicType_iff.2 ⟨code, target, funct, source1, source2, upper⟩

theorem and_eq_fence_iff :
    w &&& ~~~0xffff8f80#32 = iType 0 f3 0 op 0 ↔ opcode w = op ∧ funct3 w = f3 := by
  rw [eq_iType_iff]
  unfold opcode rd funct3 rs1 immI
  rw [extractLsb'_and_of_ones rfl, extractLsb'_and_of_zeros rfl, extractLsb'_and_of_ones rfl,
    extractLsb'_and_of_zeros rfl, extractLsb'_and_of_zeros rfl]
  simp

end Formats

end InstrWord

/-! ### Function tables -/

theorem RegOp.ofFunct?_eq_some {f3 : BitVec 3} {f7 : BitVec 7} {op : RegOp} :
    RegOp.ofFunct? f3 f7 = some op ↔ f3 = op.funct3 ∧ f7 = op.funct7 := by
  constructor
  · intro found
    unfold ofFunct? at found
    split at found <;> cases found <;> rename_i h7 h3 <;>
      exact ⟨BitVec.eq_of_toNat_eq h3, BitVec.eq_of_toNat_eq h7⟩
  · rintro ⟨rfl, rfl⟩
    cases op <;> rfl

theorem RegWordOp.ofFunct?_eq_some {f3 : BitVec 3} {f7 : BitVec 7} {op : RegWordOp} :
    RegWordOp.ofFunct? f3 f7 = some op ↔ f3 = op.funct3 ∧ f7 = op.funct7 := by
  constructor
  · intro found
    unfold ofFunct? at found
    split at found <;> cases found <;> rename_i h7 h3 <;>
      exact ⟨BitVec.eq_of_toNat_eq h3, BitVec.eq_of_toNat_eq h7⟩
  · rintro ⟨rfl, rfl⟩
    cases op <;> rfl

theorem ImmOp.ofFunct?_eq_some {f3 : BitVec 3} {op : ImmOp} :
    ImmOp.ofFunct? f3 = some op ↔ f3 = op.funct3 := by
  constructor
  · intro found
    unfold ofFunct? at found
    split at found <;> cases found <;> exact BitVec.eq_of_toNat_eq ‹_›
  · rintro rfl
    cases op <;> rfl

theorem ShiftOp.ofFunct?_eq_some {f3 : BitVec 3} {f6 : BitVec 6} {op : ShiftOp} :
    ShiftOp.ofFunct? f3 f6 = some op ↔ f3 = op.funct3 ∧ f6 = op.funct6 := by
  constructor
  · intro found
    unfold ofFunct? at found
    split at found <;> cases found <;> rename_i h3 h6 <;>
      exact ⟨BitVec.eq_of_toNat_eq h3, BitVec.eq_of_toNat_eq h6⟩
  · rintro ⟨rfl, rfl⟩
    cases op <;> rfl

theorem LoadOp.ofFunct?_eq_some {f3 : BitVec 3} {op : LoadOp} :
    LoadOp.ofFunct? f3 = some op ↔ f3 = op.funct3 := by
  constructor
  · intro found
    unfold ofFunct? at found
    split at found <;> cases found <;> exact BitVec.eq_of_toNat_eq ‹_›
  · rintro rfl
    cases op <;> rfl

theorem Width.ofStoreFunct?_eq_some {f3 : BitVec 3} {width : Width} :
    Width.ofStoreFunct? f3 = some width ↔ f3 = width.storeFunct3 := by
  constructor
  · intro found
    unfold ofStoreFunct? at found
    split at found <;> cases found <;> exact BitVec.eq_of_toNat_eq ‹_›
  · rintro rfl
    cases width <;> rfl

theorem BranchOp.ofFunct?_eq_some {f3 : BitVec 3} {op : BranchOp} :
    BranchOp.ofFunct? f3 = some op ↔ f3 = op.funct3 := by
  constructor
  · intro found
    unfold ofFunct? at found
    split at found <;> cases found <;> exact BitVec.eq_of_toNat_eq ‹_›
  · rintro rfl
    cases op <;> rfl

theorem AmoOp.ofFunct?_eq_some {f5 : BitVec 5} {op : AmoOp} :
    AmoOp.ofFunct? f5 = some op ↔ f5 = op.funct5 := by
  constructor
  · intro found
    unfold ofFunct? at found
    split at found <;> cases found <;> exact BitVec.eq_of_toNat_eq ‹_›
  · rintro rfl
    cases op <;> rfl

theorem AtomicWidth.ofFunct?_eq_some {f3 : BitVec 3} {width : AtomicWidth} :
    AtomicWidth.ofFunct? f3 = some width ↔ f3 = width.funct3 := by
  constructor
  · intro found
    unfold ofFunct? at found
    split at found <;> cases found <;> exact BitVec.eq_of_toNat_eq ‹_›
  · rintro rfl
    cases width <;> rfl

theorem CsrOp.ofFunct?_eq_some {f3 : BitVec 3} {op : CsrOp} {constant : Bool} :
    CsrOp.ofFunct? f3 = some (op, constant) ↔ f3 = op.funct3 constant := by
  constructor
  · intro found
    unfold ofFunct? at found
    split at found <;> cases found <;> exact BitVec.eq_of_toNat_eq ‹_›
  · rintro rfl
    cases op <;> cases constant <;> rfl

end RiscvBoard
