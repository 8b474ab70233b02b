import RiscvBoard.Proofs.Isa.Encoding

/-!
Decoding is the inverse of encoding: a hart of either width decodes a word to an instruction exactly
if it has the instruction and the word stands for it.
-/

set_option autoImplicit false

namespace RiscvBoard

open InstrWord

private theorem InstrWord.opcode_eq_ofNat {w : BitVec 32} {n : Nat} (code : (opcode w).toNat = n) :
    opcode w = BitVec.ofNat 7 n := by
  rw [← code, BitVec.ofNat_toNat, BitVec.setWidth_eq]

namespace Instr

/-! ### From the word to the instruction -/

private theorem isEncodedBy_of_decodePrivileged {w : BitVec 32} {i : Instr} {xlen : Xlen}
    (code : opcode w = 0x73) (funct : funct3 w = 0) (found : decodePrivileged w = some i) :
    i.validFor xlen ∧ i.IsEncodedBy w := by
  unfold decodePrivileged at found
  split at found
  · contradiction
  next dest =>
  have dest := Decidable.not_not.1 dest
  split at found
  · cases found
    refine ⟨by cases xlen <;> rfl, (isEncodedBy_iff_eq rfl).2 ?_⟩
    exact eq_rType_iff.2 ⟨code, dest, funct, rfl, rfl, ‹_›⟩
  split at found
  · contradiction
  next source =>
  have source := Decidable.not_not.1 source
  split at found <;> cases found <;> rename_i imm <;>
    refine ⟨by cases xlen <;> rfl, (isEncodedBy_iff_eq rfl).2 ?_⟩ <;>
    exact eq_iType_iff.2 ⟨code, dest, funct, source, BitVec.eq_of_toNat_eq imm⟩

private theorem isEncodedBy_of_decodeAtomic {w : BitVec 32} {i : Instr} {xlen : Xlen}
    {width : AtomicWidth} (code : opcode w = 0x2f) (funct : funct3 w = width.funct3)
    (wide : xlen = .rv32 → width = .word) (found : decodeAtomic w width = some i) :
    i.validFor xlen ∧ i.IsEncodedBy w := by
  have narrow : xlen = .rv32 → (width != .double) = true := by
    intro small
    rw [wide small]
    rfl
  unfold decodeAtomic at found
  split at found
  · next f5 =>
    split at found
    · cases found
      refine ⟨by cases xlen <;> first | rfl | exact narrow rfl, ?_⟩
      exact and_eq_atomicType_iff.2 ⟨code, rfl, funct, rfl, ‹_›, BitVec.eq_of_toNat_eq f5⟩
    · contradiction
  · next f5 =>
    cases found
    refine ⟨by cases xlen <;> first | rfl | exact narrow rfl, ?_⟩
    exact and_eq_atomicType_iff.2 ⟨code, rfl, funct, rfl, rfl, BitVec.eq_of_toNat_eq f5⟩
  · obtain ⟨op, table, rfl⟩ := Option.map_eq_some_iff.1 found
    refine ⟨by cases xlen <;> first | rfl | exact narrow rfl, ?_⟩
    exact and_eq_atomicType_iff.2 ⟨code, rfl, funct, rfl, rfl, AmoOp.ofFunct?_eq_some.1 table⟩

private theorem isEncodedBy_of_decode {xlen : Xlen} {w : BitVec 32} {i : Instr}
    (h : Instr.decode xlen w = .ok i) : i.validFor xlen ∧ i.IsEncodedBy w := by
  unfold Instr.decode at h
  simp only at h
  split at h
  case h_1 code =>
    split at h <;> cases h
    next found =>
    obtain ⟨op, table, rfl⟩ := Option.map_eq_some_iff.1 found
    obtain ⟨h3, h7⟩ := RegOp.ofFunct?_eq_some.1 table
    refine ⟨by cases xlen <;> rfl, (isEncodedBy_iff_eq rfl).2 ?_⟩
    exact eq_rType_iff.2 ⟨opcode_eq_ofNat code, rfl, h3, rfl, rfl, h7⟩
  case h_2 code =>
    split at h
    next op table =>
      cases h
      refine ⟨by cases xlen <;> rfl, (isEncodedBy_iff_eq rfl).2 ?_⟩
      exact eq_iType_iff.2 ⟨opcode_eq_ofNat code, rfl, ImmOp.ofFunct?_eq_some.1 table, rfl, rfl⟩
    split at h
    · contradiction
    next short =>
    split at h <;> cases h
    next found =>
    obtain ⟨op, table, rfl⟩ := Option.map_eq_some_iff.1 found
    obtain ⟨h3, h6⟩ := ShiftOp.ofFunct?_eq_some.1 table
    refine ⟨by cases xlen <;> simp_all [validFor], (isEncodedBy_iff_eq rfl).2 ?_⟩
    exact eq_shift_iff.2 ⟨opcode_eq_ofNat code, rfl, h3, rfl, h6, rfl⟩
  case h_3 code =>
    split at h
    next op table =>
      have encoded : (load op (rd w) (rs1 w) (immI w)).IsEncodedBy w :=
        (isEncodedBy_iff_eq rfl).2 (eq_iType_iff.2
          ⟨opcode_eq_ofNat code, rfl, LoadOp.ofFunct?_eq_some.1 table, rfl, rfl⟩)
      split at h
      · split at h <;> cases h
        subst xlen
        exact ⟨rfl, encoded⟩
      · cases h
        refine ⟨?_, encoded⟩
        cases xlen <;> simp_all [validFor]
    next => contradiction
  case h_4 code =>
    split at h
    next width table =>
      have encoded : (store width (rs1 w) (rs2 w) (immS w)).IsEncodedBy w :=
        (isEncodedBy_iff_eq rfl).2 (eq_sType_iff.2
          ⟨opcode_eq_ofNat code, Width.ofStoreFunct?_eq_some.1 table, rfl, rfl, rfl⟩)
      split at h
      · split at h <;> cases h
        subst xlen
        exact ⟨rfl, encoded⟩
      · cases h
        refine ⟨?_, encoded⟩
        cases xlen <;> simp_all [validFor]
    next => contradiction
  case h_5 code =>
    split at h <;> cases h
    next found =>
    obtain ⟨op, table, rfl⟩ := Option.map_eq_some_iff.1 found
    refine ⟨by cases xlen <;> rfl, (isEncodedBy_iff_eq rfl).2 ?_⟩
    exact eq_bType_iff.2 ⟨opcode_eq_ofNat code, BranchOp.ofFunct?_eq_some.1 table, rfl, rfl, rfl⟩
  case h_6 code =>
    cases h
    refine ⟨by cases xlen <;> rfl, (isEncodedBy_iff_eq rfl).2 ?_⟩
    exact eq_uType_iff.2 ⟨opcode_eq_ofNat code, rfl, rfl⟩
  case h_7 code =>
    cases h
    refine ⟨by cases xlen <;> rfl, (isEncodedBy_iff_eq rfl).2 ?_⟩
    exact eq_uType_iff.2 ⟨opcode_eq_ofNat code, rfl, rfl⟩
  case h_8 code =>
    cases h
    refine ⟨by cases xlen <;> rfl, (isEncodedBy_iff_eq rfl).2 ?_⟩
    exact eq_jType_iff.2 ⟨opcode_eq_ofNat code, rfl, rfl⟩
  case h_9 code =>
    split at h <;> cases h
    next found =>
    split at found <;> cases found
    next funct =>
    refine ⟨by cases xlen <;> rfl, (isEncodedBy_iff_eq rfl).2 ?_⟩
    exact eq_iType_iff.2 ⟨opcode_eq_ofNat code, rfl, funct, rfl, rfl⟩
  case h_10 code =>
    split at h
    next funct =>
      split at h <;> cases h
      next found => exact isEncodedBy_of_decodePrivileged (opcode_eq_ofNat code) funct found
    next =>
      split at h <;> cases h
      next found =>
      obtain ⟨⟨op, constant⟩, table, rfl⟩ := Option.map_eq_some_iff.1 found
      refine ⟨by cases xlen <;> rfl, (isEncodedBy_iff_eq rfl).2 ?_⟩
      have funct := CsrOp.ofFunct?_eq_some.1 table
      cases constant <;> exact eq_iType_iff.2 ⟨opcode_eq_ofNat code, rfl, funct, rfl, rfl⟩
  case h_11 code =>
    split at h
    next funct =>
      split at h <;> cases h
      subst xlen
      refine ⟨rfl, (isEncodedBy_iff_eq rfl).2 ?_⟩
      exact eq_iType_iff.2 ⟨opcode_eq_ofNat code, rfl, funct, rfl, rfl⟩
    split at h
    · contradiction
    next short =>
    split at h
    next found =>
      split at h <;> cases h
      subst xlen
      obtain ⟨op, table, rfl⟩ := Option.map_eq_some_iff.1 found
      obtain ⟨h3, h6⟩ := ShiftOp.ofFunct?_eq_some.1 table
      refine ⟨rfl, (isEncodedBy_iff_eq rfl).2 ?_⟩
      exact eq_wordShift_iff.2
        ⟨opcode_eq_ofNat code, rfl, h3, rfl, rfl, h6, Bool.eq_false_iff.2 short⟩
    next => contradiction
  case h_12 code =>
    split at h
    next found =>
      split at h <;> cases h
      subst xlen
      obtain ⟨op, table, rfl⟩ := Option.map_eq_some_iff.1 found
      obtain ⟨h3, h7⟩ := RegWordOp.ofFunct?_eq_some.1 table
      refine ⟨rfl, (isEncodedBy_iff_eq rfl).2 ?_⟩
      exact eq_rType_iff.2 ⟨opcode_eq_ofNat code, rfl, h3, rfl, rfl, h7⟩
    next => contradiction
  case h_13 code =>
    split at h
    next table =>
      split at h <;> cases h
      next found =>
      exact isEncodedBy_of_decodeAtomic (opcode_eq_ofNat code)
        (AtomicWidth.ofFunct?_eq_some.1 table) (fun _ => rfl) found
    next table =>
      split at h
      next full =>
        subst xlen
        split at h <;> cases h
        next found =>
        exact isEncodedBy_of_decodeAtomic (opcode_eq_ofNat code)
          (AtomicWidth.ofFunct?_eq_some.1 table) nofun found
      next => contradiction
    next => contradiction
  case h_14 code =>
    split at h <;> cases h
    all_goals
      refine ⟨by cases xlen <;> rfl, ?_⟩
      exact and_eq_fence_iff.2 ⟨opcode_eq_ofNat code, BitVec.eq_of_toNat_eq ‹_›⟩
  case h_15 => contradiction

/-! ### From the instruction to the word -/

private theorem eq_word_of_valid {xlen : Xlen} {width : AtomicWidth}
    (valid : xlen = .rv32 → (width != .double) = true) (narrow : xlen = .rv32) : width = .word := by
  cases width with
  | word => rfl
  | double => exact absurd (valid narrow) (by decide)

private theorem decode_atomic {xlen : Xlen} {w : BitVec 32} {i : Instr} {width : AtomicWidth}
    (code : opcode w = 0x2f) (funct : funct3 w = width.funct3)
    (wide : xlen = .rv32 → width = .word) (found : decodeAtomic w width = some i) :
    decode xlen w = .ok i := by
  have table := AtomicWidth.ofFunct?_eq_some.2 funct
  cases width <;> cases xlen <;> simp_all [decode]

theorem decode_of_isEncodedBy {xlen : Xlen} {w : BitVec 32} {i : Instr} (valid : i.validFor xlen)
    (encoded : i.IsEncodedBy w) : decode xlen w = .ok i := by
  cases i with
  | regReg op dest src1 src2 =>
    obtain ⟨code, rfl, h3, rfl, rfl, h7⟩ := eq_rType_iff.1 ((isEncodedBy_iff_eq rfl).1 encoded)
    simp [decode, code, RegOp.ofFunct?_eq_some.2 ⟨h3, h7⟩]
  | regRegWord op dest src1 src2 =>
    obtain ⟨code, rfl, h3, rfl, rfl, h7⟩ := eq_rType_iff.1 ((isEncodedBy_iff_eq rfl).1 encoded)
    cases xlen with
    | rv32 => contradiction
    | rv64 => simp [decode, code, RegWordOp.ofFunct?_eq_some.2 ⟨h3, h7⟩]
  | regImm op dest src imm =>
    obtain ⟨code, rfl, h3, rfl, rfl⟩ := eq_iType_iff.1 ((isEncodedBy_iff_eq rfl).1 encoded)
    simp [decode, code, ImmOp.ofFunct?_eq_some.2 h3]
  | addiw dest src imm =>
    obtain ⟨code, rfl, h3, rfl, rfl⟩ := eq_iType_iff.1 ((isEncodedBy_iff_eq rfl).1 encoded)
    cases xlen with
    | rv32 => contradiction
    | rv64 => simp [decode, code, h3]
  | shiftImm op dest src amount =>
    obtain ⟨code, rfl, h3, rfl, h6, rfl⟩ := eq_shift_iff.1 ((isEncodedBy_iff_eq rfl).1 encoded)
    have other : ImmOp.ofFunct? (funct3 w) = none := by rw [h3]; cases op <;> rfl
    have short : ¬ (xlen = .rv32 ∧ (shamt w).msb = true) := by
      rintro ⟨rfl, long⟩
      simp [validFor, long] at valid
    simp [decode, code, other, short, ShiftOp.ofFunct?_eq_some.2 ⟨h3, h6⟩]
  | shiftImmWord op dest src amount =>
    obtain ⟨code, rfl, h3, rfl, rfl, h6, short⟩ :=
      eq_wordShift_iff.1 ((isEncodedBy_iff_eq rfl).1 encoded)
    have other : ¬ funct3 w = 0#3 := by rw [h3]; cases op <;> decide
    cases xlen with
    | rv32 => contradiction
    | rv64 => simp [decode, code, other, short, ShiftOp.ofFunct?_eq_some.2 ⟨h3, h6⟩]
  | load op dest src off =>
    obtain ⟨code, rfl, h3, rfl, rfl⟩ := eq_iType_iff.1 ((isEncodedBy_iff_eq rfl).1 encoded)
    have table := LoadOp.ofFunct?_eq_some.2 h3
    cases xlen with
    | rv32 =>
      have narrow : ¬ (op = .double ∨ op = .wordUnsigned) := by simpa [validFor] using valid
      simp [decode, code, table, narrow]
    | rv64 => simp [decode, code, table]
  | store width src1 src2 off =>
    obtain ⟨code, h3, rfl, rfl, rfl⟩ := eq_sType_iff.1 ((isEncodedBy_iff_eq rfl).1 encoded)
    have table := Width.ofStoreFunct?_eq_some.2 h3
    cases xlen with
    | rv32 =>
      have narrow : width ≠ .double := by simpa [validFor] using valid
      simp [decode, code, table, narrow]
    | rv64 => simp [decode, code, table]
  | branch op src1 src2 off =>
    obtain ⟨code, h3, rfl, rfl, rfl⟩ := eq_bType_iff.1 ((isEncodedBy_iff_eq rfl).1 encoded)
    simp [decode, code, BranchOp.ofFunct?_eq_some.2 h3]
  | jal dest off =>
    obtain ⟨code, rfl, rfl⟩ := eq_jType_iff.1 ((isEncodedBy_iff_eq rfl).1 encoded)
    simp [decode, code]
  | jalr dest src off =>
    obtain ⟨code, rfl, h3, rfl, rfl⟩ := eq_iType_iff.1 ((isEncodedBy_iff_eq rfl).1 encoded)
    simp [decode, code, h3]
  | lui dest imm =>
    obtain ⟨code, rfl, rfl⟩ := eq_uType_iff.1 ((isEncodedBy_iff_eq rfl).1 encoded)
    simp [decode, code]
  | auipc dest imm =>
    obtain ⟨code, rfl, rfl⟩ := eq_uType_iff.1 ((isEncodedBy_iff_eq rfl).1 encoded)
    simp [decode, code]
  | lr width dest src =>
    obtain ⟨code, rfl, h3, rfl, h2, h5⟩ := and_eq_atomicType_iff.1 encoded
    refine decode_atomic code h3 (eq_word_of_valid (by rintro rfl; exact valid)) ?_
    simp [decodeAtomic, h5, h2]
  | sc width dest src1 src2 =>
    obtain ⟨code, rfl, h3, rfl, rfl, h5⟩ := and_eq_atomicType_iff.1 encoded
    refine decode_atomic code h3 (eq_word_of_valid (by rintro rfl; exact valid)) ?_
    simp [decodeAtomic, h5]
  | amo op width dest src1 src2 =>
    obtain ⟨code, rfl, h3, rfl, rfl, h5⟩ := and_eq_atomicType_iff.1 encoded
    refine decode_atomic code h3 (eq_word_of_valid (by rintro rfl; exact valid)) ?_
    cases op <;> simp [decodeAtomic, h5, AmoOp.funct5, AmoOp.ofFunct?]
  | csr op dest number operand =>
    obtain ⟨code, rfl, h3, source, rfl⟩ := eq_iType_iff.1 ((isEncodedBy_iff_eq rfl).1 encoded)
    have table := CsrOp.ofFunct?_eq_some.2 h3
    have system : ¬ funct3 w = 0#3 := by
      rw [h3]
      generalize operand.isConstant = constant
      cases op <;> cases constant <;> decide
    cases operand <;> simp [decode, code, system, table, source, CsrOperand.field,
      CsrOperand.isConstant]
  | sfenceVma src1 src2 =>
    obtain ⟨code, dest, h3, rfl, rfl, h7⟩ := eq_rType_iff.1 ((isEncodedBy_iff_eq rfl).1 encoded)
    simp [decode, code, h3, decodePrivileged, dest, h7]
  | fence | fenceI =>
    obtain ⟨code, h3⟩ := and_eq_fence_iff.1 encoded
    simp [decode, code, h3]
  | ecall | ebreak | mret | sret | wfi =>
    obtain ⟨code, dest, h3, source, imm⟩ := eq_iType_iff.1 ((isEncodedBy_iff_eq rfl).1 encoded)
    have upper : ¬ funct7 w = 0x09#7 := by
      rw [funct7_eq_extractLsb', imm]
      decide
    simp [decode, code, h3, decodePrivileged, dest, upper, source, imm]

/-- The words that decode to an instruction are those that stand for it. -/
theorem decode_eq_ok_iff {xlen : Xlen} {w : BitVec 32} {i : Instr} :
    decode xlen w = .ok i ↔ i.validFor xlen ∧ i.IsEncodedBy w :=
  ⟨isEncodedBy_of_decode, fun h => decode_of_isEncodedBy h.1 h.2⟩

theorem encode_isEncodedBy (i : Instr) : i.IsEncodedBy i.encode := by
  cases i with
  | lr | sc | amo => exact atomicType_and_mask _
  | fence | fenceI => rfl
  | _ => exact (isEncodedBy_iff_eq rfl).2 rfl

/-- Decoding is the inverse of encoding, for each register width. The encoding of an instruction
that the hart has is decoded to that instruction. A word is decoded only to an instruction that the
hart has, and it is the encoding of that instruction, up to the ordering bits of an atomic access
and the operands of a fence. So two words that are decoded to the same instruction differ in no
other bit. -/
theorem decode_inverts_encode (xlen : Xlen) :
    (∀ i : Instr, i.validFor xlen → decode xlen i.encode = .ok i) ∧
    (∀ (w : BitVec 32) (i : Instr), decode xlen w = .ok i →
      i.validFor xlen ∧ w &&& ~~~i.freeBits = i.encode) ∧
    ∀ (w v : BitVec 32) (i : Instr), decode xlen w = .ok i → decode xlen v = .ok i →
      w &&& ~~~i.freeBits = v &&& ~~~i.freeBits := by
  refine ⟨fun i valid => ?_, fun w i decoded => ?_, fun w v i first second => ?_⟩
  · exact decode_of_isEncodedBy valid i.encode_isEncodedBy
  · exact isEncodedBy_of_decode decoded
  · exact (isEncodedBy_of_decode first).2.trans (isEncodedBy_of_decode second).2.symm

/-- A branch back by four bytes: its offset is spread over four fields. -/
theorem decode_inverts_encode_branch :
    (branch .eq 1 2 (-2)).encode = 0xfe208ee3#32 ∧
      decode .rv32 0xfe208ee3#32 = .ok (branch .eq 1 2 (-2)) := by
  have word : (branch .eq 1 2 (-2)).encode = 0xfe208ee3#32 := rfl
  have decoded := (decode_inverts_encode .rv32).1 (branch .eq 1 2 (-2)) rfl
  rw [word] at decoded
  exact ⟨word, decoded⟩

end Instr

end RiscvBoard
