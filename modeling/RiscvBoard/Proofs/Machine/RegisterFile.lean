import RiscvBoard.Machine.Inspect

/-!
The register file under writes through any indices. A register reads as the last value that was
written to it, in canonical form, and register 0 reads as zero. An index is reduced to five bits,
but it is compared with 0 before that; so the other indices that name register 0 do write it, and
the zero is kept only where no write goes through one of them.
-/

set_option autoImplicit false

namespace RiscvBoard

structure IndexedWrite where
  index : UInt8
  value : UInt64

def SameRegister (i j : UInt8) : Prop :=
  i.toNat % 32 = j.toNat % 32

instance (i j : UInt8) : Decidable (SameRegister i j) :=
  inferInstanceAs (Decidable (_ = _))

/-- An index that names register 0 and yet is not 0, so that a write through it is not dropped. -/
def IsZeroAlias (i : UInt8) : Prop :=
  SameRegister i 0 ∧ i ≠ 0

instance (i : UInt8) : Decidable (IsZeroAlias i) :=
  inferInstanceAs (Decidable (_ ∧ _))

/-- The value of the last of the writes that go through an index of the given kind. -/
def lastWritten? (through : UInt8 → Prop) [DecidablePred through] (writes : List IndexedWrite) :
    Option UInt64 :=
  (writes.reverse.find? fun w => through w.index).map IndexedWrite.value

section LastWritten

variable {through : UInt8 → Prop} [DecidablePred through]

private theorem lastWritten?_cons (w : IndexedWrite) (rest : List IndexedWrite) :
    lastWritten? through (w :: rest) =
      (lastWritten? through rest).or (if through w.index then some w.value else none) := by
  unfold lastWritten?
  rw [List.reverse_cons, List.find?_append, Option.map_or, List.find?_singleton]
  by_cases goes : through w.index <;> simp [goes]

private theorem lastWritten?_eq_none {writes : List IndexedWrite}
    (never : ∀ w ∈ writes, ¬ through w.index) : lastWritten? through writes = none := by
  rw [lastWritten?, Option.map_eq_none_iff, List.find?_eq_none]
  intro w member
  simpa using never w (List.mem_reverse.1 member)

private theorem lastWritten?_congr {through' : UInt8 → Prop} [DecidablePred through']
    (same : ∀ i, through i ↔ through' i) (writes : List IndexedWrite) :
    lastWritten? through writes = lastWritten? through' writes := by
  simp only [lastWritten?, same]

end LastWritten

namespace Hart

def writeAll (h : Hart) (writes : List IndexedWrite) : Hart :=
  writes.foldl (fun h w => h.writeIndex w.index w.value) h

@[simp] theorem xlen_writeIndex (h : Hart) (i : UInt8) (value : UInt64) :
    (h.writeIndex i value).xlen = h.xlen := by
  unfold writeIndex
  split <;> rfl

private theorem readIndex_writeIndex (h : Hart) (i j : UInt8) (value : UInt64) :
    (h.writeIndex i value).readIndex j =
      if SameRegister i j ∧ i ≠ 0 then h.xlen.canonical value else h.readIndex j := by
  unfold writeIndex readIndex SameRegister
  by_cases dropped : i = 0
  · simp only [dropped, ne_eq, not_true_eq_false, and_false, if_false, if_true]
  · simp only [dropped, ne_eq, not_false_eq_true, and_true, if_false]
    exact Vector.getElem_set _ _

private theorem readIndex_congr (h : Hart) {i j : UInt8} (same : SameRegister i j) :
    h.readIndex i = h.readIndex j := by
  unfold SameRegister at same
  simp only [readIndex, same]

private theorem xlen_writeAll (h : Hart) (writes : List IndexedWrite) :
    (h.writeAll writes).xlen = h.xlen := by
  induction writes generalizing h with
  | nil => rfl
  | cons w rest ih => exact (ih _).trans (h.xlen_writeIndex w.index w.value)

private theorem readIndex_writeAll (h : Hart) (writes : List IndexedWrite) (j : UInt8) :
    (h.writeAll writes).readIndex j =
      ((lastWritten? (fun i => SameRegister i j ∧ i ≠ 0) writes).map h.xlen.canonical).getD
        (h.readIndex j) := by
  induction writes generalizing h with
  | nil => rfl
  | cons w rest ih =>
    have later := ih (h.writeIndex w.index w.value)
    rw [xlen_writeIndex, readIndex_writeIndex] at later
    rw [lastWritten?_cons]
    refine later.trans ?_
    cases lastWritten? (fun i => SameRegister i j ∧ i ≠ 0) rest with
    | some value => rfl
    | none => by_cases lands : SameRegister w.index j ∧ w.index ≠ 0 <;> simp [lands]

end Hart

namespace Machine

def writeRegisters (m : Machine) (writes : List IndexedWrite) : Machine :=
  { m with hart := m.hart.writeAll writes }

private theorem inspectRegister_eq (m : Machine) (j : UInt8) :
    m.inspectRegister (j.toNat % 32) = .ok (m.xlen.truncate (m.hart.readIndex j)) := by
  have inside : j.toNat % 32 < 32 := Nat.mod_lt _ (by decide)
  rw [inspectRegister, dif_pos inside]
  rfl

/-- What the registers of a machine read after writes. -/
structure ReadsWritten (m : Machine) (writes : List IndexedWrite) : Prop where
  /-- A register other than 0 reads as the last value that was written to it, if there is one. -/
  other (j : UInt8) (other : ¬ SameRegister j 0) :
    (m.writeRegisters writes).hart.readIndex j =
      ((lastWritten? (SameRegister · j) writes).map m.xlen.canonical).getD (m.hart.readIndex j)
  /-- Register 0 reads as zero, or as the last value that was written through an index which names
  it without being 0. -/
  zero (j : UInt8) (zero : SameRegister j 0) :
    (m.writeRegisters writes).hart.readIndex j =
      ((lastWritten? IsZeroAlias writes).map m.xlen.canonical).getD 0
  /-- Without a write through such an index register 0 reads as zero, also for a debugger. -/
  hardWired (plain : ∀ w ∈ writes, ¬ IsZeroAlias w.index) :
    (∀ j, SameRegister j 0 → (m.writeRegisters writes).hart.readIndex j = 0) ∧
      (m.writeRegisters writes).inspectRegister 0 = .ok 0
  /-- A debugger shows what is read, without the bits above the register width. -/
  inspected (j : UInt8) :
    (m.writeRegisters writes).inspectRegister (j.toNat % 32) =
      .ok (m.xlen.truncate ((m.writeRegisters writes).hart.readIndex j))

private theorem xlen_writeRegisters (m : Machine) (writes : List IndexedWrite) :
    (m.writeRegisters writes).xlen = m.xlen :=
  m.hart.xlen_writeAll writes

private theorem readIndex_zero_writeRegisters {m : Machine} (zero : m.hart.readIndex 0 = 0)
    (writes : List IndexedWrite) {j : UInt8} (same : SameRegister j 0) :
    (m.writeRegisters writes).hart.readIndex j =
      ((lastWritten? IsZeroAlias writes).map m.xlen.canonical).getD 0 := by
  have aliases (i : UInt8) : SameRegister i 0 ∧ i ≠ 0 ↔ IsZeroAlias i := Iff.rfl
  have reads := m.hart.readIndex_writeAll writes 0
  rw [zero, lastWritten?_congr aliases] at reads
  rw [Hart.readIndex_congr _ same]
  exact reads

/-- After any writes of registers, through any indices, every register but 0 reads as the canonical
form of the last value that was written to it. So does register 0 of the values that go through an
index other than 0; it stays zero if there are none. -/
theorem registers_read_written {m : Machine} (zero : m.hart.readIndex 0 = 0)
    (writes : List IndexedWrite) : m.ReadsWritten writes where
  other j other := by
    have counts (i : UInt8) : SameRegister i j ∧ i ≠ 0 ↔ SameRegister i j := by
      refine ⟨And.left, fun same => ⟨same, ?_⟩⟩
      rintro rfl
      exact other same.symm
    have reads := m.hart.readIndex_writeAll writes j
    rwa [lastWritten?_congr counts] at reads
  zero _ same := readIndex_zero_writeRegisters zero writes same
  hardWired plain := by
    have none := lastWritten?_eq_none plain
    have reads (j : UInt8) (same : SameRegister j 0) :
        (m.writeRegisters writes).hart.readIndex j = 0 := by
      rw [readIndex_zero_writeRegisters zero writes same, none]
      rfl
    refine ⟨reads, (inspectRegister_eq _ 0).trans ?_⟩
    rw [reads 0 rfl]
    cases (m.writeRegisters writes).xlen <;> rfl
  inspected j := by
    rw [inspectRegister_eq, xlen_writeRegisters]

/-- On a narrow hart two indices of register 5 are used, and register 0 is written through index 0
only. -/
theorem registers_read_written_wrapping :
    let m := (reset 0 .rv32).writeRegisters [⟨5, 1⟩, ⟨37, 0x80000000⟩, ⟨0, 7⟩]
    m.hart.readIndex 5 = 0xffffffff80000000 ∧ m.hart.readIndex 0 = 0 ∧
      m.inspectRegister 5 = .ok 0x80000000 ∧ m.inspectRegister 0 = .ok 0 := by
  have laws := registers_read_written (m := reset 0 .rv32) rfl
    [⟨5, 1⟩, ⟨37, 0x80000000⟩, ⟨0, 7⟩]
  have plain := laws.hardWired (by decide)
  have five := laws.other 5 (by decide)
  refine ⟨five, plain.1 0 rfl, (laws.inspected 5).trans ?_, plain.2⟩
  rw [five]
  rfl

/-- A write through index 32 gets into register 0. -/
theorem zero_register_written :
    ((reset 0 .rv64).writeRegisters [⟨32, 5⟩]).hart.readIndex 0 = 5 ∧
      ((reset 0 .rv64).writeRegisters [⟨32, 5⟩]).inspectRegister 0 = .ok 5 :=
  ⟨rfl, rfl⟩

end Machine

end RiscvBoard
