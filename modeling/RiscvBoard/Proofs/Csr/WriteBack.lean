import RiscvBoard.Proofs.Csr.WellFormed

/-!
Writing back what was read. A legal control state stores only values that are their own legal form,
so a write of the value that a register shows leaves the control state as it is, whatever view of a
shared field the register is.
-/

set_option autoImplicit false

namespace RiscvBoard

/-! ### Legal forms of legal values -/

private theorem Xlen.truncate_of_fits {xlen : Xlen} {value : UInt64} (fits : xlen.Fits value) :
    xlen.truncate value = value := by
  cases xlen with
  | rv32 => exact (fits_rv32.1 fits).and_eq
  | rv64 => rfl

private theorem IsEven.clear_eq {addr : UInt64} (even : IsEven addr) : addr &&& ~~~1 = addr := by
  rw [UInt64.and_comm]
  exact not_and_of_disjoint ((UInt64.and_comm 1 addr).trans even)

private theorem legalTrapVector_of_legal {vector : UInt64} (legal : LegalVector vector) :
    legalTrapVector vector = vector :=
  if_neg (UInt64.not_le.2 legal)

namespace CsrFile

private theorem clear_or_and (word mask : UInt64) :
    (word &&& ~~~mask) ||| (word &&& mask) = word := by
  rw [← UInt64.toBitVec_inj]
  ext i inside
  simp
  grind

theorem merge_of_and_eq {mask old value : UInt64} (same : value &&& mask = old &&& mask) :
    merge mask old value = old := by
  rw [merge, same, clear_or_and]

private theorem legalStatus_self (status : UInt64) : legalStatus status status = status := by
  unfold legalStatus
  simp only [merge_of_and_eq]
  split <;> rfl

private theorem replaceLow_self (xlen : Xlen) (counter : UInt64) :
    replaceLow xlen counter (xlen.truncate counter) = counter := by
  cases xlen with
  | rv32 => exact clear_or_and counter 0xffffffff
  | rv64 => rfl

private theorem replaceHigh_self (xlen : Xlen) (counter : UInt64) :
    replaceHigh counter (xlen.truncate (counter >>> 32)) = counter := by
  have bound := counter.toNat_lt
  have upper : (counter >>> 32).toNat = counter.toNat / 2 ^ 32 := by
    rw [UInt64.toNat_shiftRight]
    exact Nat.shiftRight_eq_div_pow _ 32
  have fits : xlen.Fits (counter >>> 32) := by
    cases xlen with
    | rv32 => exact UInt64.lt_iff_toNat_lt.2 (by rw [upper]; exact Nat.div_lt_of_lt_mul bound)
    | rv64 => trivial
  have low : (counter &&& 0xffffffff).toNat = counter.toNat % 2 ^ 32 :=
    Nat.and_two_pow_sub_one_eq_mod _ 32
  have high : (counter >>> 32 <<< 32).toNat = (counter.toNat / 2 ^ 32) <<< 32 := by
    rw [UInt64.toNat_shiftLeft, upper]
    refine Nat.mod_eq_of_lt ?_
    show (counter.toNat / 2 ^ 32) <<< 32 < 2 ^ 64
    rw [Nat.shiftLeft_eq]
    omega
  rw [Xlen.truncate_of_fits fits, replaceHigh]
  apply UInt64.toNat_inj.1
  rw [UInt64.toNat_or, low, high, Nat.or_comm,
    ← Nat.shiftLeft_add_eq_or_of_lt (Nat.mod_lt _ (by decide)), Nat.shiftLeft_eq]
  omega

/-! ### Settled control states -/

/-- The legal control states whose counter controls are legal as well. -/
structure Settled (c : CsrFile) : Prop extends WellFormed c where
  mcounteren : Within 0xffffffff c.mcounteren
  scounteren : Within 0xffffffff c.scounteren
  mcountinhibit : Within 0xfffffffd c.mcountinhibit

theorem reset_settled (xlen : Xlen) : (reset xlen).Settled :=
  { reset_wellFormed xlen with
    mcounteren := .zero _
    scounteren := .zero _
    mcountinhibit := .zero _ }

namespace Settled

variable {c d : CsrFile} {number : UInt16} {value : UInt64}

private theorem set (settled : c.Settled) (fits : c.xlen.Fits value) (csr : Csr) :
    (c.set value csr).Settled := by
  have legal := settled.toWellFormed.set fits csr
  obtain ⟨-, user, supervisor, inhibit⟩ := settled
  cases csr with
  | mcounteren => exact ⟨legal, .and_mask _ value, supervisor, inhibit⟩
  | scounteren => exact ⟨legal, user, .and_mask _ value, inhibit⟩
  | mcountinhibit => exact ⟨legal, user, supervisor, .and_mask _ value⟩
  | satp =>
    by_cases supported : supportsRoot c.xlen value
    · simp only [CsrFile.set, if_pos supported] at legal ⊢
      exact ⟨legal, user, supervisor, inhibit⟩
    · simp only [CsrFile.set, if_neg supported] at legal ⊢
      exact ⟨legal, user, supervisor, inhibit⟩
  | _ => exact ⟨legal, user, supervisor, inhibit⟩

theorem write (settled : c.Settled) (written : c.write number value = .ok d) : d.Settled := by
  obtain ⟨csr, -, -, rfl⟩ := write_eq_ok_iff.1 written
  exact settled.set (c.xlen.fits_truncate value) csr

/-- The value that a register shows is its own legal form. The registers that show part of a shared
field write a part of what they show. -/
private theorem set_get (settled : c.Settled) (csr : Csr) :
    c.set (c.xlen.truncate (c.get csr)) csr = c := by
  have narrow := settled.narrow
  cases csr with
  | sstatus =>
    have fits := settled.mstatus.fits.and_left Status.supervisorReadable
    have same : c.mstatus &&& Status.supervisorReadable &&& Status.supervisorWritable =
        c.mstatus &&& Status.supervisorWritable := UInt64.and_assoc _ _ _
    simp only [CsrFile.set, get, Xlen.truncate_of_fits fits, merge_of_and_eq same]
  | sie =>
    have fits := (narrow.mie.and_left c.mideleg).and_left Interrupt.supervisorBits
    have same : c.mie &&& c.mideleg &&& Interrupt.supervisorBits &&&
        (c.mideleg &&& Interrupt.supervisorBits) =
          c.mie &&& (c.mideleg &&& Interrupt.supervisorBits) := by
      rw [UInt64.and_assoc c.mie, UInt64.and_assoc, UInt64.and_self]
    simp only [CsrFile.set, get, Xlen.truncate_of_fits fits, merge_of_and_eq same]
  | sip =>
    have fits := (narrow.mip.and_left c.mideleg).and_left Interrupt.supervisorBits
    have same : c.mip &&& c.mideleg &&& Interrupt.supervisorBits &&&
        (Interrupt.supervisorSoftware.bit &&& c.mideleg) =
          c.mip &&& (Interrupt.supervisorSoftware.bit &&& c.mideleg) := by
      have shown : Interrupt.supervisorBits &&& Interrupt.supervisorSoftware.bit =
          Interrupt.supervisorSoftware.bit := by decide
      rw [UInt64.and_assoc (c.mip &&& c.mideleg), ← UInt64.and_assoc Interrupt.supervisorBits,
        shown, UInt64.and_assoc c.mip, UInt64.and_comm c.mideleg, UInt64.and_assoc,
        UInt64.and_self]
    simp only [CsrFile.set, get, Xlen.truncate_of_fits fits, merge_of_and_eq same]
  | satp =>
    simp only [CsrFile.set, get, Xlen.truncate_of_fits narrow.satp]
    split <;> rfl
  | stvec =>
    simp only [CsrFile.set, get, Xlen.truncate_of_fits narrow.stvec,
      legalTrapVector_of_legal settled.stvec]
  | mtvec =>
    simp only [CsrFile.set, get, Xlen.truncate_of_fits narrow.mtvec,
      legalTrapVector_of_legal settled.mtvec]
  | sepc =>
    simp only [CsrFile.set, get, Xlen.truncate_of_fits narrow.sepc, settled.sepc.clear_eq]
  | mepc =>
    simp only [CsrFile.set, get, Xlen.truncate_of_fits narrow.mepc, settled.mepc.clear_eq]
  | scounteren =>
    simp only [CsrFile.set, get, Xlen.truncate_of_fits narrow.scounteren,
      settled.scounteren.and_eq]
  | mcounteren =>
    simp only [CsrFile.set, get, Xlen.truncate_of_fits narrow.mcounteren,
      settled.mcounteren.and_eq]
  | mcountinhibit =>
    simp only [CsrFile.set, get, Xlen.truncate_of_fits narrow.mcountinhibit,
      settled.mcountinhibit.and_eq]
  | medeleg =>
    simp only [CsrFile.set, get, Xlen.truncate_of_fits narrow.medeleg, settled.medeleg.and_eq]
  | mideleg =>
    simp only [CsrFile.set, get, Xlen.truncate_of_fits narrow.mideleg, settled.mideleg.and_eq]
  | mie => simp only [CsrFile.set, get, Xlen.truncate_of_fits narrow.mie, settled.mie.and_eq]
  | mip =>
    simp only [CsrFile.set, get, Xlen.truncate_of_fits narrow.mip, merge_of_and_eq]
  | mstatus =>
    simp only [CsrFile.set, get, Xlen.truncate_of_fits settled.mstatus.fits, legalStatus_self]
  | sscratch => simp only [CsrFile.set, get, Xlen.truncate_of_fits narrow.sscratch]
  | scause => simp only [CsrFile.set, get, Xlen.truncate_of_fits narrow.scause]
  | stval => simp only [CsrFile.set, get, Xlen.truncate_of_fits narrow.stval]
  | mscratch => simp only [CsrFile.set, get, Xlen.truncate_of_fits narrow.mscratch]
  | mcause => simp only [CsrFile.set, get, Xlen.truncate_of_fits narrow.mcause]
  | mtval => simp only [CsrFile.set, get, Xlen.truncate_of_fits narrow.mtval]
  | pmpcfg i =>
    have fits := narrow.pmpcfg c.pmpcfg[i] (Vector.getElem_mem i.isLt)
    have same : c.pmpcfg.set i c.pmpcfg[i] = c.pmpcfg := Vector.set_getElem_self i.isLt
    simp only [CsrFile.set, get, Xlen.truncate_of_fits fits, same]
  | pmpaddr i =>
    have fits := narrow.pmpaddr c.pmpaddr[i] (Vector.getElem_mem i.isLt)
    have same : c.pmpaddr.set i c.pmpaddr[i] = c.pmpaddr := Vector.set_getElem_self i.isLt
    simp only [CsrFile.set, get, Xlen.truncate_of_fits fits, same]
  | mcycle | minstret => simp only [CsrFile.set, get, replaceLow_self]
  | mcycleh | minstreth => simp only [CsrFile.set, get, replaceHigh_self]
  | _ => rfl

end Settled

/-! ### Reads after writes -/

section Access

variable {c d : CsrFile} {number : UInt16} {value : UInt64} {csr : Csr}

private theorem Grants.set (granted : c.Grants number csr) (value : UInt64) :
    (c.set value csr).Grants number csr := by
  obtain ⟨allowed, found, present⟩ := granted
  refine ⟨?_, found, by rwa [set_xlen]⟩
  by_cases root : number = Csr.satp.number
  · -- Only the page table root asks for the status word, which a write to it leaves as it is.
    obtain rfl : Csr.satp = csr := by
      rw [root] at found
      exact Option.some.inj found
    unfold CsrFile.set
    dsimp only
    split
    · exact allowed
    · exact allowed
  · simp only [checkPrivilege, root, false_and, if_false] at allowed ⊢
    rw [set_privilege]
    exact allowed

private theorem isUserCounter_level (counter : csr.isUserCounter) : csr.level = .user := by
  cases csr with
  | cycle | time | instret | hpmcounter i => rfl
  | cycleh | timeh | instreth | hpmcounterh i => rfl
  | _ => contradiction

theorem Grants.level_ne_user (granted : c.Grants number csr)
    (writable : Csr.isReadOnly number = false) : csr.level ≠ .user := by
  intro user
  have readOnly := Csr.isReadOnly_of_user user
  rw [granted.number_eq, writable] at readOnly
  contradiction

private theorem Grants.read (granted : c.Grants number csr)
    (writable : Csr.isReadOnly number = false) : c.read number = .ok (c.get csr) := by
  refine read_eq_ok_iff.2 ⟨csr, granted, fun hidden => ?_, rfl⟩
  exact granted.level_ne_user writable (isUserCounter_level hidden.1)

private theorem write_of_readOnly (allowed : c.checkPrivilege number = .ok ())
    (readOnly : Csr.isReadOnly number = true) :
    c.write number value = .error (.readOnly number) := by
  simp only [write, allowed, readOnly, Bind.bind, Except.bind]
  rfl

/-- After a write its register can be read, and shows the legal form of the value. -/
theorem read_of_write (written : c.write number value = .ok d) :
    ∃ csr, d.Grants number csr ∧ Csr.isReadOnly number = false ∧
      d = c.set (c.xlen.truncate value) csr ∧ d.read number = .ok (d.get csr) := by
  obtain ⟨csr, granted, writable, rfl⟩ := write_eq_ok_iff.1 written
  have still := granted.set (c.xlen.truncate value)
  exact ⟨csr, still, writable, rfl, still.read writable⟩

def writtenBack (c : CsrFile) (number : UInt16) : Except CsrError CsrFile :=
  if Csr.isReadOnly number then .error (.readOnly number) else .ok c

theorem Settled.write_of_read (settled : c.Settled) (shown : c.read number = .ok value) :
    c.write number value = c.writtenBack number := by
  obtain ⟨csr, granted, -, rfl⟩ := read_eq_ok_iff.1 shown
  unfold writtenBack
  split
  next readOnly => exact write_of_readOnly granted.allowed readOnly
  next writable =>
    refine write_eq_ok_iff.2 ⟨csr, granted, Bool.eq_false_iff.2 writable, ?_⟩
    exact (settled.set_get csr).symm

theorem setBits_of_read (shown : c.read number = .ok value) (mask : UInt64) :
    c.setBits number mask = c.write number (value ||| mask) := by
  simp only [setBits, shown, Bind.bind, Except.bind]

theorem clearBits_of_read (shown : c.read number = .ok value) (mask : UInt64) :
    c.clearBits number mask = c.write number (value &&& ~~~mask) := by
  simp only [clearBits, shown, Bind.bind, Except.bind]

end Access

end CsrFile

end RiscvBoard
