import RiscvBoard.Proofs.Bits

/-!
Access to control registers by number: a number belongs to one register, and tells the lowest mode
that may access it.
-/

set_option autoImplicit false

namespace RiscvBoard

namespace Csr

private def Sound (n : UInt16) (search : Option Csr) : Prop :=
  ∀ csr, search = some csr → csr.number = n

namespace Sound

private theorem register {n : UInt16} {csr : Csr} (same : n.toNat = csr.number.toNat) :
    Sound n (some csr) := by
  rintro _ ⟨⟩
  exact (UInt16.toNat_inj.1 same).symm

private theorem bank {n : UInt16} {first size : Nat} {member : Fin size → Csr}
    (number : ∀ i, (member i).number = first.toUInt16 + i.val.toUInt16) :
    Sound n (inBank n first size member) := by
  intro csr found
  have bound := n.toNat_lt
  unfold inBank at found
  split at found
  next inside =>
    obtain rfl := Option.some.inj found
    apply UInt16.toNat_inj.1
    rw [number, UInt16.toNat_add]
    simp only [Nat.toUInt16, UInt16.toNat_ofNat']
    omega
  · contradiction

private theorem orElse {n : UInt16} {a b : Option Csr} (first : Sound n a) (second : Sound n b) :
    Sound n (a <|> b) := by
  cases a with
  | none => exact second
  | some csr => exact first

end Sound

theorem number_of_ofNumber? {n : UInt16} {csr : Csr} (found : ofNumber? n = some csr) :
    csr.number = n := by
  revert found csr
  change Sound n (ofNumber? n)
  unfold ofNumber?
  split
  all_goals try exact .register ‹_›
  have events : Sound n (inBank n 0x323 29 mhpmevent) := .bank fun _ => rfl
  have settings : Sound n (inBank n 0x3a0 16 pmpcfg) := .bank fun _ => rfl
  have addresses : Sound n (inBank n 0x3b0 64 pmpaddr) := .bank fun _ => rfl
  have counters : Sound n (inBank n 0xb03 29 mhpmcounter) := .bank fun _ => rfl
  have upper : Sound n (inBank n 0xb83 29 mhpmcounterh) := .bank fun _ => rfl
  have shown : Sound n (inBank n 0xc03 29 hpmcounter) := .bank fun _ => rfl
  have shownUpper : Sound n (inBank n 0xc83 29 hpmcounterh) := .bank fun _ => rfl
  exact events.orElse (settings.orElse (addresses.orElse (counters.orElse (upper.orElse
    (shown.orElse shownUpper)))))

def level : Csr → Privilege
  | cycle | time | instret | hpmcounter _ => .user
  | cycleh | timeh | instreth | hpmcounterh _ => .user
  | sstatus | sie | stvec | scounteren | senvcfg => .supervisor
  | sscratch | sepc | scause | stval | sip | satp => .supervisor
  | _ => .machine

private theorem requiredPrivilege?_number (csr : Csr) :
    requiredPrivilege? csr.number = some csr.level := by
  cases csr with
  | mhpmevent i => revert i; decide
  | pmpcfg i => revert i; decide
  | pmpaddr i => revert i; decide
  | mhpmcounter i => revert i; decide
  | mhpmcounterh i => revert i; decide
  | hpmcounter i => revert i; decide
  | hpmcounterh i => revert i; decide
  | _ => rfl

theorem isReadOnly_of_user {csr : Csr} (user : csr.level = .user) : isReadOnly csr.number := by
  cases csr with
  | hpmcounter i => revert i; decide
  | hpmcounterh i => revert i; decide
  | cycle | time | instret | cycleh | timeh | instreth => rfl
  | _ => contradiction

end Csr

namespace CsrFile

theorem set_privilege (c : CsrFile) (value : UInt64) (csr : Csr) :
    (c.set value csr).privilege = c.privilege := by
  unfold set
  split <;> first | rfl | (split <;> rfl)

private theorem checkPrivilege_eq_ok {c : CsrFile} {csr : Csr}
    (checked : c.checkPrivilege csr.number = .ok ()) : csr.level ≤ c.privilege := by
  unfold checkPrivilege at checked
  simp only [Csr.requiredPrivilege?_number] at checked
  split at checked
  · contradiction
  next above => exact Privilege.le_of_not_lt above

structure Grants (c : CsrFile) (number : UInt16) (csr : Csr) : Prop where
  allowed : c.checkPrivilege number = .ok ()
  found : Csr.ofNumber? number = some csr
  /-- A 64-bit hart has no upper halves. -/
  present : ¬ (csr.isUpperHalf ∧ c.xlen = .rv64)

section Outcomes

variable {c d : CsrFile} {number : UInt16} {value : UInt64} {csr : Csr}

theorem Grants.number_eq (granted : c.Grants number csr) : csr.number = number :=
  Csr.number_of_ofNumber? granted.found

theorem read_eq_ok_iff : c.read number = .ok value ↔
    ∃ csr, c.Grants number csr ∧ ¬ (csr.isUserCounter ∧ !c.counterEnabled number) ∧
      value = c.get csr := by
  constructor
  · intro ran
    unfold read at ran
    cases allowed : c.checkPrivilege number with
    | error e =>
      rw [allowed] at ran
      contradiction
    | ok u =>
      cases found : Csr.ofNumber? number with
      | none =>
        rw [allowed, found] at ran
        contradiction
      | some csr =>
        simp only [allowed, found, Bind.bind, Except.bind] at ran
        split at ran
        · contradiction
        next present =>
        split at ran
        · contradiction
        next shown => exact ⟨csr, ⟨allowed, found, present⟩, shown, (Except.ok.inj ran).symm⟩
  · rintro ⟨csr, ⟨allowed, found, present⟩, shown, rfl⟩
    simp only [read, allowed, found, Bind.bind, Except.bind]
    rw [if_neg present, if_neg shown]
    rfl

/-- A write succeeds where the register is reached by a number that is not read-only, and stores the
legal form of its value there. -/
theorem write_eq_ok_iff : c.write number value = .ok d ↔
    ∃ csr, c.Grants number csr ∧ Csr.isReadOnly number = false ∧
      d = c.set (c.xlen.truncate value) csr := by
  constructor
  · intro ran
    unfold write at ran
    cases allowed : c.checkPrivilege number with
    | error e =>
      rw [allowed] at ran
      contradiction
    | ok u =>
      cases readOnly : Csr.isReadOnly number with
      | true =>
        rw [allowed, readOnly] at ran
        contradiction
      | false =>
        cases found : Csr.ofNumber? number with
        | none =>
          rw [allowed, readOnly, found] at ran
          contradiction
        | some csr =>
          simp only [allowed, readOnly, found, Bool.false_eq_true, if_false, Bind.bind,
            Except.bind] at ran
          split at ran
          · contradiction
          next present => exact ⟨csr, ⟨allowed, found, present⟩, rfl, (Except.ok.inj ran).symm⟩
  · rintro ⟨csr, ⟨allowed, found, present⟩, readOnly, rfl⟩
    simp only [write, allowed, readOnly, found, Bind.bind, Except.bind]
    rw [if_neg present]
    rfl

theorem Grants.eq_set (granted : c.Grants number csr) (written : c.write number value = .ok d) :
    d = c.set (c.xlen.truncate value) csr := by
  obtain ⟨csr', again, -, stored⟩ := write_eq_ok_iff.1 written
  obtain rfl : csr = csr' := Option.some.inj (granted.found.symm.trans again.found)
  exact stored

theorem write_read_eq_ok {f : UInt64 → UInt64}
    (ran : (do c.write number (f (← c.read number))) = .ok d) :
    ∃ csr, c.Grants number csr ∧ c.write number (f (c.get csr)) = .ok d := by
  cases shown : c.read number with
  | error e =>
    rw [shown] at ran
    contradiction
  | ok value =>
    obtain ⟨csr, granted, -, rfl⟩ := read_eq_ok_iff.1 shown
    rw [shown] at ran
    exact ⟨csr, granted, ran⟩

theorem write_eq_ok (written : c.write number value = .ok d) :
    ∃ csr : Csr, csr.level ≤ c.privilege ∧ csr.level ≠ .user ∧
      d = c.set (c.xlen.truncate value) csr := by
  obtain ⟨csr, granted, writable, stored⟩ := write_eq_ok_iff.1 written
  obtain rfl := granted.number_eq
  refine ⟨csr, checkPrivilege_eq_ok granted.allowed, fun user => ?_, stored⟩
  exact absurd (Csr.isReadOnly_of_user user) (by rw [writable]; decide)

end Outcomes

end CsrFile

end RiscvBoard
