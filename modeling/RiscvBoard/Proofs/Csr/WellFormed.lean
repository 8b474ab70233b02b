import RiscvBoard.Proofs.Csr.Access

/-!
The legal control states, and that every write keeps the control state legal.
-/

set_option autoImplicit false

namespace RiscvBoard

def Status.widths : UInt64 :=
  0xf00000000

structure LegalStatus (xlen : Xlen) (status : UInt64) : Prop where
  /-- The previous machine mode is not the reserved one. -/
  mpp : (status &&& Status.mpp) >>> 11 ≠ 2
  /-- The register widths of the lower modes are those after reset. -/
  widths : status &&& Status.widths = (CsrFile.reset xlen).mstatus &&& Status.widths
  fits : xlen.Fits status

def LegalVector (vector : UInt64) : Prop :=
  vector &&& 3 < 2

instance (vector : UInt64) : Decidable (LegalVector vector) :=
  inferInstanceAs (Decidable (_ < _))

namespace CsrFile

/-- Whether every register but the counters and the clock has no more bits than the register
width. -/
structure Narrow (c : CsrFile) : Prop where
  mtvec : c.xlen.Fits c.mtvec
  mepc : c.xlen.Fits c.mepc
  mcause : c.xlen.Fits c.mcause
  mtval : c.xlen.Fits c.mtval
  mie : c.xlen.Fits c.mie
  mip : c.xlen.Fits c.mip
  medeleg : c.xlen.Fits c.medeleg
  mideleg : c.xlen.Fits c.mideleg
  mscratch : c.xlen.Fits c.mscratch
  mcounteren : c.xlen.Fits c.mcounteren
  mcountinhibit : c.xlen.Fits c.mcountinhibit
  stvec : c.xlen.Fits c.stvec
  sepc : c.xlen.Fits c.sepc
  scause : c.xlen.Fits c.scause
  stval : c.xlen.Fits c.stval
  sscratch : c.xlen.Fits c.sscratch
  satp : c.xlen.Fits c.satp
  scounteren : c.xlen.Fits c.scounteren
  pmpcfg : ∀ value ∈ c.pmpcfg, c.xlen.Fits value
  pmpaddr : ∀ value ∈ c.pmpaddr, c.xlen.Fits value

/-- The legal control states. -/
structure WellFormed (c : CsrFile) : Prop where
  mstatus : LegalStatus c.xlen c.mstatus
  mepc : IsEven c.mepc
  sepc : IsEven c.sepc
  mtvec : LegalVector c.mtvec
  stvec : LegalVector c.stvec
  satp : supportsRoot c.xlen c.satp
  medeleg : Within 0xb3ff c.medeleg
  mideleg : Within Interrupt.supervisorBits c.mideleg
  mie : Within Interrupt.allBits c.mie
  mip : Within Interrupt.allBits c.mip
  narrow : c.Narrow

end CsrFile

/-! ### Legal forms of values -/

private theorem legalTrapVector_legal (value : UInt64) : LegalVector (legalTrapVector value) := by
  unfold legalTrapVector LegalVector
  split
  · rw [UInt64.and_assoc, UInt64.not_and_self, UInt64.and_zero]
    decide
  next low => exact UInt64.not_le.1 low

private theorem legalTrapVector_fits {xlen : Xlen} {value : UInt64} (fits : xlen.Fits value) :
    xlen.Fits (legalTrapVector value) := by
  unfold legalTrapVector
  split
  · exact fits.and_left _
  · exact fits

namespace LegalStatus

variable {xlen : Xlen} {mask status old : UInt64}

private theorem change (legal : LegalStatus xlen old) (agree : AgreeOutside mask status old)
    (low : Within 0xffffffff mask) (mpp : (status &&& Status.mpp) >>> 11 ≠ 2) :
    LegalStatus xlen status := by
  refine ⟨mpp, ?_, ?_⟩
  · rw [agree.and_eq (low.and_eq_zero (by decide)), legal.widths]
  · cases xlen with
    | rv64 => trivial
    | rv32 =>
      have fits := Xlen.fits_rv32.1 legal.fits
      exact Xlen.fits_rv32.2 ((agree.and_eq low).trans fits)

theorem of_agree (legal : LegalStatus xlen old) (agree : AgreeOutside mask status old)
    (low : Within 0xffffffff mask) (disjoint : mask &&& Status.mpp = 0) :
    LegalStatus xlen status :=
  legal.change agree low (by rw [agree.and_eq disjoint]; exact legal.mpp)

theorem of_code (legal : LegalStatus xlen old) (agree : AgreeOutside mask status old)
    (low : Within 0xffffffff mask) {mode : Privilege}
    (recorded : status &&& Status.mpp = mode.code <<< 11) : LegalStatus xlen status :=
  legal.change agree low (by rw [recorded]; cases mode <;> decide)

end LegalStatus

private theorem merge_and (mask old value : UInt64) :
    CsrFile.merge mask old value &&& mask = value &&& mask := by
  rw [CsrFile.merge, and_or_distrib_right, UInt64.and_assoc, UInt64.not_and_self, UInt64.and_zero,
    UInt64.zero_or, UInt64.and_assoc, UInt64.and_self]

private theorem LegalStatus.legalStatus {xlen : Xlen} {old : UInt64} (legal : LegalStatus xlen old)
    (value : UInt64) : LegalStatus xlen (CsrFile.legalStatus old value) := by
  have merged := AgreeOutside.merge Status.machineWritable old value
  unfold CsrFile.legalStatus
  dsimp only
  split
  · have restored := (AgreeOutside.merge Status.mpp (CsrFile.merge Status.machineWritable old value)
      old).mono (show Within Status.machineWritable Status.mpp by decide)
    refine legal.change (restored.trans merged) (by decide) ?_
    rw [merge_and]
    exact legal.mpp
  next reserved => exact legal.change merged (by decide) reserved

/-! ### Preservation -/

namespace CsrFile

theorem reset_wellFormed (xlen : Xlen) : (reset xlen).WellFormed := by
  have zero : xlen.Fits 0 := Xlen.fits_of_within (.zero _) xlen
  have zeros {n : Nat} : ∀ value ∈ Vector.replicate n (0 : UInt64), xlen.Fits value := by
    intro value present
    rw [Vector.eq_of_mem_replicate present]
    exact zero
  have narrow : (reset xlen).Narrow := by
    constructor
    case pmpcfg => exact zeros
    case pmpaddr => exact zeros
    all_goals exact zero
  have status : LegalStatus xlen (reset xlen).mstatus := by
    refine ⟨?_, rfl, ?_⟩ <;> cases xlen <;> decide
  have root : supportsRoot (reset xlen).xlen (reset xlen).satp := by
    cases xlen <;> rfl
  have even : IsEven 0 := by decide
  have vector : LegalVector 0 := by decide
  exact ⟨status, even, even, vector, vector, root, .zero _, .zero _, .zero _, .zero _, narrow⟩

theorem set_xlen (c : CsrFile) (value : UInt64) (csr : Csr) : (c.set value csr).xlen = c.xlen := by
  unfold set
  split <;> first | rfl | (split <;> rfl)

private theorem fits_set {xlen : Xlen} {n : Nat} {bank : Vector UInt64 n}
    (fits : ∀ value ∈ bank, xlen.Fits value) {new : UInt64} (narrow : xlen.Fits new) (i : Fin n) :
    ∀ value ∈ bank.set i new, xlen.Fits value := by
  intro value present
  obtain old | rfl := Vector.mem_or_eq_of_mem_set present
  · exact fits value old
  · exact narrow

namespace WellFormed

variable {c : CsrFile} {value : UInt64}

theorem set (wf : c.WellFormed) (fits : c.xlen.Fits value) (csr : Csr) :
    (c.set value csr).WellFormed := by
  have narrow := wf.narrow
  cases csr with
  | sstatus =>
    have status := wf.mstatus.of_agree (AgreeOutside.merge Status.supervisorWritable _ value)
      (by decide) (by decide)
    exact { wf with mstatus := status, narrow := { narrow with } }
  | sie =>
    have field : Within Interrupt.allBits (c.mideleg &&& Interrupt.supervisorBits) :=
      Within.and_right (by decide) _
    exact { wf with
      mie := wf.mie.merge field value
      narrow := { narrow with mie := narrow.mie.merge fits _ } }
  | stvec =>
    exact { wf with
      stvec := legalTrapVector_legal value
      narrow := { narrow with stvec := legalTrapVector_fits fits } }
  | scounteren => exact { wf with narrow := { narrow with scounteren := fits.and_left _ } }
  | sscratch => exact { wf with narrow := { narrow with sscratch := fits } }
  | sepc =>
    exact { wf with
      sepc := .clear value
      narrow := { narrow with sepc := fits.and_left _ } }
  | scause => exact { wf with narrow := { narrow with scause := fits } }
  | stval => exact { wf with narrow := { narrow with stval := fits } }
  | sip =>
    have field : Within Interrupt.allBits (Interrupt.supervisorSoftware.bit &&& c.mideleg) :=
      Within.and_left (by decide) _
    exact { wf with
      mip := wf.mip.merge field value
      narrow := { narrow with mip := narrow.mip.merge fits _ } }
  | satp =>
    by_cases supported : supportsRoot c.xlen value
    · simp only [CsrFile.set, if_pos supported]
      exact { wf with satp := supported, narrow := { narrow with satp := fits } }
    · simp only [CsrFile.set, if_neg supported]
      exact wf
  | mstatus =>
    exact { wf with mstatus := wf.mstatus.legalStatus value, narrow := { narrow with } }
  | medeleg =>
    exact { wf with
      medeleg := .and_mask _ value
      narrow := { narrow with medeleg := fits.and_left _ } }
  | mideleg =>
    exact { wf with
      mideleg := .and_mask _ value
      narrow := { narrow with mideleg := fits.and_left _ } }
  | mie =>
    exact { wf with
      mie := .and_mask _ value
      narrow := { narrow with mie := fits.and_left _ } }
  | mtvec =>
    exact { wf with
      mtvec := legalTrapVector_legal value
      narrow := { narrow with mtvec := legalTrapVector_fits fits } }
  | mcounteren => exact { wf with narrow := { narrow with mcounteren := fits.and_left _ } }
  | mcountinhibit => exact { wf with narrow := { narrow with mcountinhibit := fits.and_left _ } }
  | mscratch => exact { wf with narrow := { narrow with mscratch := fits } }
  | mepc =>
    exact { wf with
      mepc := .clear value
      narrow := { narrow with mepc := fits.and_left _ } }
  | mcause => exact { wf with narrow := { narrow with mcause := fits } }
  | mtval => exact { wf with narrow := { narrow with mtval := fits } }
  | mip =>
    exact { wf with
      mip := wf.mip.merge (by decide) value
      narrow := { narrow with mip := narrow.mip.merge fits _ } }
  | pmpcfg i =>
    exact { wf with
      narrow := { narrow with pmpcfg := fits_set narrow.pmpcfg fits i } }
  | pmpaddr i =>
    exact { wf with
      narrow := { narrow with pmpaddr := fits_set narrow.pmpaddr fits i } }
  | mcycle | mcycleh | minstret | minstreth =>
    exact { wf with narrow := { narrow with } }
  | _ => exact wf

theorem write (wf : c.WellFormed) {d : CsrFile} {number : UInt16}
    (written : c.write number value = .ok d) : d.WellFormed := by
  obtain ⟨csr, -, -, rfl⟩ := write_eq_ok written
  exact wf.set (c.xlen.fits_truncate value) csr

end WellFormed

theorem write_xlen {c d : CsrFile} {number : UInt16} {value : UInt64}
    (written : c.write number value = .ok d) : d.xlen = c.xlen := by
  obtain ⟨csr, -, -, rfl⟩ := write_eq_ok written
  exact c.set_xlen _ csr

end CsrFile

end RiscvBoard
