import RiscvBoard.Proofs.Machine.Executing
import RiscvBoard.Proofs.Machine.Integer
import RiscvBoard.Proofs.Machine.WellFormed

/-!
Reservations. The machine keeps one physical address for all of the past: that of the last
load-reserved, if no store-conditional and no trap came after it. So a store-conditional stores if
and only if the last event that counts is a load-reserved of its own physical address.
-/

set_option autoImplicit false

namespace RiscvBoard

inductive ReservationEvent where
  /-- A load-reserved completed. -/
  | loadReserved (paddr : UInt64)
  /-- A store-conditional completed, whether it stored or not. -/
  | storeConditional
  /-- A trap was taken. -/
  | trapped
  /-- The store of a store-conditional was refused, and its trap was fatal. -/
  | storeRefused
  deriving DecidableEq, Repr

def ReservationEvent.reserved? : ReservationEvent → Option UInt64
  | loadReserved paddr => some paddr
  | _ => none

/-- The address that is reserved after an event, if there was one. -/
def reservedAfter (before : Option UInt64) : Option ReservationEvent → Option UInt64
  | some event => event.reserved?
  | none => before

namespace Machine

/-! ### Events -/

def physicalAddr? (m : Machine) (rs1 : Reg) (width : AtomicWidth) (kind : AccessKind) :
    Option UInt64 :=
  match atomicAddr m.hart.pc rs1 width kind m with
  | .ok (_, paddr) _ => some paddr
  | .error _ _ => none

/-- What an instruction that completes means for reservations. -/
def completedEvent? (m : Machine) : Instr → Option ReservationEvent
  | .lr width _ rs1 => (m.physicalAddr? rs1 width .load).map .loadReserved
  | .sc .. => some .storeConditional
  | _ => none

def fatalEvent? (m : Machine) : Instr → Option ReservationEvent
  | .sc width _ rs1 _ => (m.physicalAddr? rs1 width .store).map fun _ => .storeRefused
  | _ => none

/-- The event of the next step, if it counts for reservations. -/
def event? (m : Machine) : Option ReservationEvent :=
  match step m with
  | .ok (.trapped _) _ => some .trapped
  | .ok _ _ => m.executing?.bind fun (i, _, m₁) => m₁.completedEvent? i
  | .error _ _ => m.executing?.bind fun (i, _, m₁) => m₁.fatalEvent? i

/-- The runs from machines without a reservation, as after reset, with their events, the latest
first. The host may type at any time, and a run may go on after a fatal trap. -/
inductive History : Machine → List ReservationEvent → Prop where
  | start (m : Machine) (free : m.reservation = none) : History m []
  | receive (m : Machine) (events : List ReservationEvent) (bytes : List UInt8)
    (history : History m events) : History (m.receive bytes) events
  | step (m : Machine) (events : List ReservationEvent) (history : History m events) :
    History m.afterStep (m.event?.toList ++ events)

/-! ### Load-reserved -/

section Atomic

variable {m m₁ : Machine} {width : AtomicWidth} {rd rs1 rs2 : Reg}

theorem physicalAddr?_of_located {kind : AccessKind} {vaddr paddr : UInt64}
    (located : atomicAddr m.hart.pc rs1 width kind m = .ok (vaddr, paddr) m₁) :
    m.physicalAddr? rs1 width kind = some paddr := by
  rw [physicalAddr?, located]

theorem physicalAddr?_of_failed {kind : AccessKind} {t : Trap}
    (failed : atomicAddr m.hart.pc rs1 width kind m = .error t m₁) :
    m.physicalAddr? rs1 width kind = none := by
  rw [physicalAddr?, failed]

private theorem execute_lr_reservation (m : Machine) (width : AtomicWidth) (rd rs1 : Reg)
    (raw : UInt32) (len : UInt64) :
    Ends (execute (.lr width rd rs1) raw len) m
      (fun _ m' => ∃ paddr, m.physicalAddr? rs1 width .load = some paddr ∧
        m'.reservation = some paddr)
      (fun _ m' => m'.reservation = m.reservation) := by
  have load : Ends (executeLr m.hart.pc width rd rs1) m
      (fun _ m' => ∃ paddr, m.physicalAddr? rs1 width .load = some paddr ∧
        m'.reservation = some paddr)
      (fun _ m' => m'.reservation = m.reservation) := by
    have frames := frames_atomicAddr m.hart.pc rs1 width .load m
    cases located : atomicAddr m.hart.pc rs1 width .load m with
    | error t m₁ =>
      have run : executeLr m.hart.pc width rd rs1 m = .error t m₁ := bind_of_error located _
      rw [Ends, run]
      exact (frames.of_error located).reservation
    | ok addrs m₁ =>
      rcases addrs with ⟨vaddr, paddr⟩
      have same := (frames.of_ok located).reservation
      have loaded : Ends ((loadPhys paddr vaddr width.width .load).at m.hart.pc) m₁
          (fun _ _ => True) (fun _ m' => m'.reservation = m.reservation) :=
        ((Spares.loadPhys paddr vaddr width.width .load).access m.hart.pc m₁).mono
          (fun _ _ _ => trivial) (fun _ _ rest => rest.trans same)
      have run : executeLr m.hart.pc width rd rs1 m = _ := bind_of_ok located _
      rw [Ends, run]
      refine loaded.bind ?_
      intro value m₂ _
      exact ⟨paddr, physicalAddr?_of_located located, rfl⟩
  exact load.bind fun _ m' reserved => reserved

/-! ### Store-conditional -/

variable {vaddr paddr : UInt64}

private theorem execute_sc_of_failed {t : Trap}
    (failed : atomicAddr m.hart.pc rs1 width .store m = .error t m₁) (raw : UInt32)
    (len : UInt64) : execute (.sc width rd rs1 rs2) raw len m = .error t m₁ := by
  have run : executeSc m.hart.pc width rd rs1 rs2 m = .error t m₁ := bind_of_error failed _
  exact bind_of_error run _

theorem takeReservation_of_lost (lost : m₁.reservation ≠ some paddr) :
    takeReservation paddr m₁ = .ok false { m₁ with reservation := none } := by
  have other : (m₁.reservation == some paddr) = false := beq_eq_false_iff_ne.2 lost
  rw [← other]
  rfl

private theorem execute_sc_of_lost
    (located : atomicAddr m.hart.pc rs1 width .store m = .ok (vaddr, paddr) m₁)
    (lost : m₁.reservation ≠ some paddr) (raw : UInt32) (len : UInt64) :
    execute (.sc width rd rs1 rs2) raw len m =
      .ok () (({ m₁ with reservation := none }.setReg rd 1).setPc (m.hart.pc + len)) := by
  have run : executeSc m.hart.pc width rd rs1 rs2 m =
      .ok () ({ m₁ with reservation := none }.setReg rd 1) :=
    (bind_of_ok located _).trans (bind_of_ok (takeReservation_of_lost lost) _)
  exact bind_of_ok run _

theorem takeReservation_of_held (held : m₁.reservation = some paddr) :
    takeReservation paddr m₁ = .ok true { m₁ with reservation := none } := by
  have same : (m₁.reservation == some paddr) = true := beq_iff_eq.2 held
  rw [← same]
  rfl

def stored (m : Machine) (paddr : UInt64) (w : Width) (value : UInt64) : Machine :=
  { m with bus := m.bus.write paddr w (w.truncate value) }.checkTohost paddr (w.truncate value)

private theorem executeSc_of_held (rd rs2 : Reg)
    (located : atomicAddr m.hart.pc rs1 width .store m = .ok (vaddr, paddr) m₁)
    (held : m₁.reservation = some paddr) :
    executeSc m.hart.pc width rd rs1 rs2 m =
      ((storePhys paddr vaddr width.width (m₁.hart.read rs2)).at m.hart.pc >>=
        fun _ => writeReg rd 0) { m₁ with reservation := none } :=
  (bind_of_ok located _).trans (bind_of_ok (takeReservation_of_held held) _)

private theorem execute_sc_of_held
    (located : atomicAddr m.hart.pc rs1 width .store m = .ok (vaddr, paddr) m₁)
    (held : m₁.reservation = some paddr)
    (accepted : m₁.bus.acceptsStore paddr width.width = true) (raw : UInt32) (len : UInt64) :
    execute (.sc width rd rs1 rs2) raw len m =
      .ok () ((({ m₁ with reservation := none }.stored paddr width.width
        (m₁.hart.read rs2)).setReg rd 0).setPc (m.hart.pc + len)) := by
  have stores : storePhys paddr vaddr width.width (m₁.hart.read rs2)
      { m₁ with reservation := none } = .ok ()
        ({ m₁ with reservation := none }.stored paddr width.width (m₁.hart.read rs2)) :=
    storePhys_of_accepts (m := { m₁ with reservation := none }) accepted _ _
  have run := executeSc_of_held rd rs2 located held
  rw [bind_of_ok (at_of_ok stores m.hart.pc)] at run
  exact bind_of_ok run _

private theorem execute_sc_of_refused (rd rs2 : Reg)
    (located : atomicAddr m.hart.pc rs1 width .store m = .ok (vaddr, paddr) m₁)
    (held : m₁.reservation = some paddr)
    (refused : m₁.bus.acceptsStore paddr width.width = false) (raw : UInt32) (len : UInt64) :
    execute (.sc width rd rs1 rs2) raw len m =
      .error (.ofFault m.hart.pc (.access .store vaddr)) { m₁ with reservation := none } := by
  have fails : storePhys paddr vaddr width.width (m₁.hart.read rs2)
      { m₁ with reservation := none } =
        .error (.access .store vaddr) { m₁ with reservation := none } :=
    storePhys_of_not_accepts (m := { m₁ with reservation := none }) refused _ _
  have run := executeSc_of_held rd rs2 located held
  rw [bind_of_error (at_of_error fails m.hart.pc)] at run
  exact bind_of_error run _

inductive StoresConditionally (m : Machine) (width : AtomicWidth) (rd rs1 rs2 : Reg)
    (len : UInt64) : EStateM.Result Trap Machine Unit → Prop where
  /-- The address is misaligned, or its translation fails. -/
  | unlocated {t : Trap} {m₁ : Machine}
    (failed : atomicAddr m.hart.pc rs1 width .store m = .error t m₁) :
    StoresConditionally m width rd rs1 rs2 len (.error t m₁)
  /-- Another address is reserved, or none. -/
  | lost {vaddr paddr : UInt64} {m₁ : Machine}
    (located : atomicAddr m.hart.pc rs1 width .store m = .ok (vaddr, paddr) m₁)
    (lost : m₁.reservation ≠ some paddr) :
    StoresConditionally m width rd rs1 rs2 len
      (.ok () (({ m₁ with reservation := none }.setReg rd 1).setPc (m.hart.pc + len)))
  /-- The board does not take the store. -/
  | refused {vaddr paddr : UInt64} {m₁ : Machine}
    (located : atomicAddr m.hart.pc rs1 width .store m = .ok (vaddr, paddr) m₁)
    (held : m₁.reservation = some paddr)
    (refused : m₁.bus.acceptsStore paddr width.width = false) :
    StoresConditionally m width rd rs1 rs2 len
      (.error (.ofFault m.hart.pc (.access .store vaddr)) { m₁ with reservation := none })
  | stored {vaddr paddr : UInt64} {m₁ : Machine}
    (located : atomicAddr m.hart.pc rs1 width .store m = .ok (vaddr, paddr) m₁)
    (held : m₁.reservation = some paddr)
    (accepted : m₁.bus.acceptsStore paddr width.width = true) :
    StoresConditionally m width rd rs1 rs2 len (.ok ()
      ((({ m₁ with reservation := none }.stored paddr width.width
        (m₁.hart.read rs2)).setReg rd 0).setPc (m.hart.pc + len)))

theorem storesConditionally (m : Machine) (width : AtomicWidth) (rd rs1 rs2 : Reg) (raw : UInt32)
    (len : UInt64) :
    StoresConditionally m width rd rs1 rs2 len (execute (.sc width rd rs1 rs2) raw len m) := by
  cases located : atomicAddr m.hart.pc rs1 width .store m with
  | error t m₁ =>
    rw [execute_sc_of_failed located]
    exact .unlocated located
  | ok addrs m₁ =>
    obtain ⟨vaddr, paddr⟩ := addrs
    by_cases held : m₁.reservation = some paddr
    · cases accepted : m₁.bus.acceptsStore paddr width.width with
      | true =>
        rw [execute_sc_of_held located held accepted]
        exact .stored located held accepted
      | false =>
        rw [execute_sc_of_refused rd rs2 located held accepted]
        exact .refused located held accepted
    · rw [execute_sc_of_lost located held]
      exact .lost located held

/-! ### One step -/

/-- An instruction changes the reservation as its event says. -/
private theorem execute_reservation (i : Instr) (raw : UInt32) (len : UInt64) (m : Machine) :
    Ends (execute i raw len) m
      (fun _ m' => m'.reservation = reservedAfter m.reservation (m.completedEvent? i))
      (fun _ m' => m'.reservation = reservedAfter m.reservation (m.fatalEvent? i)) := by
  cases i with
  | lr width rd rs1 =>
    refine (execute_lr_reservation m width rd rs1 raw len).imp ?_
    rintro _ m' ⟨paddr, located, reserved⟩
    simp only [completedEvent?, located, reserved]
    rfl
  | sc width rd rs1 rs2 =>
    have ends := storesConditionally m width rd rs1 rs2 raw len
    unfold Ends
    generalize execute (.sc width rd rs1 rs2) raw len m = result at ends
    cases ends with
    | unlocated failed =>
      simp only [fatalEvent?, physicalAddr?_of_failed failed]
      exact ((frames_atomicAddr m.hart.pc rs1 width .store m).of_error failed).reservation
    | lost located lost => rfl
    | refused located held refused =>
      simp only [fatalEvent?, physicalAddr?_of_located located]
      rfl
    | stored located held accepted => exact Spares.checkTohost _ _ _
  | _ => exact execute_spares _ raw len rfl m

end Atomic

private theorem event?_of_trapped {m m' : Machine} {t : Trap}
    (stepped : step m = .ok (.trapped t) m') : m.event? = some .trapped := by
  rw [event?, stepped]

private theorem afterStep_reservation_of_trapped {m m₁ : Machine} {t : Trap}
    (stepped : step m = trapped t m₁)
    (fatal : (∃ f, step m = .error f m₁) → m₁.reservation = reservedAfter m.reservation m.event?) :
    m.afterStep.reservation = reservedAfter m.reservation m.event? := by
  rcases trapped_cases t m₁ with taken | ⟨f, failed⟩
  · rw [taken] at stepped
    rw [afterStep, event?_of_trapped stepped, stepped]
    rfl
  · rw [failed] at stepped
    rw [← fatal ⟨f, stepped⟩, afterStep, stepped]

/-- A step changes the reservation as its event says. -/
private theorem afterStep_reservation (m : Machine) :
    m.afterStep.reservation = reservedAfter m.reservation m.event? := by
  cases executes : m.executing? with
  | none =>
    rcases step_of_idle isTranslationFrame_sameDevices executes with
      ⟨reason, stepped⟩ | ⟨t, m₁, same, stepped⟩
    · have quiet : m.event? = none := by simp only [event?, stepped, executes, Option.bind_none]
      rw [quiet, afterStep, stepped]
      rfl
    · refine afterStep_reservation_of_trapped stepped ?_
      rintro ⟨f, failed⟩
      have quiet : m.event? = none := by simp only [event?, failed, executes, Option.bind_none]
      rw [quiet]
      exact same.reservation.trans m.begun_reservation
  | some found =>
    rcases found with ⟨i, fetched, m₁⟩
    have same := (executing_same executes).2.reservation.trans m.begun_reservation
    have changes := execute_reservation i fetched.raw fetched.length m₁
    rw [same] at changes
    cases ran : execute i fetched.raw fetched.length m₁ with
    | ok _ m₂ =>
      rcases step_of_completed executes ran with ⟨outcome, stepped, untrapped⟩
      have event : m.event? = m₁.completedEvent? i := by
        cases outcome with
        | trapped t => exact absurd rfl (untrapped t)
        | continued | halted reason =>
          simp only [event?, stepped, executes, Option.bind_some]
      rw [event, ← changes.of_ok ran, afterStep, stepped]
      exact m₂.retire_reservation
    | error t m₂ =>
      refine afterStep_reservation_of_trapped (step_of_failed executes ran) ?_
      rintro ⟨f, failed⟩
      have event : m.event? = m₁.fatalEvent? i := by
        simp only [event?, failed, executes, Option.bind_some]
      rw [event]
      exact changes.of_error ran

/-! ### Runs -/

private theorem History.reservation {m : Machine} {events : List ReservationEvent}
    (history : History m events) : m.reservation = reservedAfter none events.head? := by
  induction history with
  | start m free => exact free
  | receive m events bytes history ih => exact ih
  | step m events history ih =>
    rw [afterStep_reservation]
    cases m.event? with
    | none => exact ih
    | some event => rfl

private theorem reservedAfter_none_eq_some {event : Option ReservationEvent} {paddr : UInt64} :
    reservedAfter none event = some paddr ↔ event = some (.loadReserved paddr) := by
  rcases event with _ | _ | _ | _ | _ <;> simp [reservedAfter, ReservationEvent.reserved?]

private theorem read_setReg {m : Machine} {rd : Reg} (other : rd ≠ 0) (on : Bool) (pc : UInt64) :
    ((m.setReg rd (flag on)).setPc pc).hart.read rd = flag on := by
  have canonical : m.hart.xlen.canonical (flag on) = flag on := by
    cases m.hart.xlen <;> cases on <;> rfl
  have written := m.hart.read_write rd (flag on) rd
  rw [if_pos ⟨rfl, other⟩, canonical] at written
  exact written

/-- A store-conditional succeeded: it wrote 0, and it stored on a board on which nothing but marks
had changed. -/
structure ConditionMet (m : Machine) (rd : Reg) (paddr : UInt64) (w : Width) (value : UInt64)
    (m' : Machine) : Prop where
  flag : rd ≠ 0 → m'.hart.read rd = 0
  bus : ∃ ram, OnlyMarks m.begun.hart.csrs m.begun.bus.ram ram ∧
    { m.begun.bus with ram }.acceptsStore paddr w = true ∧
    m'.bus = { m.begun.bus with ram }.write paddr w (w.truncate value)
  exitCode : m'.exitCode = (m.begun.checkTohost paddr (w.truncate value)).exitCode

/-- A store-conditional failed: it wrote 1, and nothing but marks changed on the board. -/
structure ConditionMissed (m : Machine) (rd : Reg) (m' : Machine) : Prop where
  flag : rd ≠ 0 → m'.hart.read rd = 1
  bus : ∃ ram, OnlyMarks m.begun.hart.csrs m.begun.bus.ram ram ∧
    m'.bus = { m.begun.bus with ram }
  exitCode : m'.exitCode = m.exitCode

section Outcomes

variable {m m₂ : Machine} {paddr : UInt64} {w : Width} {rd : Reg}

private theorem conditionMet_of_stored (undisturbed : Undisturbed m.begun m₂)
    (devices : SameDevices m.begun m₂) (accepted : m₂.bus.acceptsStore paddr w = true)
    (value pc : UInt64) :
    ConditionMet m rd paddr w value
      ((({ m₂ with reservation := none }.stored paddr w value).setReg rd 0).setPc pc).retire := by
  constructor
  · intro other
    rw [retire_read]
    exact read_setReg other false pc
  · refine ⟨m₂.bus.ram, undisturbed.ram, ?_, ?_⟩
    · rw [← devices.bus]
      exact accepted
    · rw [retire_bus, ← devices.bus]
      exact checkTohost_bus _ _ _
  · rw [retire_exitCode, checkTohost_exitCode, ← undisturbed.tohost, ← undisturbed.exitCode]
    exact checkTohost_exitCode _ _ _

private theorem conditionMissed_of_lost (undisturbed : Undisturbed m.begun m₂)
    (devices : SameDevices m.begun m₂) (pc : UInt64) :
    ConditionMissed m rd (({ m₂ with reservation := none }.setReg rd 1).setPc pc).retire := by
  constructor
  · intro other
    rw [retire_read]
    exact read_setReg other true pc
  · refine ⟨m₂.bus.ram, undisturbed.ram, ?_⟩
    rw [retire_bus, ← devices.bus]
    rfl
  · rw [retire_exitCode, ← m.begun_exitCode]
    exact undisturbed.exitCode

end Outcomes

/-- A store-conditional that completes stores if the latest event of the run before it is a
load-reserved of its own physical address, and else changes nothing but its flag and marks. -/
theorem storeConditional_iff_reserved {m m₁ m' : Machine} {events : List ReservationEvent}
    {width : AtomicWidth} {rd rs1 rs2 : Reg} {fetched : Fetched} {outcome : StepOutcome}
    (history : History m events)
    (executes : m.executing? = some (.sc width rd rs1 rs2, fetched, m₁))
    (stepped : step m = .ok outcome m') (untrapped : ∀ t, outcome ≠ .trapped t) :
    ∃ paddr, m₁.physicalAddr? rs1 width .store = some paddr ∧
      (events.head? = some (.loadReserved paddr) →
        ConditionMet m rd paddr width.width (m.hart.read rs2) m') ∧
      (events.head? ≠ some (.loadReserved paddr) → ConditionMissed m rd m') := by
  rcases completed_of_step executes stepped untrapped with ⟨m₃, ran, rfl⟩
  rcases executing_same executes with ⟨undisturbed, devices⟩
  cases located : atomicAddr m₁.hart.pc rs1 width .store m₁ with
  | error t m₂ =>
    rw [execute_sc_of_failed located] at ran
    contradiction
  | ok addrs m₂ =>
    rcases addrs with ⟨vaddr, paddr⟩
    have addressed := (ends_atomicAddr m₁ rs1 width (by decide)).of_ok located
    have undisturbed := undisturbed.trans addressed.1
    have devices := devices.trans ((frames_atomicAddr _ rs1 width .store m₁).of_ok located)
    have reserved : m₂.reservation = some paddr ↔ events.head? = some (.loadReserved paddr) := by
      rw [devices.reservation, m.begun_reservation, history.reservation, reservedAfter_none_eq_some]
    refine ⟨paddr, physicalAddr?_of_located located, ?_, ?_⟩
    · intro latest
      have held := reserved.2 latest
      cases accepted : m₂.bus.acceptsStore paddr width.width with
      | false =>
        rw [execute_sc_of_refused rd rs2 located held accepted] at ran
        contradiction
      | true =>
        have value : m₂.hart.read rs2 = m.hart.read rs2 := by rw [undisturbed.hart, begun_read]
        rw [execute_sc_of_held located held accepted, value] at ran
        rcases EStateM.Result.ok.inj ran with ⟨-, rfl⟩
        exact conditionMet_of_stored undisturbed devices accepted _ _
    · intro other
      rw [execute_sc_of_lost located (mt reserved.1 other)] at ran
      rcases EStateM.Result.ok.inj ran with ⟨-, rfl⟩
      exact conditionMissed_of_lost undisturbed devices _

def withPair : Machine :=
  withCode #[0x17, 0x05, 0x00, 0x00, 0xaf, 0x22, 0x05, 0x10, 0x2f, 0x23, 0xb5, 0x18]

/-- The store of the program is met by its reservation. -/
theorem storeConditional_iff_reserved_pair :
    ∃ m fetched m₁ m', History m [.loadReserved 0x80000000] ∧
      m.executing? = some (.sc .word 6 10 11, fetched, m₁) ∧ step m = .ok .continued m' ∧
      ConditionMet m 6 0x80000000 .word (m.hart.read 11) m' := by
  let m := withPair.afterStep.afterStep
  have history : History m [.loadReserved 0x80000000] := by
    have events : withPair.afterStep.event?.toList ++ (withPair.event?.toList ++ []) =
        [.loadReserved 0x80000000] := by decide +kernel
    rw [← events]
    exact .step _ _ (.step _ _ (.start _ rfl))
  have stores : m.executing?.map Prod.fst = some (.sc .word 6 10 11) := by decide +kernel
  rcases Option.map_eq_some_iff.1 stores with ⟨⟨_, fetched, m₁⟩, executes, rfl⟩
  have address : (m.executing?.bind fun found => found.2.2.physicalAddr? 10 .word .store) =
      some 0x80000000 := by decide +kernel
  rw [executes, Option.bind_some] at address
  have stepped : step m = .ok .continued m.afterStep := step_of_outcome? (by decide +kernel)
  rcases storeConditional_iff_reserved history executes stepped (fun _ => nofun) with
    ⟨paddr, located, met, _⟩
  rw [address] at located
  obtain rfl := Option.some.inj located
  exact ⟨m, fetched, m₁, m.afterStep, history, executes, stepped, met rfl⟩

def withRefusedStore : Machine :=
  withCode #[0x37, 0x15, 0x00, 0x00, 0x13, 0x05, 0x05, 0x10, 0xaf, 0x22, 0x05, 0x10,
    0x2f, 0x23, 0xb5, 0x18]

/-- The instructions that complete and the traps that are taken do not suffice to tell what a
store-conditional does: the store of the program is refused with a fatal trap, and when the run goes
on with the same instruction, nothing is reserved any more. -/
theorem refusedStore_counts :
    ¬ ∀ (m m₁ m' : Machine) (events : List ReservationEvent) (width : AtomicWidth)
      (rd rs1 rs2 : Reg) (fetched : Fetched) (outcome : StepOutcome),
      History m events → m.executing? = some (.sc width rd rs1 rs2, fetched, m₁) →
      step m = .ok outcome m' → (∀ t, outcome ≠ .trapped t) →
      ∃ paddr, m₁.physicalAddr? rs1 width .store = some paddr ∧
        ((events.filter (· ≠ .storeRefused)).head? = some (.loadReserved paddr) →
          ConditionMet m rd paddr width.width (m.hart.read rs2) m') ∧
        ((events.filter (· ≠ .storeRefused)).head? ≠ some (.loadReserved paddr) →
          ConditionMissed m rd m') := by
  intro claim
  let m := withRefusedStore.afterStep.afterStep.afterStep.afterStep
  have history : History m [.storeRefused, .loadReserved 0x1100] := by
    have events : withRefusedStore.afterStep.afterStep.afterStep.event?.toList ++
        (withRefusedStore.afterStep.afterStep.event?.toList ++
        (withRefusedStore.afterStep.event?.toList ++ (withRefusedStore.event?.toList ++ []))) =
        [.storeRefused, .loadReserved 0x1100] := by decide +kernel
    rw [← events]
    exact .step _ _ (.step _ _ (.step _ _ (.step _ _ (.start _ rfl))))
  have stores : m.executing?.map Prod.fst = some (.sc .word 6 10 11) := by decide +kernel
  rcases Option.map_eq_some_iff.1 stores with ⟨⟨_, fetched, m₁⟩, executes, rfl⟩
  have address : (m.executing?.bind fun found => found.2.2.physicalAddr? 10 .word .store) =
      some 0x1100 := by decide +kernel
  rw [executes, Option.bind_some] at address
  have stepped : step m = .ok .continued m.afterStep := step_of_outcome? (by decide +kernel)
  rcases claim _ _ _ _ _ _ _ _ _ _ history executes stepped (fun _ => nofun) with
    ⟨paddr, located, met, _⟩
  rw [address] at located
  obtain rfl := Option.some.inj located
  have zero := (met rfl).flag (by decide)
  have one : m.afterStep.hart.read 6 = 1 := by decide +kernel
  rw [one] at zero
  contradiction

end Machine

end RiscvBoard
