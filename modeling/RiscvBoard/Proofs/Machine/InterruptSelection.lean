import RiscvBoard.Proofs.Machine.Executing
import RiscvBoard.Proofs.Machine.TrapReturn

/-!
Which interrupt a step takes. An interrupt can be delivered when it is pending and enabled, and the
hart is below the mode that handles it or has that mode's interrupts open. The hart looks at the
interrupts of machine mode first, and takes the most urgent one of the mode that it chose; the route
of the trap, which is found apart from this, leads to the same mode.
-/

set_option autoImplicit false

namespace RiscvBoard

namespace Interrupt

def isIn (i : Interrupt) (word : UInt64) : Bool :=
  word &&& i.bit != 0

def rank : Interrupt → Nat
  | machineExternal => 0
  | machineSoftware => 1
  | machineTimer => 2
  | supervisorExternal => 3
  | supervisorSoftware => 4
  | supervisorTimer => 5

/-! ### Words as sets of interrupts -/

section Words

variable (i : Interrupt) (a b : UInt64)

theorem isIn_iff_testBit : i.isIn a ↔ a.toNat.testBit i.cause.toNat := by
  have inside : i.cause.toNat < 64 := by cases i <;> decide
  have bit : i.bit = UInt64.ofNat (2 ^ i.cause.toNat) := by cases i <;> rfl
  rw [isIn, bit]
  exact and_twoPow_ne_zero a inside

theorem isIn_and : i.isIn (a &&& b) ↔ i.isIn a ∧ i.isIn b := by
  simp only [isIn_iff_testBit, UInt64.toNat_and, Nat.testBit_and, Bool.and_eq_true]

theorem isIn_not : i.isIn (~~~a) ↔ ¬ i.isIn a := by
  have inside : i.cause.toNat < 64 := by cases i <;> decide
  have bits := Nat.testBit_two_pow_sub_succ a.toNat_lt i.cause.toNat
  have flipped : (~~~a).toNat = 2 ^ 64 - (a.toNat + 1) := by
    rw [UInt64.toNat_not]
    have bound := a.toNat_lt
    have size : UInt64.size = 2 ^ 64 := rfl
    omega
  rw [isIn_iff_testBit, isIn_iff_testBit, flipped, bits]
  simp [inside]

private theorem isIn_iff_shiftRight : (a >>> i.cause) &&& 1 != 0 ↔ i.isIn a := by
  rw [isIn_iff_testBit, Nat.testBit_eq_decide_div_mod_eq, bne_iff_ne, ne_eq, ← UInt64.toNat_inj]
  have small : i.cause.toNat % 64 = i.cause.toNat := by cases i <;> rfl
  simp only [UInt64.toNat_and, UInt64.toNat_shiftRight, small, Nat.shiftRight_eq_div_pow]
  show ¬ (_ &&& 1 = 0) ↔ _
  rw [Nat.and_one_is_mod, decide_eq_true_iff]
  omega

variable {a}

private theorem exists_isIn (within : Within allBits a) (some : a ≠ 0) : ∃ i :
    Interrupt, i.isIn a := by
  by_contra none
  have clear (i : Interrupt) : a &&& i.bit = 0 := by
    have absent : ¬ i.isIn a := fun present => none ⟨i, present⟩
    simpa [isIn] using absent
  have spread (x y : UInt64) : a &&& (x ||| y) = (a &&& x) ||| (a &&& y) := by
    rw [UInt64.and_comm, and_or_distrib_right, UInt64.and_comm x, UInt64.and_comm y]
  apply some
  rw [← within.and_eq]
  simp only [allBits, supervisorBits, spread, clear, UInt64.or_self]

end Words

/-! ### The most urgent interrupt -/

private theorem mem_byPriority (i : Interrupt) : i ∈ byPriority := by
  cases i <;> decide

private theorem find?_byPriority {wanted : Interrupt → Bool} {i : Interrupt} :
    byPriority.find? wanted = some i ↔ wanted i ∧ ∀ j, wanted j → i.rank ≤ j.rank := by
  have sorted : byPriority.Pairwise (·.rank < ·.rank) := by decide
  have least {i : Interrupt} (found : byPriority.find? wanted = some i) :
      wanted i ∧ ∀ j, wanted j → i.rank ≤ j.rank := by
    rcases List.find?_eq_some_iff_append.1 found with ⟨is, before, after, split, unwanted⟩
    refine ⟨is, fun j wants => ?_⟩
    have place := mem_byPriority j
    rw [split, List.mem_append, List.mem_cons] at place
    rw [split] at sorted
    rcases place with earlier | rfl | later
    · have refused := unwanted j earlier
      rw [wants] at refused
      contradiction
    · exact le_refl _
    · exact (List.rel_of_pairwise_cons (List.pairwise_append.1 sorted).2.1 later).le
  refine ⟨least, fun ⟨wants, first⟩ => ?_⟩
  cases found : byPriority.find? wanted with
  | none =>
    have refused := List.find?_eq_none.1 found i (mem_byPriority i)
    exact absurd wants refused
  | some j =>
    have ⟨wantsJ, firstJ⟩ := least found
    have same : i.rank = j.rank := le_antisymm (first j wantsJ) (firstJ i wants)
    have injective : ∀ i j : Interrupt, i.rank = j.rank → j = i := by
      intro i j
      cases i <;> cases j <;> decide
    rw [injective i j same]

end Interrupt

/-! ### The interrupts that can be delivered -/

namespace CsrFile

def destination (c : CsrFile) (i : Interrupt) : Privilege :=
  if i.isIn c.mideleg then .supervisor else .machine

def OpenTo (c : CsrFile) (mode : Privilege) : Prop :=
  c.privilege < mode ∨ c.privilege = mode ∧ c.statusBit (Status.enable mode)

structure Deliverable (c : CsrFile) (i : Interrupt) : Prop where
  pending : i.isIn c.mip
  enabled : i.isIn c.mie
  opens : c.OpenTo (c.destination i)

/-- The interrupt that comes first among those that the hart can take: no other one is handled in a
higher mode, and none of the same mode is more urgent. -/
structure IsNext (c : CsrFile) (i : Interrupt) : Prop where
  deliverable : c.Deliverable i
  highest : ∀ j, c.Deliverable j → c.destination j ≤ c.destination i
  first : ∀ j, c.Deliverable j → c.destination j = c.destination i → i.rank ≤ j.rank

variable {c : CsrFile} {i : Interrupt}

private theorem openTo_machine :
    c.OpenTo .machine ↔ (c.privilege != .machine || c.statusBit Status.mie) = true := by
  rw [OpenTo, Bool.or_eq_true, bne_iff_ne]
  cases c.privilege with
  | machine => simp [Status.enable, Privilege.not_lt_of_le (Privilege.le_refl _)]
  | user | supervisor => exact iff_of_true (.inl (by decide)) (.inl nofun)

private theorem openTo_supervisor : c.OpenTo .supervisor ↔
    (c.privilege == .user || (c.privilege == .supervisor && c.statusBit Status.sie)) = true := by
  rw [OpenTo, Bool.or_eq_true, Bool.and_eq_true, beq_iff_eq, beq_iff_eq]
  cases c.privilege with
  | supervisor => simp [Status.enable, Privilege.not_lt_of_le (Privilege.le_refl _)]
  | user => exact iff_of_true (.inl (by decide)) (.inl rfl)
  | machine => simp [Privilege.not_lt_of_le (Privilege.le_machine _)]

private theorem destination_eq_supervisor (below : c.destination i ≠ .machine) :
    c.destination i = .supervisor := by
  unfold destination at *
  split
  next => rfl
  next kept =>
    rw [if_neg kept] at below
    contradiction

def waiting (c : CsrFile) : Privilege → UInt64
  | .supervisor => c.mip &&& c.mie &&& c.mideleg
  | _ => c.mip &&& c.mie &&& ~~~c.mideleg

private theorem isIn_waiting {mode : Privilege} (above : mode ≠ .user) :
    i.isIn (c.waiting mode) ↔ i.isIn c.mip ∧ i.isIn c.mie ∧ c.destination i = mode := by
  cases mode with
  | user => contradiction
  | supervisor =>
    simp only [waiting, destination, Interrupt.isIn_and, and_assoc]
    split
    next delegated => simp [delegated]
    next kept => simp [kept]
  | machine =>
    simp only [waiting, destination, Interrupt.isIn_and, Interrupt.isIn_not, and_assoc]
    split
    next delegated => simp [delegated]
    next kept => simp [kept]

private theorem isIn_waiting_of_open {mode : Privilege} (above : mode ≠ .user)
    (opens : c.OpenTo mode) :
    i.isIn (c.waiting mode) ↔ c.Deliverable i ∧ c.destination i = mode := by
  rw [isIn_waiting above]
  constructor
  · rintro ⟨pending, enabled, rfl⟩
    exact ⟨⟨pending, enabled, opens⟩, rfl⟩
  · rintro ⟨present, rfl⟩
    exact ⟨present.pending, present.enabled, rfl⟩

private theorem openTo_and_waiting_iff (defined : Within Interrupt.allBits c.mie) {mode : Privilege}
    (above : mode ≠ .user) :
    c.OpenTo mode ∧ c.waiting mode ≠ 0 ↔ ∃ i, c.Deliverable i ∧ c.destination i = mode := by
  constructor
  · rintro ⟨opens, some⟩
    have within : Within Interrupt.allBits (c.waiting mode) := by
      unfold waiting
      split <;> exact (defined.and_right _).and_left _
    rcases Interrupt.exists_isIn within some with ⟨i, member⟩
    exact ⟨i, (isIn_waiting_of_open above opens).1 member⟩
  · rintro ⟨i, present, rfl⟩
    refine ⟨present.opens, fun empty => ?_⟩
    have member := (isIn_waiting_of_open above present.opens).2 ⟨present, rfl⟩
    rw [empty] at member
    simp [Interrupt.isIn] at member

private theorem deliverable_cases (defined : Within Interrupt.allBits c.mie) :
    ((∃ j, c.Deliverable j ∧ c.destination j = .machine) ∧ c.deliverable = c.waiting .machine) ∨
    (∀ j, c.Deliverable j → c.destination j = .supervisor) ∧
      ((∃ j, c.Deliverable j ∧ c.destination j = .supervisor) ∧
          c.deliverable = c.waiting .supervisor ∨
        (∀ j, ¬ c.Deliverable j) ∧ c.deliverable = 0) := by
  have unfolded : c.deliverable =
      if (c.privilege != .machine || c.statusBit Status.mie) && c.waiting .machine != 0 then
        c.waiting .machine
      else if (c.privilege == .user || (c.privilege == .supervisor && c.statusBit Status.sie)) &&
        c.waiting .supervisor != 0 then c.waiting .supervisor
      else 0 := rfl
  have toMachine := openTo_and_waiting_iff defined (show Privilege.machine ≠ .user by decide)
  have toSupervisor := openTo_and_waiting_iff defined (show Privilege.supervisor ≠ .user by decide)
  rw [openTo_machine, ← bne_iff_ne, ← Bool.and_eq_true] at toMachine
  rw [openTo_supervisor, ← bne_iff_ne, ← Bool.and_eq_true] at toSupervisor
  rw [unfolded]
  split
  next machine => exact .inl ⟨toMachine.1 machine, rfl⟩
  next notMachine =>
    have supervised (j : Interrupt) (present : c.Deliverable j) : c.destination j = .supervisor :=
      destination_eq_supervisor fun mode => notMachine (toMachine.2 ⟨j, present, mode⟩)
    refine .inr ⟨supervised, ?_⟩
    split
    next supervisor => exact .inl ⟨toSupervisor.1 supervisor, rfl⟩
    next notSupervisor =>
      refine .inr ⟨fun j present => ?_, rfl⟩
      exact notSupervisor (toSupervisor.2 ⟨j, present, supervised j present⟩)

/-- Among the interrupts that can be delivered the hart chooses those that are handled in the
highest mode. -/
private theorem isIn_deliverable (defined : Within Interrupt.allBits c.mie) : i.isIn c.deliverable ↔
    c.Deliverable i ∧ ∀ j, c.Deliverable j → c.destination j ≤ c.destination i := by
  rcases deliverable_cases defined with ⟨⟨k, other, mode⟩, chosen⟩ | ⟨supervised, rest⟩
  · have opens := other.opens
    rw [mode] at opens
    rw [chosen, isIn_waiting_of_open (by decide) opens]
    refine and_congr_right fun present => ⟨fun same j _ => ?_, fun highest => ?_⟩
    · rw [same]
      exact Privilege.le_machine _
    · have above := highest k other
      rw [mode] at above
      exact Privilege.le_antisymm (Privilege.le_machine _) above
  rcases rest with ⟨⟨k, other, mode⟩, chosen⟩ | ⟨nothing, chosen⟩
  · have opens := other.opens
    rw [mode] at opens
    rw [chosen, isIn_waiting_of_open (by decide) opens]
    refine and_congr_right fun present => ⟨fun same j another => ?_, fun _ => supervised i present⟩
    rw [supervised j another, same]
    exact Privilege.le_refl _
  · rw [chosen]
    refine iff_of_false ?_ fun ⟨present, _⟩ => nothing i present
    simp [Interrupt.isIn]

/-- The hart takes the interrupt that comes first among those that it can take. -/
private theorem pendingInterrupt?_eq_some_iff (defined : Within Interrupt.allBits c.mie) :
    c.pendingInterrupt? = some i ↔ c.IsNext i := by
  have search : c.pendingInterrupt? = Interrupt.byPriority.find? (·.isIn c.deliverable) := rfl
  simp only [search, Interrupt.find?_byPriority, isIn_deliverable defined]
  constructor
  · rintro ⟨⟨present, highest⟩, first⟩
    refine ⟨present, highest, fun j other mode => first j ⟨other, fun k third => ?_⟩⟩
    rw [mode]
    exact highest k third
  · rintro ⟨present, highest, first⟩
    refine ⟨⟨present, highest⟩, fun j ⟨other, highestToo⟩ => first j other ?_⟩
    exact Privilege.le_antisymm (highest j other) (highestToo i present)

private theorem exists_highest (present : c.Deliverable i) :
    ∃ j, c.Deliverable j ∧ ∀ k, c.Deliverable k → c.destination k ≤ c.destination j := by
  by_cases machine : ∃ j, c.Deliverable j ∧ c.destination j = .machine
  · rcases machine with ⟨j, other, mode⟩
    refine ⟨j, other, fun k _ => ?_⟩
    rw [mode]
    exact Privilege.le_machine _
  · have supervised {k : Interrupt} (other : c.Deliverable k) : c.destination k = .supervisor :=
      destination_eq_supervisor fun mode => machine ⟨k, other, mode⟩
    refine ⟨i, present, fun k other => ?_⟩
    rw [supervised other, supervised present]
    exact Privilege.le_refl _

private theorem exists_isNext_iff (defined : Within Interrupt.allBits c.mie) :
    (∃ i, c.IsNext i) ↔ ∃ i, c.Deliverable i := by
  refine ⟨fun ⟨i, next⟩ => ⟨i, next.deliverable⟩, fun ⟨i, present⟩ => ?_⟩
  cases found : c.pendingInterrupt? with
  | some j => exact ⟨j, (pendingInterrupt?_eq_some_iff defined).1 found⟩
  | none =>
    have search : Interrupt.byPriority.find? (·.isIn c.deliverable) = none := found
    rcases exists_highest present with ⟨j, chosen⟩
    have member := (isIn_deliverable defined).2 chosen
    exact absurd member (List.find?_eq_none.1 search j (Interrupt.mem_byPriority j))

private theorem delegatesInterrupt_iff :
    c.delegatesInterrupt i.cause ↔ c.privilege ≠ .machine ∧ c.destination i = .supervisor := by
  rw [delegatesInterrupt, Bool.and_eq_true, bne_iff_ne, Interrupt.isIn_iff_shiftRight, destination]
  split
  next delegated => simp [delegated]
  next kept => simp [kept]

private theorem route_target_interrupt (present : c.Deliverable i) (pc : UInt64) :
    (c.route (.ofInterrupt i pc)).target = c.destination i := by
  have delegates : c.delegates (.ofInterrupt i pc) = c.delegatesInterrupt i.cause := rfl
  unfold route
  rw [delegates]
  split
  next delegated => exact (delegatesInterrupt_iff.1 delegated).2.symm
  next kept =>
    by_contra other
    have mode := destination_eq_supervisor (Ne.symm other)
    have opens := present.opens
    rw [mode] at opens
    have below : c.privilege ≠ .machine := by
      intro machine
      rw [OpenTo, machine] at opens
      revert opens
      simp [Privilege.not_lt_of_le (Privilege.le_machine _)]
    exact kept (delegatesInterrupt_iff.2 ⟨below, mode⟩)

end CsrFile

private theorem Hart.not_openTo_enter (h : Hart) (t : Trap) (route : TrapRoute) {mode : Privilege}
    (low : mode ≤ route.target) : ¬ (h.enter t route).csrs.OpenTo mode := by
  have entered : (h.enter t route).csrs.privilege = route.target := rfl
  have closed : (h.enter t route).csrs.statusBit (Status.enable route.target) = false := by
    rcases route with ⟨target, handler⟩
    cases target with
    | supervisor => exact h.csrs.saveSupervisor_sie t
    | machine | user => exact h.csrs.saveMachine_mie t
  rintro (above | ⟨same, enabled⟩)
  · rw [entered] at above
    exact Privilege.not_lt_of_le low above
  · rw [entered] at same
    rw [← same, closed] at enabled
    contradiction

/-! ### The interrupt of a step -/

def Trap.interrupt? (t : Trap) : Option Interrupt :=
  match t.cause with
  | .interrupt i => some i
  | .exception _ => none

namespace Machine

variable {m : Machine}

/-- The interrupt that a step took, or that it found to be fatal. -/
def takenInterrupt? : EStateM.Result FatalTrap Machine StepOutcome → Option Interrupt
  | .ok (.trapped t) _ => t.interrupt?
  | .ok _ _ => none
  | .error fatal _ => fatal.trap.interrupt?

private theorem takenInterrupt?_trapped (t : Trap) (m : Machine) :
    takenInterrupt? (trapped t m) = t.interrupt? := by
  rw [trapped_eq]
  split <;> rfl

private theorem takenInterrupt?_stepInstruction (m : Machine) :
    takenInterrupt? (stepInstruction m) = none := by
  have ends := ends_executeNext m
  rw [stepInstruction_eq]
  cases ran : executeNext m with
  | ok _ m₁ =>
    rw [conclude]
    split <;> rfl
  | error t m₁ =>
    rcases (ends.of_error ran).exception with ⟨e, rfl, -⟩
    exact takenInterrupt?_trapped _ m₁

private theorem tickDevices_mie (m : Machine) : m.tickDevices.hart.csrs.mie = m.hart.csrs.mie := by
  have driven : m.tickDevices.hart.csrs = m.bus.tick.drive m.hart.csrs := rfl
  rw [driven, drive_eq]

private theorem pendingInterrupt?_begun (m : Machine) :
    m.begun.hart.csrs.pendingInterrupt? = m.tickDevices.hart.csrs.pendingInterrupt? := by
  simp only [begun, countCycle]
  split <;> rfl

private theorem route_begun (m : Machine) (t : Trap) :
    m.begun.hart.csrs.route t = m.tickDevices.hart.csrs.route t := by
  simp only [begun, countCycle]
  split <;> rfl

private theorem step_of_pending {i : Interrupt} (running : m.haltReason? = none)
    (pending : m.tickDevices.hart.csrs.pendingInterrupt? = some i) :
    step m = trapped (.ofInterrupt i m.hart.pc) m.begun := by
  have begins : m.tickDevices.countCycle = m.begun := rfl
  simp only [step, running, begins, pendingInterrupt?_begun, pending, begun_pc]

private theorem takenInterrupt?_step (running : m.haltReason? = none) :
    takenInterrupt? (step m) = m.tickDevices.hart.csrs.pendingInterrupt? := by
  cases pending : m.tickDevices.hart.csrs.pendingInterrupt? with
  | some i =>
    rw [step_of_pending running pending]
    exact takenInterrupt?_trapped _ _
  | none =>
    have begins : m.tickDevices.countCycle = m.begun := rfl
    simp only [step, running, begins, pendingInterrupt?_begun, pending]
    exact takenInterrupt?_stepInstruction _

/-- A step that takes an interrupt: the first one that can be delivered once time has passed. -/
structure Interrupted (m : Machine) (i : Interrupt) : Prop where
  next : m.tickDevices.hart.csrs.IsNext i
  target : (m.tickDevices.hart.csrs.route (.ofInterrupt i m.hart.pc)).target =
    m.tickDevices.hart.csrs.destination i
  /-- No instruction executes. -/
  idle : m.executing? = none
  /-- The step does nothing else than to enter the handler; from machine mode it cannot, if this is
  a handler of machine mode outside memory. -/
  ends : step m =
    if m.hart.csrs.privilege = .machine ∧ m.tickDevices.hart.csrs.destination i = .machine ∧
        ¬ m.begun.bus.ram.contains
          (m.tickDevices.hart.csrs.route (.ofInterrupt i m.hart.pc)).handler 2 then
      .error ⟨.ofInterrupt i m.hart.pc,
        (m.tickDevices.hart.csrs.route (.ofInterrupt i m.hart.pc)).handler⟩ m.begun
    else .ok (.trapped (.ofInterrupt i m.hart.pc)) (m.begun.entered (.ofInterrupt i m.hart.pc))
  /-- The handler is not interrupted by what its mode or a lower one handles. -/
  closed : ∀ j, (m.begun.entered (.ofInterrupt i m.hart.pc)).hart.csrs.Deliverable j →
    m.tickDevices.hart.csrs.destination i <
      (m.begun.entered (.ofInterrupt i m.hart.pc)).hart.csrs.destination j

private theorem interrupted_of_pending {i : Interrupt} (running : m.haltReason? = none)
    (defined : Within Interrupt.allBits m.hart.csrs.mie)
    (pending : m.tickDevices.hart.csrs.pendingInterrupt? = some i) : m.Interrupted i := by
  rw [← tickDevices_mie] at defined
  have next := (CsrFile.pendingInterrupt?_eq_some_iff defined).1 pending
  have target := CsrFile.route_target_interrupt next.deliverable m.hart.pc
  have ends := step_of_pending running pending
  rw [trapped_eq, isFatal, route_begun, begun_privilege, target] at ends
  exact {
    next := next
    target := target
    idle := by simp only [executing?, running, pendingInterrupt?_begun, pending]
    ends := by
      rw [ends]
      congr 1
      simp [Trap.isInterrupt, Trap.ofInterrupt, and_assoc]
    closed := by
      intro j again
      refine Privilege.lt_of_not_le fun low => ?_
      rw [← target, ← route_begun] at low
      exact m.begun.hart.not_openTo_enter _ _ low again.opens }

theorem step_takes_next (running : m.haltReason? = none)
    (defined : Within Interrupt.allBits m.hart.csrs.mie) :
    ((∃ i, takenInterrupt? (step m) = some i) ↔ ∃ i, m.tickDevices.hart.csrs.Deliverable i) ∧
      ∀ i, takenInterrupt? (step m) = some i → m.Interrupted i := by
  rw [takenInterrupt?_step running]
  refine ⟨?_, fun i pending => interrupted_of_pending running defined pending⟩
  rw [← tickDevices_mie] at defined
  rw [← CsrFile.exists_isNext_iff defined]
  simp only [CsrFile.pendingInterrupt?_eq_some_iff defined]

/-- A machine in user mode with two pending interrupts: a software interrupt for supervisor mode and
a timer interrupt for machine mode, which has its handler outside memory. -/
def betweenInterrupts : Machine :=
  { withoutMemory .user with
    hart := { Hart.reset .rv64 with
      csrs := { CsrFile.reset .rv64 with
        privilege := .user
        mip := Interrupt.supervisorSoftware.bit ||| Interrupt.supervisorTimer.bit
        mie := Interrupt.supervisorSoftware.bit ||| Interrupt.supervisorTimer.bit
        mideleg := Interrupt.supervisorSoftware.bit } } }

private theorem betweenInterrupts_pending :
    betweenInterrupts.tickDevices.hart.csrs.pendingInterrupt? = some .supervisorTimer := by
  decide

theorem step_takes_next_betweenInterrupts :
    takenInterrupt? (step betweenInterrupts) = some .supervisorTimer ∧
      betweenInterrupts.Interrupted .supervisorTimer := by
  have running : betweenInterrupts.haltReason? = none := rfl
  have taken : takenInterrupt? (step betweenInterrupts) = some .supervisorTimer := by
    rw [takenInterrupt?_step running, betweenInterrupts_pending]
  exact ⟨taken, (step_takes_next running (by decide)).2 _ taken⟩

/-- Below machine mode an interrupt is taken even if its machine-mode handler is outside memory. -/
theorem unbacked_handler_not_always_fatal :
    ¬ ∀ (m : Machine) (i : Interrupt), m.haltReason? = none →
      Within Interrupt.allBits m.hart.csrs.mip → Within Interrupt.allBits m.hart.csrs.mie →
      Within Interrupt.supervisorBits m.hart.csrs.mideleg →
      m.tickDevices.hart.csrs.IsNext i → m.tickDevices.hart.csrs.destination i = .machine →
      m.begun.bus.ram.contains
        (m.tickDevices.hart.csrs.route (.ofInterrupt i m.hart.pc)).handler 2 = false →
      ∃ fatal, step m = .error fatal m.begun := by
  intro always
  have running : betweenInterrupts.haltReason? = none := rfl
  have defined : Within Interrupt.allBits betweenInterrupts.tickDevices.hart.csrs.mie := by decide
  have next := (CsrFile.pendingInterrupt?_eq_some_iff defined).1 betweenInterrupts_pending
  have fails := always betweenInterrupts .supervisorTimer running (by decide) (by decide)
    (by decide) next (by decide) (by decide)
  rcases fails with ⟨fatal, failed⟩
  have taken : betweenInterrupts.begun.isFatal (.ofInterrupt .supervisorTimer Ram.base)
      (betweenInterrupts.begun.hart.csrs.route (.ofInterrupt .supervisorTimer Ram.base)) = false := by
    decide
  have stepped := step_of_pending running betweenInterrupts_pending
  have pc : betweenInterrupts.hart.pc = Ram.base := rfl
  rw [failed, pc, trapped_eq, taken] at stepped
  contradiction

end Machine

end RiscvBoard
