import RiscvBoard.Proofs.Board.BlockDevice

/-!
The notifications that wait at the device. Time is counted in steps: in each of them the clock ticks
first, and then registers may be written. A notification waits for a fixed number of ticks, unless
the device is reset; it is served at the tick at which it has waited so long, neither earlier nor
later, because no step brings more than one and the oldest comes first. The clock may wrap around
meanwhile: only the distance between two of its readings counts.
-/

set_option autoImplicit false

namespace RiscvBoard.VirtioBlock

/-! ### Register writes -/

structure RegisterWrite where
  offset : UInt64
  width : Width
  value : UInt64

def RegisterWrite.register (w : RegisterWrite) : Register :=
  Register.at (w.offset &&& ~~~3)

def put (d : VirtioBlock) (w : RegisterWrite) : VirtioBlock :=
  d.store w.offset w.width w.value

def IsNotice (d : VirtioBlock) (w : RegisterWrite) : Prop :=
  w.register = .queueNotify ∧ d.queueSel = 0

instance (d : VirtioBlock) (w : RegisterWrite) : Decidable (d.IsNotice w) :=
  inferInstanceAs (Decidable (_ ∧ _))

instance (d : VirtioBlock) (offset : UInt64) (w : Width) (value : UInt64) :
    Decidable (d.Resets offset w value) :=
  inferInstanceAs (Decidable (_ ∧ _))

def Register.isConstant : Register → Bool
  | .constant _ => true
  | _ => false

private theorem put_of_isConstant (d : VirtioBlock) {w : RegisterWrite}
    (constant : w.register.isConstant) : d.put w = d := by
  unfold put store
  unfold RegisterWrite.register at constant
  cases register : Register.at (w.offset &&& ~~~3) with
  | constant value => rfl
  | _ => simp [register, Register.isConstant] at constant

/-- What register writes make of a device, as far as its notifications and its interrupt go, given
whether they notify it and whether they reset it. -/
inductive Turns (d : VirtioBlock) : Prop → Prop → VirtioBlock → Prop
  | notified {notice reset : Prop} (yes : notice) (no : ¬ reset) :
    Turns d notice reset { d with notifications := d.notifications ++ [d.clock] }
  | reset {notice reset : Prop} (no : ¬ notice) (yes : reset) : Turns d notice reset d.reset
  | stays {notice reset : Prop} {t : VirtioBlock} (neither : ¬ notice ∧ ¬ reset)
    (clock : t.clock = d.clock) (notifications : t.notifications = d.notifications)
    (interrupt : d.interruptStatus = 0 → t.interruptStatus = 0) : Turns d notice reset t

theorem Turns.not_notice {d t : VirtioBlock} {notice reset : Prop} (turns : d.Turns notice reset t)
    (resets : reset) : ¬ notice := by
  cases turns with
  | notified yes no => exact absurd resets no
  | reset no yes => exact no
  | stays neither => exact neither.1

theorem Turns.interruptStatus {d t : VirtioBlock} {notice reset : Prop}
    (turns : d.Turns notice reset t) (down : reset ∨ d.interruptStatus = 0) :
    t.interruptStatus = 0 := by
  cases turns with
  | notified yes no => exact down.resolve_left no
  | reset no yes => rfl
  | stays neither clock notifications interrupt => exact interrupt (down.resolve_left neither.2)

private theorem turns_put (d : VirtioBlock) (w : RegisterWrite) :
    d.Turns (d.IsNotice w) (d.Resets w.offset w.width w.value) (d.put w) := by
  unfold put store IsNotice Resets RegisterWrite.register
  cases register : Register.at (w.offset &&& ~~~3) with
  | queueNotify =>
    dsimp only
    by_cases first : d.queueSel = 0
    · rw [if_pos first]
      exact .notified ⟨rfl, first⟩ (fun resets => nomatch resets.1)
    · rw [if_neg first]
      exact .stays ⟨fun notice => first notice.2, fun resets => nomatch resets.1⟩ rfl rfl id
  | status =>
    dsimp only
    split
    next zero => exact .reset (fun notice => nomatch notice.1) ⟨rfl, zero⟩
    next other =>
      exact .stays ⟨fun notice => (nomatch notice.1), fun resets => other resets.2⟩ rfl rfl id
  | interruptAck =>
    refine .stays ⟨fun notice => (nomatch notice.1), fun resets => nomatch resets.1⟩ rfl rfl ?_
    intro down
    dsimp only
    rw [down, UInt32.zero_and]
  | _ => exact .stays ⟨fun notice => (nomatch notice.1), fun resets => nomatch resets.1⟩ rfl rfl id

def finds (d : VirtioBlock) : List RegisterWrite → List (VirtioBlock × RegisterWrite)
  | [] => []
  | w :: rest => (d, w) :: (d.put w).finds rest

def notices (d : VirtioBlock) (writes : List RegisterWrite) : List (VirtioBlock × RegisterWrite) :=
  (d.finds writes).filter fun (found, w) => found.IsNotice w

def ResetsAmong (d : VirtioBlock) (writes : List RegisterWrite) : Prop :=
  ∃ p ∈ d.finds writes, p.1.Resets p.2.offset p.2.width p.2.value

instance (d : VirtioBlock) (writes : List RegisterWrite) : Decidable (d.ResetsAmong writes) :=
  inferInstanceAs (Decidable (∃ p ∈ d.finds writes, p.1.Resets p.2.offset p.2.width p.2.value))

section Writes

variable {d : VirtioBlock} {writes : List RegisterWrite}

theorem disk_foldl_put : (writes.foldl put d).disk = d.disk := by
  induction writes generalizing d with
  | nil => rfl
  | cons w rest ih => exact ih.trans (disk_store d _ _ _)

theorem queueNum_foldl_put_le (few : d.queueNum ≤ queueNumMax) :
    (writes.foldl put d).queueNum ≤ queueNumMax := by
  induction writes generalizing d with
  | nil => exact few
  | cons w rest ih => exact ih (queueNum_store_le few _ _ _)

private theorem finds_of_isConstant (constant : ∀ w ∈ writes, w.register.isConstant) :
    d.finds writes = writes.map (d, ·) ∧ writes.foldl put d = d := by
  induction writes with
  | nil => exact ⟨rfl, rfl⟩
  | cons w rest ih =>
    obtain ⟨first, later⟩ := List.forall_mem_cons.1 constant
    have kept := put_of_isConstant d first
    obtain ⟨found, whole⟩ := ih later
    rw [finds, List.map_cons, List.foldl_cons, kept]
    exact ⟨congrArg _ found, whole⟩

private theorem notices_of_isConstant (constant : ∀ w ∈ writes, w.register.isConstant) :
    d.notices writes = [] := by
  rw [notices, (finds_of_isConstant constant).1, List.filter_eq_nil_iff]
  intro p member
  obtain ⟨w, listed, rfl⟩ := List.mem_map.1 member
  have fixed := constant w listed
  simp only [decide_eq_true_eq]
  rintro ⟨notify, -⟩
  rw [notify] at fixed
  contradiction

private theorem not_resetsAmong_of_isConstant (constant : ∀ w ∈ writes, w.register.isConstant) :
    ¬ d.ResetsAmong writes := by
  rintro ⟨p, member, status, -⟩
  rw [(finds_of_isConstant constant).1] at member
  obtain ⟨w, listed, rfl⟩ := List.mem_map.1 member
  have fixed := constant w listed
  rw [RegisterWrite.register, status] at fixed
  contradiction

private theorem notices_singleton (d : VirtioBlock) (w : RegisterWrite) :
    d.notices [w] = if d.IsNotice w then [(d, w)] else [] := by
  by_cases notice : d.IsNotice w <;> simp [notices, finds, notice]

private theorem resetsAmong_singleton (d : VirtioBlock) (w : RegisterWrite) :
    d.ResetsAmong [w] ↔ d.Resets w.offset w.width w.value := by
  constructor
  · rintro ⟨p, member, resets⟩
    rw [List.mem_singleton.1 member] at resets
    exact resets
  · exact fun resets => ⟨(d, w), List.mem_singleton_self _, resets⟩

variable (few : (∃ w, writes = [w]) ∨ ∀ w ∈ writes, w.register.isConstant)
include few

theorem length_notices_le : (d.notices writes).length ≤ 1 := by
  rcases few with ⟨w, rfl⟩ | constant
  · exact List.length_filter_le _ [(d, w)]
  · rw [notices_of_isConstant constant]
    exact Nat.zero_le 1

theorem turns_foldl_put :
    d.Turns (d.notices writes ≠ []) (d.ResetsAmong writes) (writes.foldl put d) := by
  rcases few with ⟨w, rfl⟩ | constant
  · have notified : d.notices [w] ≠ [] ↔ d.IsNotice w := by
      rw [notices_singleton]
      by_cases notice : d.IsNotice w <;> simp [notice]
    rw [notified, resetsAmong_singleton]
    exact d.turns_put w
  · rw [(finds_of_isConstant constant).2]
    refine .stays ⟨not_not_intro (notices_of_isConstant constant), ?_⟩ rfl rfl id
    exact not_resetsAmong_of_isConstant constant

end Writes

/-! ### Ticks -/

private theorem device_processQueue {s : Dma} (few : s.device.queueNum ≤ queueNumMax) :
    ∃ disk lastAvail usedIndex interruptStatus, (processQueue s).device =
      { s.device with disk, lastAvail, usedIndex, interruptStatus } := by
  have same := (sameQueue_processAll s.pending few).2
  rcases processQueue_cases s with ⟨-, unchanged⟩ | worked
  · rw [unchanged]
    exact ⟨_, _, _, _, rfl⟩
  · rw [worked]
    generalize processAll s.pending s = result at same
    obtain ⟨more, t⟩ := result
    unfold Dma.SameQueue at same
    cases more with
    | true =>
      dsimp only [Dma.conclude]
      rw [same]
      exact ⟨_, _, _, _, rfl⟩
    | false =>
      dsimp only [Dma.conclude]
      rw [same]
      exact ⟨_, _, _, _, rfl⟩

/-- The notifications of a device were made in the steps that are told, the oldest first. -/
def NoticesFrom (d : VirtioBlock) (waits : Nat → Prop) : Prop :=
  ∃ steps : List Nat, d.notifications = steps.map (fun k => UInt64.ofNat (k + 1)) ∧
    steps.Pairwise (· < ·) ∧ ∀ k, k ∈ steps ↔ waits k

section History

variable (notice reset : Nat → Prop)

/-- Before a step, the notification of an earlier one is still to be served: it has not waited for
too long, and the device has not been reset since. -/
def Waits (n k : Nat) : Prop :=
  k < n ∧ n ≤ k + 500 ∧ notice k ∧ ∀ j, k < j → j < n → ¬ reset j

structure Waiting (n : Nat) (d : VirtioBlock) : Prop where
  few : d.queueNum ≤ queueNumMax
  clock : d.clock = UInt64.ofNat n
  notices : d.NoticesFrom (Waits notice reset n)

end History

section Waiting

variable {notice reset : Nat → Prop} {n : Nat} {s : Dma}

private theorem accessDelay_le_iff {k : Nat} (earlier : k ≤ n) (fresh : n ≤ k + 500) :
    accessDelay ≤ UInt64.ofNat n + 1 - UInt64.ofNat (k + 1) ↔ n = k + 500 := by
  have delay : accessDelay.toNat = 500 := rfl
  have one : (1 : UInt64).toNat = 1 := rfl
  rw [UInt64.le_iff_toNat_le, UInt64.toNat_sub, UInt64.toNat_add, UInt64.toNat_ofNat',
    UInt64.toNat_ofNat', delay, one]
  omega

private theorem Waiting.due?_cases (waiting : Waiting notice reset n s.device) :
    (∃ k t, s.due? = some t ∧ Waits notice reset n k ∧ n = k + 500 ∧
      t.device.NoticesFrom fun k => Waits notice reset n k ∧ n < k + 500) ∨
    s.due? = none ∧ (∀ k, Waits notice reset n k → n < k + 500) := by
  obtain ⟨-, clock, steps, listed, ordered, mem⟩ := waiting
  unfold Dma.due?
  cases steps with
  | nil =>
    rw [listed]
    exact .inr ⟨rfl, fun k waits => absurd ((mem k).2 waits) List.not_mem_nil⟩
  | cons first rest =>
    have oldest := (mem first).1 List.mem_cons_self
    have later := List.pairwise_cons.1 ordered
    have elapsed : s.ticked.device.clock - UInt64.ofNat (first + 1) ≥ accessDelay ↔
        n = first + 500 := by
      have time : s.ticked.device.clock = UInt64.ofNat n + 1 := congrArg (· + 1) clock
      rw [time]
      exact accessDelay_le_iff (Nat.le_of_lt oldest.1) oldest.2.1
    rw [listed, List.map_cons]
    dsimp only
    by_cases now : n = first + 500
    · rw [if_pos (elapsed.2 now)]
      refine .inl ⟨first, _, rfl, oldest, now, rest, rfl, later.2, fun k => ?_⟩
      constructor
      · intro member
        have := later.1 k member
        exact ⟨(mem k).1 (List.mem_cons_of_mem first member), by omega⟩
      · rintro ⟨waits, fresh⟩
        rcases List.mem_cons.1 ((mem k).2 waits) with rfl | member
        · omega
        · exact member
    · rw [if_neg fun due => now (elapsed.1 due)]
      refine .inr ⟨rfl, fun k waits => ?_⟩
      have young := oldest.2.1
      rcases List.mem_cons.1 ((mem k).2 waits) with rfl | member
      · omega
      · have := later.1 k member
        omega

theorem Waiting.due?_isSome_iff (waiting : Waiting notice reset n s.device) :
    s.due?.isSome ↔ ∃ k, n = k + 500 ∧ notice k ∧ ∀ j, k < j → j < n → ¬ reset j := by
  rcases waiting.due?_cases with ⟨k, t, due, ⟨-, -, noticed, kept⟩, now, -⟩ | ⟨none, young⟩
  · rw [due]
    exact iff_of_true rfl ⟨k, now, noticed, kept⟩
  · rw [none]
    refine iff_of_false nofun ?_
    rintro ⟨k, now, noticed, kept⟩
    have := young k ⟨by omega, by omega, noticed, kept⟩
    omega

theorem Waiting.tick (waiting : Waiting notice reset n s.device) :
    (tick s).device.queueNum ≤ queueNumMax ∧ (tick s).device.clock = UInt64.ofNat (n + 1) ∧
      (tick s).device.NoticesFrom fun k => Waits notice reset n k ∧ n < k + 500 := by
  have clock : s.device.clock + 1 = UInt64.ofNat (n + 1) := by
    rw [waiting.clock, UInt64.ofNat_add]
    rfl
  refine ⟨by rw [queueNum_tick waiting.few]; exact waiting.few, ?_⟩
  rw [tick_eq]
  rcases waiting.due?_cases with ⟨k, t, due, -, -, waits⟩ | ⟨none, young⟩
  · obtain ⟨rest, rfl⟩ := Dma.due?_eq_some due
    obtain ⟨disk, lastAvail, usedIndex, interruptStatus, worked⟩ :=
      device_processQueue (s := { s with device :=
        { s.device with clock := s.device.clock + 1, notifications := rest } }) waiting.few
    rw [due]
    dsimp only
    rw [worked]
    exact ⟨clock, waits⟩
  · obtain ⟨steps, listed, ordered, mem⟩ := waiting.notices
    rw [none]
    refine ⟨clock, steps, listed, ordered, fun k => ?_⟩
    rw [mem]
    exact ⟨fun waits => ⟨waits, young k waits⟩, And.left⟩

private theorem waits_succ {k : Nat} : Waits notice reset (n + 1) k ↔
    k = n ∧ notice n ∨ (Waits notice reset n k ∧ n < k + 500) ∧ ¬ reset n := by
  constructor
  · rintro ⟨earlier, young, noticed, kept⟩
    rcases Nat.lt_succ_iff_lt_or_eq.1 earlier with before | rfl
    · refine .inr ⟨⟨⟨before, by omega, noticed, fun j low high => ?_⟩, young⟩, ?_⟩
      · exact kept j low (by omega)
      · exact kept n before (by omega)
    · exact .inl ⟨rfl, noticed⟩
  · rintro (⟨rfl, noticed⟩ | ⟨⟨⟨before, -, noticed, kept⟩, young⟩, last⟩)
    · exact ⟨by omega, by omega, noticed, fun j low high => by omega⟩
    · refine ⟨by omega, young, noticed, fun j low high => ?_⟩
      rcases Nat.lt_succ_iff_lt_or_eq.1 high with earlier | rfl
      · exact kept j low earlier
      · exact last

theorem Turns.waiting {d t : VirtioBlock} (turns : d.Turns (notice n) (reset n) t)
    (few : t.queueNum ≤ queueNumMax) (clock : d.clock = UInt64.ofNat (n + 1))
    (waits : d.NoticesFrom fun k => Waits notice reset n k ∧ n < k + 500) :
    Waiting notice reset (n + 1) t := by
  obtain ⟨steps, listed, ordered, mem⟩ := waits
  have next (k : Nat) : Waits notice reset (n + 1) k ↔
      k = n ∧ notice n ∨ k ∈ steps ∧ ¬ reset n := by rw [waits_succ, mem]
  generalize notice n = now, reset n = lost at turns next
  cases turns with
  | notified yes no =>
    refine ⟨few, clock, steps ++ [n], ?_, ?_, fun k => ?_⟩
    · rw [listed, clock, List.map_append, List.map_singleton]
    · refine List.pairwise_append.2
        ⟨ordered, List.pairwise_singleton _ n, fun k member j last => ?_⟩
      rw [List.mem_singleton.1 last]
      exact ((mem k).1 member).1.1
    · rw [next, List.mem_append, List.mem_singleton, and_iff_left yes, and_iff_left no, or_comm]
  | reset no yes =>
    refine ⟨few, clock, [], rfl, .nil, fun k => iff_of_false List.not_mem_nil ?_⟩
    rw [next]
    rintro (⟨-, noticed⟩ | ⟨-, kept⟩)
    · exact no noticed
    · exact kept yes
  | stays neither clock' notifications _ =>
    refine ⟨few, clock'.trans clock, steps, notifications.trans listed, ordered, fun k => ?_⟩
    rw [next, and_iff_left neither.2, or_iff_right fun own => neither.1 own.2]

end Waiting

end RiscvBoard.VirtioBlock
