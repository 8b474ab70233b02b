import Mathlib.Data.Nat.ModEq
import RiscvBoard.Proofs.Board.QueueRound

/-!
Completions of a queue that the driver set up as it should: every available request is taken up once
and in order, and those that are carried out are reported one after the other in the used ring.
-/

set_option autoImplicit false

namespace RiscvBoard.VirtioBlock

/-! ### Places in a ring -/

section Places

variable {num : Nat}

private theorem place_add (size : num ∣ 2 ^ 16) (index : UInt16) (j : Nat) :
    (index + UInt16.ofNat j).toNat % num = (index.toNat + j) % num := by
  rw [UInt16.toNat_add, UInt16.toNat_ofNat', Nat.mod_mod_of_dvd _ size, Nat.add_mod,
    Nat.mod_mod_of_dvd _ size, ← Nat.add_mod]

private theorem place_ne {start j k : Nat} (first : j < num) (second : k < num) (other : j ≠ k) :
    (start + j) % num ≠ (start + k) % num := by
  intro same
  have congruent : j ≡ k [MOD num] := Nat.ModEq.add_left_cancel' start same
  rw [Nat.ModEq, Nat.mod_eq_of_lt first, Nat.mod_eq_of_lt second] at congruent
  exact other congruent

end Places

/-! ### What the driver set up -/

section Driver

variable {d : VirtioBlock} {r t : Ram} {touched : Nat → Prop}

private theorem readDescriptor_of_sameOutside {index : UInt16}
    (same : SameOutside touched r.bytes t.bytes)
    (untouched : ∀ i, (d.descriptor index).Covers i → ¬ touched i) :
    d.readDescriptor t index = d.readDescriptor r index := by
  have field (place : UInt64) (w : Width) (short : place.toNat + w.bytes ≤ 16) :
      t.load (d.descriptorAddr index + place) w = r.load (d.descriptorAddr index + place) w :=
    Ram.load_of_sameOutside same fun i covered =>
      untouched i ((descriptorField_within d index short).covers covered)
  have addr := field 0 .double (by decide)
  have len := field 8 .word (by decide)
  have flags := field 12 .half (by decide)
  have next := field 14 .half (by decide)
  rw [UInt64.add_zero] at addr
  simp only [readDescriptor, addr, len, flags, next]

private theorem readChain_of_sameOutside (few : d.queueNum ≤ queueNumMax) (n : Nat) {index : UInt16}
    (listed : index.toNat < d.queueNum.toNat) (same : SameOutside touched r.bytes t.bytes)
    (untouched : ∀ i, d.descriptorTable.Covers i → ¬ touched i) :
    d.readChain t n index = d.readChain r n index := by
  induction n generalizing index with
  | zero => rfl
  | succ n ih =>
    have first : d.readDescriptor t index = d.readDescriptor r index :=
      readDescriptor_of_sameOutside same fun i covered =>
        untouched i ((descriptor_within listed).covers covered)
    have rest (next : UInt16) : d.readChain t n (next % d.queueNum.toUInt16) =
        d.readChain r n (next % d.queueNum.toUInt16) := by
      apply ih
      rw [toNat_place few]
      exact Nat.mod_lt _ (by omega)
    simp only [readChain, first, rest]

private theorem readChain_congr {e : VirtioBlock} (base : e.queueBase = d.queueBase)
    (num : e.queueNum = d.queueNum) (n : Nat) (index : UInt16) :
    e.readChain r n index = d.readChain r n index := by
  induction n generalizing index with
  | zero => rfl
  | succ n ih =>
    have first : e.readDescriptor r index = d.readDescriptor r index := by
      simp only [readDescriptor, descriptorAddr, base]
    simp only [readChain, first, num, ih]

end Driver

namespace Dma

/-- The driver set up a queue as it should: its size is a power of two, and its areas lie in guest
memory. -/
structure QueueReady (s : Dma) : Prop where
  power : ∃ k, s.device.queueNum.toNat = 2 ^ k
  few : s.device.queueNum ≤ queueNumMax
  page : s.device.guestPageSize ≠ 0
  inside : ∀ area ∈ s.device.queueAreas, s.ram.contains area.addr area.size

def SparesQueue (s : Dma) : Prop :=
  ∀ g ∈ s.written, ∀ area ∈ s.device.queueAreas, g.Apart area

instance (s : Dma) : Decidable s.SparesQueue :=
  inferInstanceAs (Decidable (∀ g ∈ s.written, ∀ area ∈ s.device.queueAreas, g.Apart area))

def completions (s : Dma) (n : Nat) : List (UInt16 × UInt32) :=
  (s.rounds n).filterMap completion?

/-- What the driver set up is as it was: the queue's place, and the bytes of the descriptor table
and of the available ring. -/
structure SameDriver (s t : Dma) : Prop where
  queue : s.SameQueue t
  ram : SameOutside (fun i => ¬ s.device.descriptorTable.Covers i ∧ ¬ s.device.availRing.Covers i)
    s.ram.bytes t.ram.bytes

private theorem SameDriver.refl (s : Dma) : s.SameDriver s :=
  ⟨.refl s, .refl _ _⟩

private theorem SameDriver.trans {s t u : Dma} (first : s.SameDriver t) (second : t.SameDriver u) :
    s.SameDriver u := by
  refine ⟨first.queue.trans second.queue, first.ram.trans ?_⟩
  have kept := second.ram
  rw [first.queue] at kept
  exact kept

section Ready

variable {s t : Dma} (set : s.QueueReady)
include set

private theorem QueueReady.positive : 0 < s.device.queueNum.toNat := by
  obtain ⟨k, power⟩ := set.power
  rw [power]
  exact Nat.two_pow_pos k

private theorem QueueReady.dvd : s.device.queueNum.toNat ∣ 2 ^ 16 := by
  obtain ⟨k, power⟩ := set.power
  have bound := toNat_queueNum_le set.few
  have short : k ≤ 16 := by
    by_contra long
    have := Nat.pow_lt_pow_right (a := 2) (by decide) (Nat.lt_of_not_le long)
    omega
  rw [power]
  exact Nat.pow_dvd_pow 2 short

private theorem SameDriver.ready (same : s.SameDriver t) : t.QueueReady := by
  have size : t.ram.size = s.ram.size := same.ram.size
  obtain ⟨power, few, page, inside⟩ := set
  constructor
  · rw [same.queue]
    exact power
  · rw [same.queue]
    exact few
  · rw [same.queue]
    exact page
  · intro area member
    rw [same.queue] at member
    rw [Ram.contains_of_size size]
    exact inside area member

private theorem QueueReady.entry_inside (index : UInt16) :
    s.ram.contains (s.device.usedEntry index).addr (s.device.usedEntry index).size :=
  Ram.contains_of_within (usedEntry_within set.few set.positive index)
    (set.inside _ (by simp [queueAreas]))

private theorem QueueReady.field_inside :
    s.ram.contains s.device.usedIndexField.addr s.device.usedIndexField.size :=
  Ram.contains_of_within (usedIndexField_within set.few) (set.inside _ (by simp [queueAreas]))

private theorem SameDriver.headAt (same : s.SameDriver t) (index : UInt16) :
    t.headAt index = s.headAt index := by
  have slot := availSlot_within set.few set.positive index
  have inside := Ram.contains_of_within slot (set.inside _ (by simp [queueAreas]))
  have read := Ram.read_of_sameOutside (w := .half) inside same.ram
    fun i covered outside => outside.2 (slot.covers covered)
  unfold Dma.headAt
  rw [same.queue]
  exact congrArg UInt64.toUInt16 read

private theorem QueueReady.head? : s.head? = .ok (s.headAt s.device.lastAvail) := by
  have slot := availSlot_within set.few set.positive s.device.lastAvail
  have inside := Ram.contains_of_within slot (set.inside _ (by simp [queueAreas]))
  rw [Dma.head?, Ram.load_of_contains inside]
  rfl

private theorem SameDriver.chain? (same : s.SameDriver t) (head : UInt16) :
    t.chain? head = s.chain? head := by
  have listed : (head % s.device.queueNum.toUInt16).toNat < s.device.queueNum.toNat := by
    rw [toNat_place set.few]
    exact Nat.mod_lt _ set.positive
  have base : t.device.queueBase = s.device.queueBase := by
    rw [same.queue]
    rfl
  have num := same.queue.queueNum
  rw [Dma.chain?, Dma.chain?, readChain_congr base num, num]
  exact readChain_of_sameOutside set.few _ listed same.ram fun i covered outside =>
    outside.1 covered

private theorem QueueReady.spares_touched (spares : s.SparesQueue) {g : Region}
    (member : g ∈ s.touched) : g.Apart s.device.descriptorTable ∧ g.Apart s.device.availRing := by
  have ring {h : Region} (within : h.Within s.device.usedRing) :
      h.Apart s.device.descriptorTable ∧ h.Apart s.device.availRing :=
    ⟨within.apart (descriptorTable_apart_usedRing set.few).symm,
      within.apart (availRing_apart_usedRing set.few).symm⟩
  rcases List.mem_append.1 member with written | reported
  · exact ⟨spares g written _ (by simp [queueAreas]), spares g written _ (by simp [queueAreas])⟩
  · obtain ⟨-, rfl | rfl⟩ := mem_reported.1 reported
    · exact ring (usedIndexField_within set.few)
    · exact ring (usedEntry_within set.few set.positive _)

end Ready

structure Advanced (s t : Dma) : Prop where
  same : s.SameDriver t
  lastAvail : t.device.lastAvail = s.device.lastAvail + 1
  usedIndex : t.device.usedIndex =
    s.device.usedIndex + UInt16.ofNat s.completion?.toList.length
  report : ∀ done ∈ s.completion?, s.device.readShown t.ram = t.device.usedIndex ∧
    s.device.readEntry t.ram s.device.usedIndex = (done.1.toUInt32, done.2)
  shown : s.completion? = none → s.device.readShown t.ram = s.device.readShown s.ram
  others : ∀ index : UInt16, (s.completion?.isSome →
      index.toNat % s.device.queueNum.toNat ≠
        s.device.usedIndex.toNat % s.device.queueNum.toNat) →
    s.device.readEntry t.ram index = s.device.readEntry s.ram index

section Round

variable {s t : Dma} {more : Bool} (set : s.QueueReady) (spares : s.SparesQueue)
include set spares

private theorem QueueReady.sameDriver (round : s.Round more t) : s.SameDriver t := by
  refine ⟨round.sameQueue, round.ram.mono ?_⟩
  rintro i ⟨g, member, covered⟩
  obtain ⟨table, ring⟩ := set.spares_touched spares member
  exact ⟨fun inside => table.not_covers inside covered,
    fun inside => ring.not_covers inside covered⟩

private theorem QueueReady.readShown (round : s.Round more t) (none : s.completion? = none) :
    s.device.readShown t.ram = s.device.readShown s.ram := by
  have field := usedIndexField_within set.few
  have read := Ram.read_of_sameOutside (w := .half) set.field_inside round.ram ?_
  · exact congrArg UInt64.toUInt16 read
  · rintro i covered ⟨g, member, touched⟩
    rcases List.mem_append.1 member with written | reported
    · have apart := spares g written s.device.usedRing (by simp [queueAreas])
      exact apart.not_covers (field.covers covered) touched
    · have done := (mem_reported.1 reported).1
      simp [none] at done

private theorem QueueReady.readEntry (round : s.Round more t) (index : UInt16)
    (other : s.completion?.isSome → index.toNat % s.device.queueNum.toNat ≠
      s.device.usedIndex.toNat % s.device.queueNum.toNat) :
    s.device.readEntry t.ram index = s.device.readEntry s.ram index := by
  have entry := usedEntry_within set.few set.positive index
  apply readEntry_of_sameOutside set.few (set.entry_inside index) round.ram
  rintro i covered ⟨g, member, touched⟩
  rcases List.mem_append.1 member with written | reported
  · have apart := spares g written s.device.usedRing (by simp [queueAreas])
    exact apart.not_covers (entry.covers covered) touched
  · obtain ⟨done, rfl | rfl⟩ := mem_reported.1 reported
    · exact (usedIndexField_apart_usedEntry set.few index).not_covers covered touched
    · exact (usedEntry_apart set.few (other done)).not_covers touched covered

private theorem QueueReady.advanced : s.round.1 = true ∧ s.Advanced s.round.2 := by
  have round := round_spec set.few
  have same := set.sameDriver spares round
  have unshown := set.readShown spares round
  have others := set.readEntry spares round
  generalize s.round.1 = more, s.round.2 = t at round same unshown others ⊢
  cases round with
  | dropped malformed served =>
    refine ⟨rfl, same, ?_, ?_, ?_, unshown, others⟩
    · dsimp only [advance]
      rw [served.device]
    · dsimp only [advance]
      rw [served.device, malformed]
      simp
    · rw [malformed]
      exact nofun
  | reported done served report index shown entry =>
    refine ⟨rfl, same, ?_, ?_, ?_, unshown, others⟩
    · dsimp only [advance]
      rw [report.device, served.device]
    · dsimp only [advance]
      rw [index, served.device, done]
      rfl
    · rw [done]
      rintro _ ⟨⟩
      rw [report.device, served.device] at shown entry
      exact ⟨shown, entry⟩
  | unreported done served report outside =>
    refine absurd ?_ outside
    have size : _ = s.ram.size := served.ram.size
    simp only [List.forall_mem_cons, Ram.contains_of_size size]
    rw [served.device]
    exact ⟨set.entry_inside _, set.field_inside, nofun⟩

end Round

/-! ### All rounds -/

private theorem completions_succ {s : Dma} (more : s.round.1 = true) (n : Nat) :
    s.completions (n + 1) = s.completion?.toList ++ s.round.2.completions n := by
  rw [completions, rounds, if_pos more, List.filterMap_cons]
  cases s.completion? <;> rfl

theorem length_rounds_le (s : Dma) (n : Nat) : (s.rounds n).length ≤ n := by
  induction n generalizing s with
  | zero => exact Nat.le_refl 0
  | succ n ih =>
    rw [rounds, List.length_cons]
    split
    · exact Nat.succ_le_succ (ih _)
    · exact Nat.succ_le_succ (Nat.zero_le n)

private theorem length_completions_le (s : Dma) (n : Nat) : (s.completions n).length ≤ n :=
  (List.length_filterMap_le _ _).trans (length_rounds_le s n)

/-- What `n` rounds take from the available ring: the next `n` heads, in order. -/
structure Taken (s : Dma) (n : Nat) (t : Dma) : Prop where
  lastAvail : t.device.lastAvail = s.device.lastAvail + UInt16.ofNat n
  heads : (s.rounds n).map head? =
    (List.range n).map fun i => .ok (s.headAt (s.device.lastAvail + UInt16.ofNat i))

/-- What is in the used ring after `n` rounds: the completions, one after the other, and the rest as
before. -/
structure Filled (s : Dma) (done : List (UInt16 × UInt32)) (t : Dma) : Prop where
  usedIndex : t.device.usedIndex = s.device.usedIndex + UInt16.ofNat done.length
  shown : s.device.readShown t.ram =
    if done = [] then s.device.readShown s.ram else t.device.usedIndex
  entries : ∀ (j : Nat) (c : UInt16 × UInt32), done[j]? = some c →
    s.device.readEntry t.ram (s.device.usedIndex + UInt16.ofNat j) = (c.1.toUInt32, c.2)
  others : ∀ index : UInt16, (∀ j < done.length, index.toNat % s.device.queueNum.toNat ≠
      (s.device.usedIndex + UInt16.ofNat j).toNat % s.device.queueNum.toNat) →
    s.device.readEntry t.ram index = s.device.readEntry s.ram index

section Cons

variable {s t u : Dma} (step : s.Advanced t)
include step

private theorem Taken.cons {n : Nat} (set : s.QueueReady) (more : s.round = (true, t))
    (rest : t.Taken n u) : s.Taken (n + 1) u := by
  constructor
  · rw [rest.lastAvail, step.lastAvail, add_one_add_ofNat]
  · have first : s.head? = .ok (s.headAt (s.device.lastAvail + UInt16.ofNat 0)) := by
      have start : s.device.lastAvail + UInt16.ofNat 0 = s.device.lastAvail := UInt16.add_zero _
      rw [start]
      exact set.head?
    rw [rounds, more, if_pos rfl, List.map_cons, first, rest.heads, List.range_succ_eq_map,
      List.map_cons, List.map_map]
    refine congrArg _ (List.map_congr_left fun i _ => ?_)
    rw [step.same.headAt set, step.lastAvail, add_one_add_ofNat]
    rfl

private theorem Filled.of_dropped {done : List (UInt16 × UInt32)} (none : s.completion? = none)
    (rest : t.Filled done u) : s.Filled done u := by
  have index : t.device.usedIndex = s.device.usedIndex := by
    rw [step.usedIndex, none]
    exact UInt16.add_zero _
  obtain ⟨usedIndex, shown, entries, others⟩ := rest
  rw [index] at usedIndex entries others
  rw [step.same.queue.readShown] at shown
  rw [step.same.queue.readEntry] at entries others
  rw [step.same.queue.queueNum] at others
  have unreported : ¬ s.completion?.isSome := by simp [none]
  constructor
  · exact usedIndex
  · rw [shown, step.shown none]
  · exact entries
  · intro i other
    rw [others i other]
    exact step.others i fun done => absurd done unreported

private theorem Filled.cons {first : UInt16 × UInt32} {done : List (UInt16 × UInt32)}
    (set : s.QueueReady) (reported : s.completion? = some first)
    (few : done.length < s.device.queueNum.toNat) (rest : t.Filled done u) :
    s.Filled (first :: done) u := by
  have index : t.device.usedIndex = s.device.usedIndex + 1 := by
    rw [step.usedIndex, reported]
    rfl
  obtain ⟨shownFirst, entryFirst⟩ := step.report first reported
  obtain ⟨usedIndex, shown, entries, others⟩ := rest
  rw [step.same.queue.readShown] at shown
  rw [step.same.queue.readEntry] at entries others
  rw [step.same.queue.queueNum] at others
  rw [index] at usedIndex entries others
  simp only [add_one_add_ofNat] at usedIndex entries others
  have start : s.device.usedIndex + UInt16.ofNat 0 = s.device.usedIndex := UInt16.add_zero _
  constructor
  · exact usedIndex
  · rw [if_neg (List.cons_ne_nil _ _), shown]
    split
    next empty =>
      rw [shownFirst, usedIndex, index, empty]
      rfl
    next more => rfl
  · intro j c found
    cases j with
    | zero =>
      obtain rfl : first = c := Option.some.inj found
      rw [start, others, entryFirst]
      intro k short
      rw [← start, place_add set.dvd, start, place_add set.dvd]
      exact place_ne set.positive (by omega) (Nat.succ_ne_zero k).symm
    | succ j => exact entries j c found
  · intro i other
    rw [others i fun j short => other (j + 1) (by rw [List.length_cons]; omega)]
    refine step.others i fun _ => ?_
    rw [← start]
    exact other 0 (by rw [List.length_cons]; omega)

end Cons

/-- The run: each round advances a queue that is still set up as it should be, and the rounds after
it extend what it left. -/
private theorem QueueReady.worked {s : Dma} (set : s.QueueReady) {n : Nat}
    (few : n ≤ s.device.queueNum.toNat) (spares : ∀ a ∈ s.rounds n, a.SparesQueue) :
    (processAll n s).1 = true ∧ s.Taken n (processAll n s).2 ∧
      s.Filled (s.completions n) (processAll n s).2 := by
  induction n generalizing s with
  | zero =>
    refine ⟨rfl, ⟨?_, rfl⟩, ⟨?_, rfl, nofun, fun _ _ => rfl⟩⟩
    · exact (UInt16.add_zero _).symm
    · exact (UInt16.add_zero _).symm
  | succ n ih =>
    obtain ⟨more, step⟩ := set.advanced (spares s List.mem_cons_self)
    have begun : s.round = (true, s.round.2) := Prod.ext more rfl
    have num := step.same.queue.queueNum
    have later : ∀ a ∈ s.round.2.rounds n, a.SparesQueue := by
      intro a member
      apply spares a
      rw [rounds, if_pos more]
      exact List.mem_cons_of_mem s member
    obtain ⟨goes, taken, filled⟩ := ih (step.same.ready set) (by rw [num]; omega) later
    have short := length_completions_le s.round.2 n
    rw [processAll_succ, if_pos more, completions_succ more]
    have room : (s.round.2.completions n).length < s.device.queueNum.toNat := by omega
    refine ⟨goes, taken.cons step set begun, ?_⟩
    cases done : s.completion? with
    | none => exact filled.of_dropped step done
    | some first => exact filled.cons step set done room

/-! ### The queue -/

def entryAt (s : Dma) (place : Nat) : UInt32 × UInt32 :=
  let slot := s.device.usedBase + 4 + 8 * UInt64.ofNat place
  ((s.ram.read slot .word).toUInt32, (s.ram.read (slot + 4) .word).toUInt32)

/-- What `processQueue` achieves: every available request is taken up, in order and with the chain
that the driver set up, and those that are carried out fill the used ring from the device's index
on. -/
structure Completed (s t : Dma) : Prop where
  heads : s.attempts.map head? =
    (List.range s.pending).map fun i => .ok (s.headAt (s.device.lastAvail + UInt16.ofNat i))
  chains : ∀ a ∈ s.attempts, a.chain? = s.chain?
  lastAvail : s.availIndex? = .ok t.device.lastAvail
  usedIndex : t.device.usedIndex =
    s.device.usedIndex + UInt16.ofNat (s.completions s.pending).length
  shown : s.completions s.pending ≠ [] → t.device.readShown t.ram = t.device.usedIndex
  entries : ∀ (j : Nat) (c : UInt16 × UInt32), (s.completions s.pending)[j]? = some c →
    t.entryAt ((s.device.usedIndex.toNat + j) % s.device.queueNum.toNat) = (c.1.toUInt32, c.2)
  others : ∀ place < s.device.queueNum.toNat,
    (∀ j < (s.completions s.pending).length,
      (s.device.usedIndex.toNat + j) % s.device.queueNum.toNat ≠ place) →
    t.entryAt place = s.entryAt place
  interrupt : t.device.interrupting

theorem interrupting_or (d : VirtioBlock) :
    { d with interruptStatus := d.interruptStatus ||| 1 }.interrupting := by
  have bit : (d.interruptStatus ||| 1) &&& 1 = 1 := by
    apply UInt32.toNat_inj.1
    rw [UInt32.toNat_and, UInt32.toNat_or, UInt32.toNat_one, Nat.and_or_distrib_right,
      Nat.and_self, Nat.and_one_is_mod]
    rcases Nat.mod_two_eq_zero_or_one d.interruptStatus.toNat with even | odd
    · rw [even]
      rfl
    · rw [odd]
      rfl
  simp [interrupting, bit]

private theorem entryAt_place {s : Dma} (few : s.device.queueNum ≤ queueNumMax) (index : UInt16) :
    s.entryAt (index.toNat % s.device.queueNum.toNat) = s.device.readEntry s.ram index := by
  have cast (place : UInt16) : UInt64.ofNat place.toNat = place.toUInt64 := by simp
  have slot : s.device.usedBase + 4 + 8 * UInt64.ofNat (index.toNat % s.device.queueNum.toNat) =
      s.device.usedSlot index := by
    rw [← toNat_place few, cast, usedSlot]
  rw [entryAt, slot, readEntry]

private theorem rounds_sameDriver {s : Dma} (set : s.QueueReady) {n : Nat}
    (spares : ∀ a ∈ s.rounds n, a.SparesQueue) : ∀ a ∈ s.rounds n, s.SameDriver a := by
  refine (rounds_invariant s.SameDriver n (.refl s) ?_).1
  intro a member same
  exact same.trans ((same.ready set).advanced (spares a member)).2.same

end Dma

private theorem Dma.QueueReady.availIndex? {s : Dma} (set : s.QueueReady) :
    ∃ index, s.availIndex? = .ok index := by
  have inside := Ram.contains_of_within (availIndex_within set.few)
    (set.inside s.device.availRing (by simp [queueAreas]))
  exact ⟨_, by rw [Dma.availIndex?, Ram.load_of_contains inside]; rfl⟩

/-- Completions are neither lost nor duplicated, and come in order. -/
theorem processQueue_completes {s : Dma} (ready : s.QueueReady)
    (few : s.pending ≤ s.device.queueNum.toNat) (spares : ∀ a ∈ s.attempts, a.SparesQueue) :
    s.Completed (processQueue s) := by
  obtain ⟨index, available⟩ := ready.availIndex?
  have on : ¬ (s.device.queueNum = 0 ∨ s.device.guestPageSize = 0) := by
    rintro (none | none)
    · exact absurd (congrArg UInt32.toNat none) (Nat.ne_of_gt ready.positive)
    · exact ready.page none
  have count : s.pending = (index - s.device.lastAvail).toNat := by
    rw [Dma.pending, if_neg on, available]
  obtain ⟨goes, taken, filled⟩ := ready.worked few spares
  have same := (sameQueue_processAll s.pending ready.few).2
  rw [processQueue_eq, if_neg on, available]
  generalize processAll s.pending s = result at goes taken filled same ⊢
  obtain ⟨more, t⟩ := result
  obtain rfl : more = true := goes
  have entry (u : UInt16) : t.entryAt (u.toNat % s.device.queueNum.toNat) =
      s.device.readEntry t.ram u := by
    rw [← same.queueNum, Dma.entryAt_place (same.few ready.few), same.readEntry]
  constructor
  · exact taken.heads
  · intro a member
    funext head
    exact (Dma.rounds_sameDriver ready spares a member).chain? ready head
  · have last : t.device.lastAvail = index := by
      rw [taken.lastAvail, count, UInt16.ofNat_toNat, UInt16.add_comm, UInt16.sub_add_cancel]
    exact available.trans (congrArg Except.ok last.symm)
  · exact filled.usedIndex
  · intro some
    change t.device.readShown t.ram = t.device.usedIndex
    rw [same.readShown, filled.shown, if_neg some]
  · intro j c found
    change t.entryAt _ = _
    rw [← place_add ready.dvd, entry]
    exact filled.entries j c found
  · intro place inside other
    have exact : (UInt16.ofNat place).toNat % s.device.queueNum.toNat = place := by
      rw [UInt16.toNat_ofNat', Nat.mod_mod_of_dvd _ ready.dvd, Nat.mod_eq_of_lt inside]
    change t.entryAt place = _
    rw [← exact, entry, Dma.entryAt_place ready.few]
    apply filled.others
    intro j short
    rw [exact, place_add ready.dvd]
    exact (other j short).symm
  · exact Dma.interrupting_or t.device

/-- A queue of four places at the start of guest memory, with both indices about to wrap around. Two
requests are available: one byte to be read, and one with its header outside of guest memory. Behind
the descriptors lie the available ring, with the index 1 and the heads 3, 0, 0 and 0, the used ring,
and the header, the buffer and the status byte of the first request. -/
def wrappingQueue : Dma where
  device := { ofDisk ⟨#[42]⟩ with
    guestPageSize := 1, queueNum := 4, queueAlign := 4, queuePage := 0x80000000
    lastAvail := 0xffff, usedIndex := 0xffff }
  ram := ⟨⟨#[
    0x70, 0, 0, 0x80, 0, 0, 0, 0, 16, 0, 0, 0, 1, 0, 1, 0,
    0x80, 0, 0, 0x80, 0, 0, 0, 0, 1, 0, 0, 0, 3, 0, 2, 0,
    0x81, 0, 0, 0x80, 0, 0, 0, 0, 1, 0, 0, 0, 2, 0, 0, 0,
    0, 0, 0, 0, 0, 0, 0, 0, 0, 0, 0, 0, 1, 0, 1, 0,
    0, 0, 1, 0, 3, 0, 0, 0, 0, 0, 0, 0,
    0, 0, 0xff, 0xff,
    0, 0, 0, 0, 0, 0, 0, 0, 0, 0, 0, 0, 0, 0, 0, 0,
    0, 0, 0, 0, 0, 0, 0, 0, 0, 0, 0, 0, 0, 0, 0, 0,
    0, 0, 0, 0, 0, 0, 0, 0, 0, 0, 0, 0, 0, 0, 0, 0, 0, 0xff]⟩⟩

theorem processQueue_completes_wrapping :
    wrappingQueue.pending = 2 ∧ wrappingQueue.Completed (processQueue wrappingQueue) := by
  have ready : wrappingQueue.QueueReady :=
    ⟨⟨2, by decide⟩, by decide, by decide, by decide +kernel⟩
  have few : wrappingQueue.pending ≤ wrappingQueue.device.queueNum.toNat := by decide +kernel
  have spares : ∀ a ∈ wrappingQueue.attempts, a.SparesQueue := by decide +kernel
  exact ⟨by decide +kernel, processQueue_completes ready few spares⟩

end RiscvBoard.VirtioBlock
