import RiscvBoard.Proofs.Board.BlockRequest
import RiscvBoard.Proofs.Board.QueueLayout

/-!
Work on the queue, round by round. A round takes up the next available request, carries it out and
reports it. What a round can change is known from the state in which it begins: the data buffers
and the status byte of one chain, one element of the used ring and its index, the disk, and the
positions in the two rings that the device remembers.
-/

set_option autoImplicit false

namespace RiscvBoard.VirtioBlock

namespace Dma

def storage (s : Dma) : Storage :=
  ⟨s.device.disk, s.ram⟩

def headAt (s : Dma) (index : UInt16) : UInt16 :=
  (s.ram.read (s.device.availSlot index) .half).toUInt16

def head? (s : Dma) : Except MemFault UInt16 :=
  (s.ram.load (s.device.availSlot s.device.lastAvail) .half).map UInt64.toUInt16

def chain? (s : Dma) (head : UInt16) : Except MemFault (List Descriptor) :=
  s.device.readChain s.ram s.device.queueNum.toNat (head % s.device.queueNum.toUInt16)

def requestAt? (s : Dma) (head : UInt16) : Option Request :=
  match s.chain? head with
  | .ok chain => Request.read? s.ram chain
  | .error _ => none

/-- The next available request, as far as it can be read. -/
def request? (s : Dma) : Option Request :=
  match s.head? with
  | .ok head => s.requestAt? head
  | .error _ => none

def moves (s : Dma) : List Move :=
  match s.request? with
  | some q => q.moves s.storage
  | none => []

def written (s : Dma) : List Region :=
  match s.request? with
  | some q => q.written s.storage
  | none => []

/-- The head and the length that the next available request is reported with, if its chain is
carried out to the end. -/
def completion? (s : Dma) : Option (UInt16 × UInt32) :=
  match s.head? with
  | .ok head =>
    match processChain (head % s.device.queueNum.toUInt16) s with
    | .ok len _ => some (head, len)
    | .error _ _ => none
  | .error _ => none

/-- The effect of carrying out the next available request: the device keeps everything except its
disk. -/
structure Served (s t : Dma) : Prop where
  device : t.device = { s.device with disk := t.device.disk }
  kept : Storage.Keeps (fun i => ∃ m ∈ s.moves, m.WritesDisk i)
    (fun i => ∃ g ∈ s.written, g.Covers i) s.storage t.storage

private theorem Served.refl (s : Dma) : Served s s :=
  ⟨rfl, .refl _ _ _⟩

end Dma

def Dma.withStorage (s : Dma) (t : Storage) : Dma :=
  ⟨{ s.device with disk := t.disk }, t.ram⟩

private theorem ends_processChain_iff {s : Dma} {head : UInt16} {chain : List Descriptor}
    {done : UInt32 → Dma → Prop} {failed : MemFault → Dma → Prop}
    (read : s.chain? head = .ok chain) :
    Ends (processChain (head % s.device.queueNum.toUInt16)) s done failed ↔
      Ends (serve chain) s.storage (fun len t => done len (s.withStorage t))
        (fun e t => failed e (s.withStorage t)) := by
  unfold Dma.chain? at read
  unfold Ends processChain Dma.storage
  rw [read]
  dsimp only
  cases serve chain ⟨s.device.disk, s.ram⟩ <;> rfl

private theorem ends_processChain {s : Dma} {head : UInt16} (available : s.head? = .ok head) :
    Ends (processChain (head % s.device.queueNum.toUInt16)) s (fun _ t => s.Served t)
      (fun _ t => s.Served t) := by
  cases read : s.chain? head with
  | error e =>
    unfold Dma.chain? at read
    unfold Ends processChain
    rw [read]
    exact .refl s
  | ok chain =>
    have request : s.request? = Request.read? s.ram chain := by
      simp only [Dma.request?, available, Dma.requestAt?, read]
    rw [ends_processChain_iff read]
    cases found : Request.read? s.ram chain with
    | none =>
      have ended : Ends (serve chain) s.storage _ _ := ends_serve_of_none found
      refine ended.mono ?_ ?_
      · rintro _ t rfl
        exact .refl s
      · rintro _ t rfl
        exact .refl s
    | some q =>
      have moves : s.moves = q.moves s.storage := by rw [Dma.moves, request, found]
      have written : s.written = q.written s.storage := by rw [Dma.written, request, found]
      have served (t : Storage) (kept : q.Served s.storage t) : s.Served (s.withStorage t) := by
        refine ⟨rfl, ?_⟩
        rw [moves, written]
        exact kept
      unfold Ends
      rw [serve_of_read? found]
      exact (ends_carryOut q s.storage).mono (fun _ t => served t) fun _ t => served t

theorem ends_processNext (s : Dma) :
    Ends processNext s (fun r t => s.completion? = some r ∧ s.Served t)
      (fun _ t => s.completion? = none ∧ s.Served t) := by
  rw [processNext, ends_bind, ends_get]
  cases loaded : s.ram.load (s.device.availSlot s.device.lastAvail) .half with
  | error e =>
    have unavailable : s.head? = .error e := by rw [Dma.head?, loaded]; rfl
    exact ⟨by rw [Dma.completion?, unavailable], .refl s⟩
  | ok value =>
    have available : s.head? = .ok value.toUInt16 := by rw [Dma.head?, loaded]; rfl
    have ended := ends_processChain available
    dsimp only
    rw [ends_bind]
    unfold Dma.completion? Ends at *
    rw [available]
    dsimp only
    split at ended
    next len t run =>
      rw [run]
      exact ⟨rfl, ended⟩
    next e t run =>
      rw [run]
      exact ⟨rfl, ended⟩

/-! ### Reporting -/

def readEntry (d : VirtioBlock) (ram : Ram) (index : UInt16) : UInt32 × UInt32 :=
  ((ram.read (d.usedSlot index) .word).toUInt32, (ram.read (d.usedSlot index + 4) .word).toUInt32)

def readShown (d : VirtioBlock) (ram : Ram) : UInt16 :=
  (ram.read d.usedIndexField.addr .half).toUInt16

section Entry

variable {d : VirtioBlock} {r : Ram} {index : UInt16}

def writeEntry (d : VirtioBlock) (index : UInt16) (head : UInt16) (len : UInt32) (r : Ram) : Ram :=
  (r.write (d.usedSlot index) .word head.toUInt64).write (d.usedSlot index + 4) .word len.toUInt64

private theorem sameOutside_writeHead (first : r.contains (d.usedSlot index) 4) (value : UInt64) :
    SameOutside (d.usedEntry index).Covers r.bytes
      (r.write (d.usedSlot index) .word value).bytes :=
  (Ram.sameOutside_write (w := .word) first value).mono fun _ => (headWord_within d index).covers

variable (few : d.queueNum ≤ queueNumMax)
include few

theorem readEntry_of_sameOutside {touched : Nat → Prop} {t : Ram}
    (inside : r.contains (d.usedEntry index).addr (d.usedEntry index).size)
    (same : SameOutside touched r.bytes t.bytes)
    (untouched : ∀ i, (d.usedEntry index).Covers i → ¬ touched i) :
    d.readEntry t index = d.readEntry r index := by
  obtain ⟨first, second⟩ := (contains_usedEntry few).1 inside
  have head := Ram.read_of_sameOutside (w := .word) first same
    fun i covered => untouched i ((headWord_within d index).covers covered)
  have length := Ram.read_of_sameOutside (w := .word) second same
    fun i covered => untouched i ((lengthWord_within few index).covers covered)
  rw [readEntry, readEntry, head, length]

private theorem sameOutside_writeEntry (head : UInt16) (len : UInt32)
    (first : r.contains (d.usedSlot index) 4) (second : r.contains (d.usedSlot index + 4) 4) :
    SameOutside (d.usedEntry index).Covers r.bytes (d.writeEntry index head len r).bytes := by
  refine (sameOutside_writeHead first head.toUInt64).trans ?_
  refine (Ram.sameOutside_write (w := .word) ?_ _).mono fun _ =>
    (lengthWord_within few index).covers
  rw [Ram.contains_write]
  exact second

private theorem readEntry_writeEntry (head : UInt16) (len : UInt32)
    (first : r.contains (d.usedSlot index) 4) (second : r.contains (d.usedSlot index + 4) 4) :
    d.readEntry (d.writeEntry index head len r) index = (head.toUInt32, len) := by
  have headSmall : head.toUInt64.toNat < 2 ^ (8 * Width.word.bytes) := by
    have := head.toNat_lt
    rw [UInt16.toNat_toUInt64, Width.bytes]
    omega
  have lenSmall : len.toUInt64.toNat < 2 ^ (8 * Width.word.bytes) := by
    have := len.toNat_lt
    rw [UInt32.toNat_toUInt64, Width.bytes]
    omega
  have room : (r.write (d.usedSlot index) .word head.toUInt64).contains
      (d.usedSlot index + 4) 4 := by
    rw [Ram.contains_write]
    exact second
  have kept : (d.writeEntry index head len r).read (d.usedSlot index) .word = head.toUInt64 := by
    rw [← Ram.read_write (w := .word) first headSmall]
    apply Ram.read_of_sameOutside _ (Ram.sameOutside_write (w := .word) room len.toUInt64)
    · intro i covered
      exact (headWord_apart_lengthWord few index).symm.not_covers covered
    · rw [Ram.contains_write]
      exact first
  have written : (d.writeEntry index head len r).read (d.usedSlot index + 4) .word = len.toUInt64 :=
    Ram.read_write (w := .word) room lenSmall
  rw [readEntry, kept, written]
  simp

end Entry

/-- The effect of a report: the device keeps everything except its index of the used ring, and
memory changes in one entry and in the index of the ring. -/
structure Dma.Reported (s t : Dma) : Prop where
  device : t.device = { s.device with usedIndex := t.device.usedIndex }
  ram : SameOutside (fun i => s.device.usedIndexField.Covers i ∨
    (s.device.usedEntry s.device.usedIndex).Covers i) s.ram.bytes t.ram.bytes

private theorem ends_dmaStore {s : Dma} {addr : UInt64} {w : Width} {value : UInt64}
    {done : Unit → Dma → Prop} {failed : MemFault → Dma → Prop} :
    Ends (Dma.store addr w value) s done failed ↔
      if s.ram.contains addr w.bytes then done () ⟨s.device, s.ram.write addr w value⟩
      else failed (.outOfRange addr) s := by
  unfold Ends Dma.store
  by_cases held : s.ram.contains addr w.bytes
  · rw [if_pos held, if_pos held]
  · rw [if_neg held, if_neg held]

/-- A report that succeeds can be read back; one that fails does not have the entry and the index in
guest memory. -/
private theorem ends_pushUsed (s : Dma) (head : UInt16) (len : UInt32)
    (few : s.device.queueNum ≤ queueNumMax) :
    Ends (pushUsed head len) s
      (fun _ t => s.Reported t ∧ t.device.usedIndex = s.device.usedIndex + 1 ∧
        t.device.readShown t.ram = t.device.usedIndex ∧
        t.device.readEntry t.ram s.device.usedIndex = (head.toUInt32, len))
      (fun _ t => s.Reported t ∧
        ¬ ∀ g ∈ [s.device.usedEntry s.device.usedIndex, s.device.usedIndexField],
          s.ram.contains g.addr g.size) := by
  simp only [pushUsed, ends_bind, ends_get, ends_modify, ends_dmaStore, Ram.contains_write,
    List.forall_mem_cons]
  split
  next first =>
    split
    next second =>
      have entry : SameOutside _ s.ram.bytes (s.device.writeEntry _ head len s.ram).bytes :=
        sameOutside_writeEntry few head len first second
      split
      next third =>
        have room : (s.device.writeEntry s.device.usedIndex head len s.ram).contains
            s.device.usedIndexField.addr 2 := by
          rw [writeEntry, Ram.contains_write, Ram.contains_write]
          exact third
        have small : (s.device.usedIndex + 1).toUInt64.toNat < 2 ^ (8 * Width.half.bytes) := by
          rw [UInt16.toNat_toUInt64]
          exact UInt16.toNat_lt _
        have shown := Ram.sameOutside_write (w := .half) room (s.device.usedIndex + 1).toUInt64
        refine ⟨⟨rfl, ?_⟩, trivial, ?_, ?_⟩
        · exact (entry.mono fun _ covered => .inr covered).trans
            (shown.mono fun _ covered => .inl covered)
        · have kept := Ram.read_write (w := .half) room small
          exact (congrArg UInt64.toUInt16 kept).trans (UInt16.toUInt16_toUInt64 _)
        · have inside : (s.device.writeEntry s.device.usedIndex head len s.ram).contains
              (s.device.usedEntry s.device.usedIndex).addr 8 := by
            rw [writeEntry, Ram.contains_write, Ram.contains_write]
            exact (contains_usedEntry few).2 ⟨first, second⟩
          rw [← readEntry_writeEntry few head len first second]
          exact readEntry_of_sameOutside few inside shown fun i covered =>
            (usedIndexField_apart_usedEntry few s.device.usedIndex).not_covers covered
      next third =>
        exact ⟨⟨rfl, entry.mono fun _ covered => .inr covered⟩, fun held => third held.2.1⟩
    next second =>
      have wrote := sameOutside_writeHead first head.toUInt64
      refine ⟨⟨rfl, wrote.mono fun _ covered => .inr covered⟩, fun held => ?_⟩
      exact second (Ram.contains_of_within (lengthWord_within few _) held.1)
  next first =>
    refine ⟨⟨rfl, .refl _ _⟩, fun held => ?_⟩
    exact first (Ram.contains_of_within (headWord_within _ _) held.1)

/-! ### Rounds -/

theorem add_one_add_ofNat (u : UInt16) (n : Nat) :
    u + 1 + UInt16.ofNat n = u + UInt16.ofNat (n + 1) := by
  rw [UInt16.add_assoc, UInt16.ofNat_add, UInt16.add_comm (UInt16.ofNat n)]
  rfl

namespace Dma

def advance (s : Dma) : Dma :=
  { s with device := { s.device with lastAvail := s.device.lastAvail + 1 } }

/-- A round: the next available request is carried out and reported. The work goes on after it
unless the report fails. -/
def round (s : Dma) : Bool × Dma :=
  match processNext s with
  | .error _ t => (true, t.advance)
  | .ok (head, len) t =>
    match pushUsed head len t with
    | .error _ u => (false, u)
    | .ok _ u => (true, u.advance)

def rounds : Nat → Dma → List Dma
  | 0, _ => []
  | n + 1, s => s :: if s.round.1 then rounds n s.round.2 else []

inductive Round (s : Dma) : Bool → Dma → Prop
  /-- The request is malformed, and is passed over. -/
  | dropped {t : Dma} (malformed : s.completion? = none) (served : s.Served t) :
    Round s true t.advance
  | reported {t u : Dma} {head : UInt16} {len : UInt32} (done : s.completion? = some (head, len))
    (served : s.Served t) (report : t.Reported u)
    (index : u.device.usedIndex = t.device.usedIndex + 1)
    (shown : u.device.readShown u.ram = u.device.usedIndex)
    (entry : u.device.readEntry u.ram t.device.usedIndex = (head.toUInt32, len)) :
    Round s true u.advance
  /-- The request is carried out, but its entry or the index of the ring is not in guest memory. -/
  | unreported {t u : Dma} {done : UInt16 × UInt32} (done : s.completion? = some done)
    (served : s.Served t) (report : t.Reported u)
    (outside : ¬ ∀ g ∈ [t.device.usedEntry t.device.usedIndex, t.device.usedIndexField],
      t.ram.contains g.addr g.size) :
    Round s false u

end Dma

theorem round_spec {s : Dma} (few : s.device.queueNum ≤ queueNumMax) :
    s.Round s.round.1 s.round.2 := by
  have carried := ends_processNext s
  unfold Ends at carried
  cases run : processNext s with
  | error e t =>
    simp only [run] at carried
    simp only [Dma.round, run]
    exact .dropped carried.1 carried.2
  | ok done t =>
    simp only [run] at carried
    obtain ⟨carried, served⟩ := carried
    have stillFew : t.device.queueNum ≤ queueNumMax := by
      rw [served.device]
      exact few
    have report := ends_pushUsed t done.1 done.2 stillFew
    unfold Ends at report
    cases push : pushUsed done.1 done.2 t with
    | error e u =>
      simp only [push] at report
      simp only [Dma.round, run, push]
      exact .unreported carried served report.1 report.2
    | ok _ u =>
      simp only [push] at report
      obtain ⟨report, index, shown, entry⟩ := report
      simp only [Dma.round, run, push]
      exact .reported carried served report index shown entry

theorem processAll_succ (n : Nat) (s : Dma) :
    processAll (n + 1) s = if s.round.1 then processAll n s.round.2 else (false, s.round.2) := by
  cases run : processNext s with
  | error e t =>
    simp only [processAll, Dma.round, run]
    rfl
  | ok done t =>
    cases push : pushUsed done.1 done.2 t with
    | error e u =>
      simp only [processAll, Dma.round, run, push]
      rfl
    | ok _ u =>
      simp only [processAll, Dma.round, run, push]
      rfl

namespace Dma

def SameQueue (s t : Dma) : Prop :=
  t.device = { s.device with
    disk := t.device.disk, lastAvail := t.device.lastAvail, usedIndex := t.device.usedIndex }

theorem SameQueue.refl (s : Dma) : s.SameQueue s := rfl

theorem SameQueue.trans {s t u : Dma} (first : s.SameQueue t) (second : t.SameQueue u) :
    s.SameQueue u := by
  unfold SameQueue at *
  rw [second, first]

theorem Round.sameQueue {s t : Dma} {more : Bool} (round : s.Round more t) : s.SameQueue t := by
  unfold SameQueue
  cases round with
  | dropped malformed served =>
    dsimp only [advance]
    rw [served.device]
  | reported done served report =>
    dsimp only [advance]
    rw [report.device, served.device]
  | unreported done served report =>
    rw [report.device, served.device]

theorem SameQueue.few {s t : Dma} (same : s.SameQueue t) (few : s.device.queueNum ≤ queueNumMax) :
    t.device.queueNum ≤ queueNumMax := by
  rw [same]
  exact few

theorem SameQueue.readEntry {s t : Dma} (same : s.SameQueue t) :
    t.device.readEntry = s.device.readEntry := by
  rw [same]
  rfl

theorem SameQueue.readShown {s t : Dma} (same : s.SameQueue t) :
    t.device.readShown = s.device.readShown := by
  rw [same]
  rfl

theorem SameQueue.queueNum {s t : Dma} (same : s.SameQueue t) :
    t.device.queueNum = s.device.queueNum := by
  rw [same]

def reported (s : Dma) : List Region :=
  if s.completion?.isSome then [s.device.usedIndexField, s.device.usedEntry s.device.usedIndex]
  else []

def touched (s : Dma) : List Region :=
  s.written ++ s.reported

variable {s t : Dma} {more : Bool}

theorem mem_reported {g : Region} : g ∈ s.reported ↔ s.completion?.isSome ∧
    (g = s.device.usedIndexField ∨ g = s.device.usedEntry s.device.usedIndex) := by
  unfold reported
  split
  next done => simp [done]
  next none => simp [none]

theorem Served.ram (served : s.Served t) :
    SameOutside (fun i => ∃ g ∈ s.touched, g.Covers i) s.ram.bytes t.ram.bytes := by
  refine served.kept.ram.mono ?_
  rintro i ⟨g, member, covered⟩
  exact ⟨g, List.mem_append_left _ member, covered⟩

private theorem Reported.ram_of_served {u : Dma} (report : t.Reported u) (served : s.Served t)
    (done : s.completion?.isSome) :
    SameOutside (fun i => ∃ g ∈ s.touched, g.Covers i) s.ram.bytes u.ram.bytes := by
  refine served.ram.trans (report.ram.mono ?_)
  intro i covered
  rw [served.device] at covered
  rcases covered with field | entry
  · exact ⟨_, List.mem_append_right _ (mem_reported.2 ⟨done, .inl rfl⟩), field⟩
  · exact ⟨_, List.mem_append_right _ (mem_reported.2 ⟨done, .inr rfl⟩), entry⟩

theorem Round.ram (round : s.Round more t) :
    SameOutside (fun i => ∃ g ∈ s.touched, g.Covers i) s.ram.bytes t.ram.bytes := by
  cases round with
  | dropped malformed served => exact served.ram
  | reported done served report => exact report.ram_of_served served (by rw [done]; rfl)
  | unreported done served report => exact report.ram_of_served served (by rw [done]; rfl)

theorem Round.disk (round : s.Round more t) :
    SameOutside (fun i => ∃ m ∈ s.moves, m.WritesDisk i) s.device.disk t.device.disk := by
  cases round with
  | dropped malformed served => exact served.kept.disk
  | reported done served report =>
    dsimp only [advance]
    rw [report.device]
    exact served.kept.disk
  | unreported done served report =>
    rw [report.device]
    exact served.kept.disk

/-- What holds in the beginning and is kept by every round that is begun holds in every state in
which a round begins, and in the end. -/
theorem rounds_invariant (holds : Dma → Prop) (n : Nat) (first : holds s)
    (kept : ∀ a ∈ s.rounds n, holds a → holds a.round.2) :
    (∀ a ∈ s.rounds n, holds a) ∧ holds (processAll n s).2 := by
  induction n generalizing s with
  | zero => exact ⟨fun a none => absurd none List.not_mem_nil, first⟩
  | succ n ih =>
    have next := kept s List.mem_cons_self first
    rw [processAll_succ]
    unfold rounds at kept ⊢
    split
    next more =>
      rw [if_pos more] at kept
      obtain ⟨rest, last⟩ := ih next fun a later => kept a (List.mem_cons_of_mem s later)
      exact ⟨List.forall_mem_cons.2 ⟨first, rest⟩, last⟩
    next stopped => exact ⟨List.forall_mem_cons.2 ⟨first, nofun⟩, next⟩

end Dma

section Run

variable {s : Dma} (n : Nat) (few : s.device.queueNum ≤ queueNumMax)
include few

theorem sameQueue_processAll :
    (∀ a ∈ s.rounds n, s.SameQueue a) ∧ s.SameQueue (processAll n s).2 :=
  Dma.rounds_invariant s.SameQueue n (.refl s) fun _ _ same =>
    same.trans (round_spec (same.few few)).sameQueue

private theorem disk_processAll :
    SameOutside (fun i => ∃ a ∈ s.rounds n, ∃ m ∈ a.moves, m.WritesDisk i) s.device.disk
      (processAll n s).2.device.disk := by
  refine (Dma.rounds_invariant (fun t => s.SameQueue t ∧
    SameOutside _ s.device.disk t.device.disk) n ⟨.refl s, .refl _ _⟩ ?_).2.2
  rintro a begun ⟨same, kept⟩
  have round := round_spec (same.few few)
  refine ⟨same.trans round.sameQueue, kept.trans (round.disk.mono ?_)⟩
  intro i written
  exact ⟨a, begun, written⟩

end Run

/-! ### The queue -/

namespace Dma

def availIndex? (s : Dma) : Except MemFault UInt16 :=
  (s.ram.load (s.device.availBase + 2) .half).map UInt64.toUInt16

def pending (s : Dma) : Nat :=
  if s.device.queueNum = 0 ∨ s.device.guestPageSize = 0 then 0
  else
    match s.availIndex? with
    | .ok index => (index - s.device.lastAvail).toNat
    | .error _ => 0

def attempts (s : Dma) : List Dma :=
  s.rounds s.pending

def conclude : Bool × Dma → Dma
  | (true, s) =>
    { s with device := { s.device with interruptStatus := s.device.interruptStatus ||| 1 } }
  | (false, s) => s

end Dma

theorem processQueue_eq (s : Dma) :
    processQueue s = if s.device.queueNum = 0 ∨ s.device.guestPageSize = 0 then s
      else match s.availIndex? with
        | .ok _ => Dma.conclude (processAll s.pending s)
        | .error _ => s := by
  unfold processQueue Dma.pending Dma.availIndex?
  by_cases off : s.device.queueNum = 0 ∨ s.device.guestPageSize = 0
  · rw [if_pos off, if_pos off]
  · rw [if_neg off, if_neg off, if_neg off]
    cases s.ram.load (s.device.availBase + 2) .half with
    | error e => rfl
    | ok index =>
      dsimp only [Except.map]
      rcases processAll (index.toUInt16 - s.device.lastAvail).toNat s with ⟨more, t⟩
      cases more <;> rfl

/-- Without a queue nothing is taken up; with one, the interrupt follows the rounds. -/
theorem processQueue_cases (s : Dma) :
    (s.pending = 0 ∧ processQueue s = s) ∨
      processQueue s = Dma.conclude (processAll s.pending s) := by
  rw [processQueue_eq]
  unfold Dma.pending
  split
  · exact .inl ⟨rfl, rfl⟩
  · cases s.availIndex? with
    | error e => exact .inl ⟨rfl, rfl⟩
    | ok index => exact .inr rfl

section Queue

variable {s : Dma} (few : s.device.queueNum ≤ queueNumMax)
include few

theorem queueNum_processQueue : (processQueue s).device.queueNum = s.device.queueNum := by
  have same := (sameQueue_processAll s.pending few).2
  rcases processQueue_cases s with ⟨-, unchanged⟩ | worked
  · rw [unchanged]
  · rw [worked, ← same.queueNum]
    generalize processAll s.pending s = result
    obtain ⟨more, t⟩ := result
    cases more <;> rfl

theorem disk_processQueue :
    SameOutside (fun i => ∃ a ∈ s.attempts, ∃ m ∈ a.moves, m.WritesDisk i) s.device.disk
      (processQueue s).device.disk := by
  have kept := disk_processAll s.pending few
  rcases processQueue_cases s with ⟨-, unchanged⟩ | worked
  · rw [unchanged]
    exact .refl _ _
  · rw [worked]
    generalize processAll s.pending s = result at kept
    obtain ⟨more, t⟩ := result
    cases more <;> exact kept

end Queue

end RiscvBoard.VirtioBlock
