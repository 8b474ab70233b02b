import RiscvBoard.Proofs.Board.Completions
import RiscvBoard.Proofs.Board.Containment
import RiscvBoard.Proofs.Board.Repetition
import RiscvBoard.Proofs.Board.Verdicts

/-!
The end of the work on the queue. Its two loops are given here without a bound: the rounds go on
until the position in the available ring meets the index that the driver left there, and the walk
along a chain until a descriptor has no successor or the queue has no more places. They end all the
same, and in one way only: every round shortens the distance between two ring indices, whatever it
writes, and the walk counts what it reads, wherever it is led. Nothing on the way divides by zero or
reaches beyond the disk, and a call that gives up before the index has a reason that it can name.
-/

set_option autoImplicit false

namespace RiscvBoard.VirtioBlock

/-! ### Chains -/

/-- The walk along a chain from an index on, after a number of descriptors: the indices that it
reads, and its answer. -/
inductive Walk (d : VirtioBlock) (ram : Ram) :
    Nat → UInt16 → List UInt16 → Except MemFault (List Descriptor) → Prop
  | unreadable {found : Nat} {index : UInt16} {e : MemFault}
    (fails : d.readDescriptor ram index = .error e) : Walk d ram found index [index] (.error e)
  | last {found : Nat} {index : UInt16} {desc : Descriptor}
    (read : d.readDescriptor ram index = .ok desc)
    (ended : ¬ desc.hasNext ∨ d.queueNum.toNat ≤ found + 1) :
    Walk d ram found index [index] (.ok [desc])
  | next {found : Nat} {index : UInt16} {desc : Descriptor} {reads : List UInt16}
    {answer : Except MemFault (List Descriptor)} (read : d.readDescriptor ram index = .ok desc)
    (leads : desc.hasNext) (room : found + 1 < d.queueNum.toNat)
    (later : Walk d ram (found + 1) (desc.next % d.queueNum.toUInt16) reads answer) :
    Walk d ram found index (index :: reads) (answer.map (desc :: ·))

namespace Walk

variable {d : VirtioBlock} {ram : Ram} {found : Nat} {index : UInt16} {reads others : List UInt16}
  {answer other : Except MemFault (List Descriptor)}

private theorem unique (one : Walk d ram found index reads answer)
    (two : Walk d ram found index others other) : others = reads ∧ other = answer := by
  induction one generalizing others other with
  | unreadable fails =>
    cases two with
    | unreadable again =>
      obtain rfl := Except.error.inj (again.symm.trans fails)
      exact ⟨rfl, rfl⟩
    | last read | next read => exact absurd (fails.symm.trans read) nofun
  | last read ended =>
    cases two with
    | unreadable fails => exact absurd (fails.symm.trans read) nofun
    | last again =>
      obtain rfl := Except.ok.inj (again.symm.trans read)
      exact ⟨rfl, rfl⟩
    | next again leads room =>
      obtain rfl := Except.ok.inj (again.symm.trans read)
      rcases ended with ends | full
      · exact absurd leads ends
      · omega
  | next read leads room _ ih =>
    cases two with
    | unreadable fails => exact absurd (fails.symm.trans read) nofun
    | last again ended =>
      obtain rfl := Except.ok.inj (again.symm.trans read)
      rcases ended with ends | full
      · exact absurd leads ends
      · omega
    | next again _ _ later =>
      obtain rfl := Except.ok.inj (again.symm.trans read)
      obtain ⟨rfl, rfl⟩ := ih later
      exact ⟨rfl, rfl⟩

private theorem listed (walk : Walk d ram found index reads answer) (few : d.queueNum ≤ queueNumMax)
    (first : index.toNat < d.queueNum.toNat) : ∀ i ∈ reads, i.toNat < d.queueNum.toNat := by
  induction walk with
  | unreadable | last => exact List.forall_mem_singleton.2 first
  | next _ _ room _ ih =>
    refine List.forall_mem_cons.2 ⟨first, ih ?_⟩
    rw [toNat_place few]
    exact Nat.mod_lt _ (by omega)

end Walk

section Distance

variable {index position : UInt16}

end Distance

namespace Dma

/-- The rounds up to an index of the available ring: the states in which they begin, whether they
come to the index, and the state after them. -/
inductive Loop (index : UInt16) : Dma → List Dma → Bool → Dma → Prop
  | reached {s : Dma} (here : s.device.lastAvail = index) : Loop index s [] true s
  | stopped {s : Dma} (short : s.device.lastAvail ≠ index) (fails : s.round.1 = false) :
    Loop index s [s] false s.round.2
  | again {s t : Dma} {states : List Dma} {all : Bool} (short : s.device.lastAvail ≠ index)
    (goes : s.round.1 = true) (later : Loop index s.round.2 states all t) :
    Loop index s (s :: states) all t

namespace Loop

variable {index : UInt16} {s t u : Dma} {states others : List Dma} {all whole : Bool}

private theorem unique (one : Loop index s states all t) (two : Loop index s others whole u) :
    others = states ∧ whole = all ∧ u = t := by
  induction one generalizing others whole u with
  | reached here =>
    cases two with
    | reached => exact ⟨rfl, rfl, rfl⟩
    | stopped short | again short => exact absurd here short
  | stopped short fails =>
    cases two with
    | reached here => exact absurd here short
    | stopped => exact ⟨rfl, rfl, rfl⟩
    | again _ goes => exact absurd (fails.symm.trans goes) nofun
  | again short goes _ ih =>
    cases two with
    | reached here => exact absurd here short
    | stopped _ fails => exact absurd (fails.symm.trans goes) nofun
    | again _ _ later =>
      obtain ⟨rfl, rfl, rfl⟩ := ih later
      exact ⟨rfl, rfl, rfl⟩

private theorem lastAvail (loop : Loop index s states true t) : t.device.lastAvail = index := by
  generalize reached : true = all at loop
  induction loop with
  | reached here => exact here
  | stopped => exact absurd reached nofun
  | again _ _ _ ih => exact ih reached

private theorem fails (loop : Loop index s states false t) :
    ∃ a ∈ states, a.device.lastAvail ≠ index ∧ a.round.1 = false ∧ t = a.round.2 := by
  generalize stopped : false = all at loop
  induction loop with
  | reached => exact absurd stopped nofun
  | stopped short fails => exact ⟨_, List.mem_singleton_self _, short, fails, rfl⟩
  | again _ _ _ ih =>
    obtain ⟨a, member, last⟩ := ih stopped
    exact ⟨a, List.mem_cons_of_mem _ member, last⟩

end Loop

/-- How `processQueue` goes: the states in which its rounds begin, and the state after it. -/
inductive Works (s : Dma) : List Dma → Dma → Prop
  | unconfigured (off : s.device.queueNum = 0 ∨ s.device.guestPageSize = 0) : Works s [] s
  | unreadable {e : MemFault} (on : ¬ (s.device.queueNum = 0 ∨ s.device.guestPageSize = 0))
    (lost : s.availIndex? = .error e) : Works s [] s
  | looped {index : UInt16} {states : List Dma} {all : Bool} {t : Dma}
    (on : ¬ (s.device.queueNum = 0 ∨ s.device.guestPageSize = 0))
    (available : s.availIndex? = .ok index) (loop : Loop index s states all t) :
    Works s states (conclude (all, t))

private theorem Works.unique {s t u : Dma} {states others : List Dma} (one : s.Works states t)
    (two : s.Works others u) : others = states ∧ u = t := by
  cases one with
  | unconfigured off =>
    cases two with
    | unconfigured => exact ⟨rfl, rfl⟩
    | unreadable on | looped on => exact absurd off on
  | unreadable on lost =>
    cases two with
    | unconfigured off => exact absurd off on
    | unreadable => exact ⟨rfl, rfl⟩
    | looped _ available => exact absurd (lost.symm.trans available) nofun
  | looped on available loop =>
    cases two with
    | unconfigured off => exact absurd off on
    | unreadable _ lost => exact absurd (lost.symm.trans available) nofun
    | looped _ again other =>
      obtain rfl := Except.ok.inj (again.symm.trans available)
      obtain ⟨rfl, rfl, rfl⟩ := loop.unique other
      exact ⟨rfl, rfl⟩

end Dma

/-- The moves of a request that are begun: those that are made, and one with a buffer outside of
guest memory. -/
def begun : Option RequestKind → List Descriptor → UInt64 → Storage → List Move
  | some kind, desc :: rest, position, s =>
    if position.toNat + desc.len.toNat ≤ s.disk.size ∧ kind.matches desc then
      ⟨kind, position, desc⟩ ::
        match transfer kind position desc s with
        | .ok _ t => begun (some kind) rest (position + desc.len.toUInt64) t
        | .error _ _ => []
    else []
  | _, _, _, _ => []

private theorem begun_inside {kind : Option RequestKind} {data : List Descriptor}
    {position : UInt64} {s : Storage} : ∀ m ∈ begun kind data position s,
      m.position.toNat + m.desc.len.toNat ≤ s.disk.size := by
  induction data generalizing position s with
  | nil => cases kind <;> exact nofun
  | cons desc rest ih =>
    cases kind with
    | none => exact nofun
    | some kind =>
      rw [begun]
      split
      next valid =>
        refine List.forall_mem_cons.2 ⟨valid.1, ?_⟩
        split
        next t moved =>
          rw [← transfer_disk_size valid.1 moved]
          exact ih
        next => exact nofun
      next => exact nofun

private theorem length_of_read? {ram : Ram} {chain : List Descriptor} {q : Request}
    (found : Request.read? ram chain = some q) : chain.length = q.data.length + 2 := by
  obtain ⟨header, second, rest, code, sector, rfl, -, -, rfl⟩ := Request.read?_eq_some.1 found
  simp only [List.length_cons, List.length_dropLast]
  omega

namespace Dma

/-- What a round divides by is not zero, and what it takes out of a chain, of the disk and of guest
memory is there. -/
structure Defined (s : Dma) : Prop where
  /-- The divisor of positions in the rings and of indices of descriptors. -/
  places : s.device.queueNum.toUInt16 ≠ 0
  /-- The divisor of the end of the available ring. -/
  alignment : max s.device.queueAlign.toUInt64 1 ≠ 0
  /-- There is a header before the data buffers, and a status byte after them. -/
  data : ∀ chain q, Request.read? s.ram chain = some q → chain.length = q.data.length + 2
  disk : ∀ q, s.request? = some q →
    ∀ m ∈ begun q.kind q.data (sectorPosition q.sector) s.storage,
      m.position.toNat + m.desc.len.toNat ≤ s.device.disk.size
  memory : Inside s.ram s.roundAddressed

private theorem defined {s : Dma} (few : s.device.queueNum ≤ queueNumMax)
    (configured : s.device.queueNum ≠ 0) (fits : s.device.disk.size < UInt64.size) :
    s.Defined := by
  constructor
  · intro none
    have bound := toNat_queueNum_le few
    have zero := congrArg UInt16.toNat none
    rw [UInt32.toNat_toUInt16, Nat.mod_eq_of_lt (by omega)] at zero
    exact configured (UInt32.toNat_inj.1 zero)
  · intro none
    have zero := congrArg UInt64.toNat none
    rw [toNat_alignment] at zero
    exact absurd zero (by simp)
  · exact fun _ _ => length_of_read?
  · exact fun _ _ => begun_inside
  · exact inside_roundAddressed fits

/-! ### The end of the work -/

inductive Outcome (s : Dma) (states : List Dma) : Dma → Prop
  | unconfigured (off : s.device.queueNum = 0 ∨ s.device.guestPageSize = 0) : Outcome s states s
  | unreadable {e : MemFault} (lost : s.availIndex? = .error e) : Outcome s states s
  | caughtUp {index : UInt16} {t : Dma} (available : s.availIndex? = .ok index)
    (position : t.device.lastAvail = index) (raised : t.device.interrupting) : Outcome s states t
  /-- The entry for a request that has been carried out is not in guest memory. -/
  | unreported {index : UInt16} {a : Dma} (available : s.availIndex? = .ok index)
    (begun : a ∈ states) (done : a.completion?.isSome)
    (outside : ¬ a.ram.contains (a.device.usedEntry a.device.usedIndex).addr
      (a.device.usedEntry a.device.usedIndex).size)
    (short : a.round.2.device.lastAvail ≠ index) : Outcome s states a.round.2

private theorem Round.done {s t : Dma} (round : s.Round false t) : s.completion?.isSome := by
  cases round with
  | unreported done =>
    rw [done]
    rfl

end Dma

private theorem contains_usedIndexField {d : VirtioBlock} (few : d.queueNum ≤ queueNumMax)
    {ram : Ram} {index : UInt16} (before : ram.contains (d.availBase + 2) 2)
    (after : ram.contains (d.usedEntry index).addr (d.usedEntry index).size) :
    ram.contains d.usedIndexField.addr d.usedIndexField.size := by
  have avail := availIndex_within few
  have last := toNat_availEnd few
  have used := (usedBase_bounds few).1
  have field := toNat_usedIndexField few
  have slot := toNat_usedSlot few index
  rw [Ram.contains_iff_toNat] at *
  unfold Region.Within availRing at avail
  dsimp only [usedEntry, usedIndexField] at *
  omega

namespace Dma

private theorem Works.outcome {s t : Dma} {states : List Dma} (works : s.Works states t)
    (few : s.device.queueNum ≤ queueNumMax)
    (kept : ∀ a ∈ states, s.SameQueue a ∧ a.ram.size = s.ram.size) : s.Outcome states t := by
  cases works with
  | unconfigured off => exact .unconfigured off
  | unreadable _ lost => exact .unreadable lost
  | @looped index _ all t _ available loop =>
    cases all with
    | true => exact .caughtUp available loop.lastAvail (interrupting_or t.device)
    | false =>
      obtain ⟨a, begun, short, fails, rfl⟩ := loop.fails
      obtain ⟨same, size⟩ := kept a begun
      have round := round_spec (same.few few)
      rw [fails] at round
      have stays : a.round.2.device.lastAvail = a.device.lastAvail := round.lastAvail
      refine .unreported available begun round.done ?_ (stays ▸ short)
      intro entry
      have read : s.ram.contains (s.device.availBase + 2) 2 := by
        unfold availIndex? at available
        cases loaded : s.ram.load (s.device.availBase + 2) .half with
        | error e =>
          rw [loaded] at available
          exact absurd available nofun
        | ok value => exact Ram.contains_of_load loaded
      have before : a.ram.contains (a.device.availBase + 2) 2 := by
        rw [same, Ram.contains_of_size size]
        exact read
      have field := contains_usedIndexField (same.few few) before entry
      exact round.lost (List.forall_mem_cons.2 ⟨entry, List.forall_mem_singleton.2 field⟩)

end Dma

end RiscvBoard.VirtioBlock
