import RiscvBoard.Proofs.Board.BlockDevice

/-!
Which requests the device takes up over any sequence of register writes and clock ticks. The
position in the available ring goes on after every request, except one whose report fails: that
request has been carried out, and is carried out again after the next notification.
-/

set_option autoImplicit false

namespace RiscvBoard.VirtioBlock

namespace Dma

/-! ### Runs -/

def tickAttempts (s : Dma) : List Dma :=
  match s.due? with
  | some t => t.attempts
  | none => []

/-- A run of register writes that do not reset the device, ticks, and changes of guest memory by the
guest, with the states in which the device takes up a request. -/
inductive Runs : Dma → List Dma → Dma → Prop
  | done (s : Dma) : Runs s [] s
  | store {s t : Dma} {attempts : List Dma} (offset : UInt64) (w : Width) (value : UInt64)
    (keeps : ¬ s.device.Resets offset w value)
    (rest : Runs { s with device := s.device.store offset w value } attempts t) :
    Runs s attempts t
  | guest {s t : Dma} {attempts : List Dma} (ram : Ram)
    (rest : Runs { s with ram := ram } attempts t) : Runs s attempts t
  | tick {s t : Dma} {attempts : List Dma} (rest : Runs (tick s) attempts t) :
    Runs s (s.tickAttempts ++ attempts) t

/-! ### The position in the available ring -/

/-- The entry for the report of the next request and the index of the used ring are in guest
memory. -/
def CanReport (s : Dma) : Prop :=
  ∀ g ∈ [s.device.usedEntry s.device.usedIndex, s.device.usedIndexField],
    s.ram.contains g.addr g.size

/-- Requests are taken up from one position in the available ring to another: each moves the
position on, unless its report fails. -/
inductive TakesUp : UInt16 → List Dma → UInt16 → Prop
  | none (position : UInt16) : TakesUp position [] position
  | next {position last : UInt16} {a : Dma} {rest : List Dma}
    (here : a.device.lastAvail = position) (goes : a.round.1 = true)
    (later : TakesUp (position + 1) rest last) : TakesUp position (a :: rest) last
  | again {position last : UInt16} {a : Dma} {rest : List Dma}
    (here : a.device.lastAvail = position) (fails : a.round.1 = false) (lost : ¬ a.CanReport)
    (later : TakesUp position rest last) : TakesUp position (a :: rest) last

namespace TakesUp

variable {first second third : UInt16} {as bs : List Dma}

private theorem append (start : TakesUp first as second) (rest : TakesUp second bs third) :
    TakesUp first (as ++ bs) third := by
  induction start with
  | none position => exact rest
  | next here goes _ ih => exact .next here goes (ih rest)
  | again here fails lost _ ih => exact .again here fails lost (ih rest)

private theorem of_append (whole : TakesUp first (as ++ bs) third) :
    ∃ second, TakesUp first as second ∧ TakesUp second bs third := by
  induction as generalizing first with
  | nil => exact ⟨first, .none first, whole⟩
  | cons a rest ih =>
    cases whole with
    | next here goes later =>
      obtain ⟨second, start, tail⟩ := ih later
      exact ⟨second, .next here goes start, tail⟩
    | again here fails lost later =>
      obtain ⟨second, start, tail⟩ := ih later
      exact ⟨second, .again here fails lost start, tail⟩

private theorem head {a : Dma} (taken : TakesUp first (a :: as) second) :
    a.device.lastAvail = first := by
  cases taken with
  | next here => exact here
  | again here => exact here

private theorem lost (taken : TakesUp first as second) :
    ∀ a ∈ as, a.round.1 = false → ¬ a.CanReport := by
  induction taken with
  | none => exact nofun
  | next here goes _ ih =>
    exact List.forall_mem_cons.2 ⟨fun fails => absurd (goes.symm.trans fails) nofun, ih⟩
  | again here fails lost _ ih => exact List.forall_mem_cons.2 ⟨fun _ => lost, ih⟩

private theorem position (taken : TakesUp first as second) :
    second = first + UInt16.ofNat (as.countP fun a => a.round.1) := by
  induction taken with
  | none => exact (UInt16.add_zero _).symm
  | next here goes _ ih =>
    rw [ih, List.countP_cons_of_pos (p := fun a : Dma => a.round.1) goes, add_one_add_ofNat]
  | again here fails lost _ ih =>
    rw [ih, List.countP_cons_of_neg (p := fun a : Dma => a.round.1) (by simp [fails])]

end TakesUp

private theorem tickAttempts_eq {s t : Dma} (due : s.due? = some t) (one : t.pending = 1) :
    s.tickAttempts = [t] := by
  have single : t.rounds 1 = [t] := by
    rw [rounds]
    split <;> rfl
  rw [tickAttempts, due, ← single, ← one]
  rfl

theorem Round.lastAvail {s t : Dma} {more : Bool} (round : s.Round more t) :
    t.device.lastAvail = if more then s.device.lastAvail + 1 else s.device.lastAvail := by
  cases round with
  | dropped malformed served =>
    dsimp only [advance]
    rw [served.device, if_pos rfl]
  | reported done served report =>
    dsimp only [advance]
    rw [report.device, served.device, if_pos rfl]
  | unreported done served report =>
    rw [report.device, served.device]
    rfl

theorem Round.lost {s t : Dma} (round : s.Round false t) : ¬ s.CanReport := by
  cases round with
  | unreported done served report outside =>
    have size : _ = s.ram.size := served.ram.size
    simp only [List.forall_mem_cons, Ram.contains_of_size size] at outside
    rw [served.device] at outside
    simp only [CanReport, List.forall_mem_cons]
    exact outside

private theorem takesUp_rounds (n : Nat) {s : Dma} (few : s.device.queueNum ≤ queueNumMax) :
    TakesUp s.device.lastAvail (s.rounds n) (processAll n s).2.device.lastAvail := by
  induction n generalizing s with
  | zero => exact .none _
  | succ n ih =>
    have round := round_spec few
    have position := round.lastAvail
    rw [processAll_succ, rounds]
    cases goes : s.round.1 with
    | true =>
      have later := ih (round.sameQueue.few few)
      rw [position, goes] at later
      exact .next rfl goes later
    | false =>
      rw [goes] at round position
      have last : s.round.2.device.lastAvail = s.device.lastAvail := position
      rw [if_neg Bool.false_ne_true, if_neg Bool.false_ne_true, last]
      exact .again rfl goes round.lost (.none _)

private theorem takesUp_attempts {s : Dma} (few : s.device.queueNum ≤ queueNumMax) :
    TakesUp s.device.lastAvail s.attempts (processQueue s).device.lastAvail := by
  have taken := takesUp_rounds s.pending few
  rcases processQueue_cases s with ⟨none, same⟩ | worked
  · rw [same, attempts, none]
    exact .none _
  · rw [worked]
    generalize processAll s.pending s = result at taken
    obtain ⟨more, t⟩ := result
    cases more <;> exact taken

private theorem takesUp_tickAttempts {s : Dma} (few : s.device.queueNum ≤ queueNumMax) :
    TakesUp s.device.lastAvail s.tickAttempts (tick s).device.lastAvail := by
  rw [tick_eq, tickAttempts]
  cases due : s.due? with
  | none => exact .none _
  | some t =>
    obtain ⟨rest, same⟩ := due?_eq_some due
    have position : t.device.lastAvail = s.device.lastAvail := by rw [same]
    rw [← position]
    exact takesUp_attempts (by rw [same]; exact few)

private theorem Runs.takesUp {s t : Dma} {attempts : List Dma} (run : s.Runs attempts t)
    (few : s.device.queueNum ≤ queueNumMax) :
    TakesUp s.device.lastAvail attempts t.device.lastAvail := by
  induction run with
  | done s => exact .none _
  | store offset w value keeps _ ih =>
    have later := ih (queueNum_store_le few offset w value)
    dsimp only at later
    rw [lastAvail_store keeps] at later
    exact later
  | guest ram _ ih => exact ih few
  | @tick s t attempts _ ih =>
    have later := ih (by rw [queueNum_tick few]; exact few)
    exact (takesUp_tickAttempts few).append later

end Dma

/-- Between two states in which the device takes up a request, the position in the available ring
moves on once for every request whose report does not fail; and a report fails only when its entry
or the index of the used ring is not in guest memory. -/
theorem lastAvail_between {s t a b : Dma} {before between after : List Dma}
    (run : s.Runs (before ++ a :: between ++ b :: after) t)
    (few : s.device.queueNum ≤ queueNumMax) :
    b.device.lastAvail =
        a.device.lastAvail + UInt16.ofNat ((a :: between).countP fun c => c.round.1) ∧
      ∀ c ∈ a :: between, c.round.1 = false → ¬ c.CanReport := by
  obtain ⟨second, start, last⟩ := (run.takesUp few).of_append
  obtain ⟨first, -, middle⟩ := start.of_append
  refine ⟨?_, middle.lost⟩
  rw [last.head, middle.head, middle.position]

/-- Memory that ends before the used ring, with a request to write one byte to the disk. Behind the
descriptors lie the available ring, with the index 1, and the header, the byte and the status byte.
-/
def shortMemory (byte : UInt8) : Ram :=
  ⟨⟨#[
    0x4c, 0, 0, 0x80, 0, 0, 0, 0, 16, 0, 0, 0, 1, 0, 1, 0,
    0x5c, 0, 0, 0x80, 0, 0, 0, 0, 1, 0, 0, 0, 1, 0, 2, 0,
    0x5d, 0, 0, 0x80, 0, 0, 0, 0, 1, 0, 0, 0, 2, 0, 0, 0,
    0, 0, 0, 0, 0, 0, 0, 0, 0, 0, 0, 0, 0, 0, 0, 0,
    0, 0, 1, 0, 0, 0, 0, 0, 0, 0, 0, 0,
    1, 0, 0, 0, 0, 0, 0, 0, 0, 0, 0, 0, 0, 0, 0, 0, byte, 0xff]⟩⟩

def notifiedTwice : Dma where
  device := { ofDisk ⟨#[0]⟩ with
    clock := 499, guestPageSize := 1, queueNum := 4, queuePage := 0x80000000
    notifications := [0, 0] }
  ram := shortMemory 7

/-- One request is carried out twice, with an effect on the disk each time. -/
theorem lastAvail_between_repeats :
    ∃ attempts t, notifiedTwice.Runs attempts t ∧
      attempts.map (fun a => a.device.lastAvail) = [0, 0] ∧
      attempts.map Dma.completion? = [some (0, 1), some (0, 1)] ∧
      attempts.map (fun a => a.device.disk.data) = [#[0], #[7]] ∧ t.device.disk.data = #[9] := by
  refine ⟨_, _, .tick (.guest (shortMemory 9) (.tick (.done _))), ?_, ?_, ?_, ?_⟩
  · decide +kernel
  · decide +kernel
  · decide +kernel
  · decide +kernel

theorem lastAvail_between_notifiedTwice :
    ∃ a b t, notifiedTwice.Runs [a, b] t ∧
      b.device.lastAvail =
        a.device.lastAvail + UInt16.ofNat ([a].countP fun c => c.round.1) ∧
      ∀ c ∈ [a], c.round.1 = false → ¬ c.CanReport := by
  let between : Dma := ⟨(tick notifiedTwice).device, shortMemory 9⟩
  obtain ⟨a, dueFirst, oneFirst⟩ : ∃ a, notifiedTwice.due? = some a ∧ a.pending = 1 :=
    ⟨_, rfl, by decide +kernel⟩
  obtain ⟨b, dueSecond, oneSecond⟩ : ∃ b, between.due? = some b ∧ b.pending = 1 :=
    ⟨between.due?.get (by decide +kernel), (Option.some_get _).symm, by decide +kernel⟩
  have run : notifiedTwice.Runs ([] ++ a :: [] ++ b :: []) (tick between) := by
    have first := Dma.tickAttempts_eq dueFirst oneFirst
    have second := Dma.tickAttempts_eq dueSecond oneSecond
    have rest : between.Runs ([b] ++ []) (tick between) := second ▸ .tick (.done _)
    have whole : notifiedTwice.Runs ([a] ++ ([b] ++ [])) (tick between) :=
      first ▸ .tick (.guest (shortMemory 9) rest)
    exact whole
  exact ⟨a, b, tick between, run, lastAvail_between run (by decide)⟩

end RiscvBoard.VirtioBlock
