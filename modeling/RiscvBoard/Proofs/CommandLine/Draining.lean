import RiscvBoard.CommandLine.Console
import RiscvBoard.Proofs.Bytes
import RiscvBoard.Proofs.Elf.Loading
import RiscvBoard.Proofs.Machine.Transmission

/-!
What a run prints of the bytes that the guest transmits. After each burst the console prints the
waiting bytes up to the first zero, which it takes for the end of the queue. What lies behind the
zero waits for the next burst, and is never printed if there is none.
-/

set_option autoImplicit false

namespace RiscvBoard.CommandLine

/-! ### Queues -/

/-- What is printed of a queue over bursts that each add bytes to it. -/
def drained (queue : List UInt8) : List (List UInt8) → List UInt8
  | [] => []
  | burst :: rest =>
    (queue ++ burst).takeWhile (· != 0) ++ drained ((queue ++ burst).dropWhile (· != 0)).tail rest

/-- What is left of a queue after bursts that each add bytes to it. -/
def left (queue : List UInt8) : List (List UInt8) → List UInt8
  | [] => queue
  | burst :: rest => left ((queue ++ burst).dropWhile (· != 0)).tail rest

private theorem queue_cases (queue : List UInt8) :
    ∃ text after, 0 ∉ text ∧ queue.takeWhile (· != 0) = text ∧
      (queue.dropWhile (· != 0)).tail = after ∧
      (queue = text ∧ after = [] ∨ queue = text ++ 0 :: after) := by
  by_cases found : 0 ∈ queue
  · obtain ⟨text, after, rfl, free⟩ := List.eq_append_cons_of_mem found
    refine ⟨text, after, free, ?_, ?_, .inr rfl⟩
    · exact takeWhile_terminated free after
    · rw [dropWhile_nonzero free]
      rfl
  · refine ⟨queue, [], found, ?_, ?_, .inl ⟨rfl, rfl⟩⟩
    · simpa using takeWhile_nonzero found []
    · simpa using congrArg List.tail (dropWhile_nonzero found [])

/-- What is printed are the bytes other than zero of all but what is left. If anything is left, a
zero stands before it. -/
private theorem drained_eq_filter (queue : List UInt8) (bursts : List (List UInt8)) :
    ∃ kept, queue ++ bursts.flatten = kept ++ left queue bursts ∧
      drained queue bursts = kept.filter (· != 0) ∧
      (bursts ≠ [] → left queue bursts ≠ [] → kept.getLast? = some 0) := by
  induction bursts generalizing queue with
  | nil => exact ⟨[], List.append_nil _, rfl, fun some => absurd rfl some⟩
  | cons burst rest ih =>
    obtain ⟨text, after, free, taken, gone, cases⟩ := queue_cases (queue ++ burst)
    obtain ⟨kept, split, printed, last⟩ := ih after
    rw [drained, left, taken, gone, printed, List.flatten_cons, ← List.append_assoc]
    rcases cases with ⟨whole, rfl⟩ | cut
    · refine ⟨text ++ kept, ?_, ?_, fun _ some => ?_⟩
      · rw [whole, List.append_assoc, ← split, List.nil_append]
      · rw [List.filter_append, filter_nonzero free]
      · have more : rest ≠ [] := by
          rintro rfl
          exact some rfl
        rw [List.getLast?_append, last more some, Option.some_or]
    · refine ⟨text ++ 0 :: kept, ?_, ?_, fun _ some => ?_⟩
      · rw [cut, List.append_assoc, List.cons_append, split, List.append_assoc, List.cons_append]
      · rw [List.filter_append, filter_nonzero free, List.filter_cons_of_neg (by decide)]
      · by_cases more : rest = []
        · -- Without a further burst the cut was the last one.
          subst more
          obtain rfl : kept = [] := by simpa [left] using split
          exact List.getLast?_concat
        · rw [List.getLast?_append, List.getLast?_cons, last more some]
          rfl

private theorem left_eq_nil {bursts : List (List UInt8)}
    (closed : ∀ burst ∈ bursts, 0 ∉ burst.dropLast) : left [] bursts = [] := by
  induction bursts with
  | nil => rfl
  | cons burst rest ih =>
    obtain ⟨here, later⟩ := List.forall_mem_cons.1 closed
    have gone : (burst.dropWhile (· != 0)).tail = [] := by
      rcases List.eq_nil_or_concat burst with rfl | ⟨front, byte, rfl⟩
      · rfl
      · rw [List.concat_eq_append, List.dropLast_concat] at here
        rw [List.concat_eq_append, dropWhile_nonzero here]
        by_cases zero : byte = 0 <;> simp [zero]
    rw [left, List.nil_append, gone]
    exact ih later

/-! ### Sessions -/

namespace Console

def queue (c : Console) : List UInt8 :=
  c.simulator.machine.bus.uart.output.toList

def transmits? (c : Console) : Option (List UInt8) :=
  if c.budget = 0 then none else some (c.simulator.machine.transmitsIn c.budget)

private theorem takeOutput_queue (m : Machine) :
    (takeOutput m).1 = m.bus.uart.output.toList.takeWhile (· != 0) ∧
      (takeOutput m).2.bus.uart.output.toList =
        (m.bus.uart.output.toList.dropWhile (· != 0)).tail :=
  ⟨rfl, List.append_nil _⟩

private theorem burst_of_spent {c : Console} (spent : c.budget = 0) :
    c.burst = .ended [] c.limitReached :=
  if_pos spent

end Console

/-- A burst prints a queue up to the first zero, and takes away what it prints and that zero. -/
def Burst.Prints (queue : List UInt8) : Burst → Prop
  | .more output next =>
    output = queue.takeWhile (· != 0) ∧ next.queue = (queue.dropWhile (· != 0)).tail
  | .ended output _ => output = queue.takeWhile (· != 0)

namespace Console

private theorem burst_prints {c : Console} (runs : c.budget ≠ 0) :
    c.burst.Prints (c.queue ++ c.simulator.machine.transmitsIn c.budget) := by
  have sends := Machine.run_sends c.budget c.simulator.machine
  cases ran : Machine.run c.budget c.simulator.machine with
  | error f m =>
    have waits := sends.of_error ran
    have ends : c.burst = .ended (takeOutput m).1 (fatal (takeOutput m).2 f) := by
      rw [burst, if_neg runs, ran]
    rw [ends, queue, ← waits]
    rfl
  | ok stop m =>
    have waits := sends.of_ok ran
    have prints := takeOutput_queue m
    rw [waits] at prints
    cases stop with
    | some reason =>
      have ends : c.burst = .ended (takeOutput m).1 (halted c.testMode reason) := by
        rw [burst, if_neg runs, ran]
      rw [ends]
      exact prints.1
    | none =>
      have goes : c.burst = .more (takeOutput m).1
          ⟨⟨(takeOutput m).2, c.simulator.symbols⟩, c.testMode, c.limit,
            c.executed + c.budget⟩ := by
        rw [burst, if_neg runs, ran]
      rw [goes]
      exact prints

private theorem pushInput_queue (c : Console) (bytes : List UInt8) :
    (c.pushInput bytes).queue = c.queue := by
  have kept (u : Uart) : (bytes.foldl Uart.pushInput u).output = u.output := by
    induction bytes generalizing u with
    | nil => rfl
    | cons byte rest ih => exact ih (u.pushInput byte)
  exact congrArg Fifo.toList (kept _)

end Console

/-- A run from a console on. Before each burst any bytes may come in from the standard input. The
run is told by what the guest transmits in each burst, what is printed, and how the run ends. -/
inductive Session : Console → List (List UInt8) → List UInt8 → Ending → Prop where
  | ended {c : Console} {bytes output : List UInt8} {e : Ending}
    (last : (c.pushInput bytes).burst = .ended output e) :
    Session c (c.pushInput bytes).transmits?.toList output e
  | more {c next : Console} {bytes output rest : List UInt8} {bursts : List (List UInt8)}
    {e : Ending} (first : (c.pushInput bytes).burst = .more output next)
    (later : Session next bursts rest e) :
    Session c ((c.pushInput bytes).transmits?.toList ++ bursts) (output ++ rest) e

private theorem Session.output_eq {c : Console} {bursts : List (List UInt8)} {output : List UInt8}
    {e : Ending} (session : Session c bursts output e) : output = drained c.queue bursts := by
  induction session with
  | @ended c bytes output e last =>
    rw [← c.pushInput_queue bytes]
    generalize c.pushInput bytes = c at last
    by_cases spent : c.budget = 0
    · rw [Console.burst_of_spent spent] at last
      rw [Console.transmits?, if_pos spent]
      cases last
      rfl
    · have prints := Console.burst_prints spent
      rw [last] at prints
      rw [Console.transmits?, if_neg spent]
      exact prints.trans (List.append_nil _).symm
  | @more c next bytes output rest bursts e first later ih =>
    rw [← c.pushInput_queue bytes]
    generalize c.pushInput bytes = c at first
    by_cases spent : c.budget = 0
    · rw [Console.burst_of_spent spent] at first
      cases first
    · have prints := Console.burst_prints spent
      rw [first] at prints
      rw [Console.transmits?, if_neg spent, prints.1, ih, prints.2]
      rfl

private theorem boot_uart {reader : Elf.Reader} {settings : Settings} {image : ByteArray}
    {s : Simulator}
    (booted : Simulator.boot reader settings image = .ok s) : s.machine.bus.uart = .reset := by
  simp only [Simulator.boot, bind, Except.bind] at booted
  split at booted
  · contradiction
  split at booted
  · contradiction
  split at booted
  · contradiction
  cases booted
  rfl

private theorem attachDeviceTree_uart {s s' : Simulator} {blob : ByteArray}
    (attached : s.attachDeviceTree blob = .ok s') :
    s'.machine.bus.uart = s.machine.bus.uart := by
  simp only [Simulator.attachDeviceTree, bind, Except.bind] at attached
  split at attached
  · contradiction
  cases attached
  rfl

section Bind

variable {ε α β : Type} {x : ExceptT ε Id α} {f : α → ExceptT ε Id β}

private theorem run_bind : (x >>= f).run = match x.run with
    | .ok a => (f a).run
    | .error e => .error e := rfl

private theorem run_bind_of_ok {a : α} (ran : x.run = .ok a) : (x >>= f).run = (f a).run := by
  rw [run_bind, ran]

private theorem run_bind_eq_ok {b : β} (ran : (x >>= f).run = .ok b) :
    ∃ a, x.run = .ok a ∧ (f a).run = .ok b := by
  rw [run_bind] at ran
  split at ran
  · next a first => exact ⟨a, first, ran⟩
  · cases ran

end Bind

private theorem ofLoad_eq_ok {α : Type} {context : String} {result : Except LoadError α} {a : α}
    (ran : (ofLoad (m := Id) context result).run = .ok a) : result = .ok a := by
  cases result with
  | ok b =>
    cases ran
    rfl
  | error e => cases ran

private theorem start_queue {reader : Elf.Reader} {read : String → Except String ByteArray}
    {a : Arguments} {c : Console}
    (started : (Console.start (m := Id) reader read a).run = .ok c) : c.queue = [] := by
  unfold Console.start at started
  split at started
  · cases started
  obtain ⟨image, -, started⟩ := run_bind_eq_ok started
  obtain ⟨s, booted, started⟩ := run_bind_eq_ok started
  have fresh := boot_uart (ofLoad_eq_ok booted)
  extract_lets finish install at started
  have finished (s : Simulator) (fresh : s.machine.bus.uart = .reset)
      (started : (finish () s).run = .ok c) : c.queue = [] := by
    cases started
    rw [Console.queue, fresh]
    rfl
  have installed (s : Simulator) (fresh : s.machine.bus.uart = .reset)
      (started : (install () s).run = .ok c) : c.queue = [] := by
    dsimp only [install] at started
    split at started
    · obtain ⟨blob, -, started⟩ := run_bind_eq_ok started
      obtain ⟨s₁, attached, started⟩ := run_bind_eq_ok started
      exact finished s₁ ((attachDeviceTree_uart (ofLoad_eq_ok attached)).trans fresh) started
    · exact finished s fresh started
  split at started
  · obtain ⟨disk, -, started⟩ := run_bind_eq_ok started
    exact installed (s.attachDisk disk) fresh started
  · exact installed s fresh started

/-- A run prints the bytes other than zero that the guest transmits, in order, up to some point. The
bytes behind it are those that are left in the queue, and if there are any, the last byte before
them is a zero. None are left if no burst transmits a zero before its last byte. -/
theorem session_output {reader : Elf.Reader} {read : String → Except String ByteArray}
    {a : Arguments} {c : Console}
    (started : (Console.start (m := Id) reader read a).run = .ok c) {bursts : List (List UInt8)}
    {output : List UInt8} {e : Ending} (session : Session c bursts output e) :
    (∃ kept, bursts.flatten = kept ++ left [] bursts ∧ output = kept.filter (· != 0) ∧
      (left [] bursts ≠ [] → kept.getLast? = some 0)) ∧
    ((∀ burst ∈ bursts, 0 ∉ burst.dropLast) → output = bursts.flatten.filter (· != 0)) := by
  have drains := session.output_eq
  rw [start_queue started] at drains
  obtain ⟨kept, split, printed, last⟩ := drained_eq_filter [] bursts
  rw [List.nil_append] at split
  refine ⟨⟨kept, split, drains.trans printed, fun some => ?_⟩, fun closed => ?_⟩
  · refine last (fun none => ?_) some
    rw [none] at some
    exact some rfl
  · rw [left_eq_nil closed, List.append_nil] at split
    rw [drains, printed, split]

/-! ### A zero between two letters -/

private theorem boot_eq_ok {reader : Elf.Reader} {settings : Settings} {image : ByteArray}
    {xlen : Xlen} {loaded : LoadedImage} {ram : Ram}
    (width : Simulator.chooseXlen reader settings image = .ok xlen)
    (loads : Simulator.loadImage reader image (Ram.zeros settings.ramSize) = .ok loaded ram)
    (fits : Simulator.checkDeviceTree (settings.deviceTree xlen) = .ok ()) :
    Simulator.boot reader settings image = .ok (.ofLoaded settings xlen loaded ram) := by
  simp only [Simulator.boot, width, bind, Except.bind, loads, fits]
  rfl

private theorem loadImage_of_room (reader : Elf.Reader) {image : ByteArray} {ram : Ram}
    (flat : Elf.hasMagic image = false) (room : ¬ image.size > ram.size) :
    Simulator.loadImage reader image ram =
      .ok ⟨Ram.base, ∅, none⟩ (ram.blit Ram.base image) := by
  rw [Simulator.loadImage, flat, if_neg Bool.false_ne_true]
  simp only [bind, EStateM.bind, loadFlat, if_neg room]
  rfl

private theorem checkDeviceTree_of_small {blob : ByteArray}
    (small : ¬ blob.size > Device.deviceTree.windowSize.toNat) :
    Simulator.checkDeviceTree blob = .ok () :=
  if_neg small

/-- A program that transmits a letter, a zero and the letter again, and then has no instruction. -/
def zeroBetween : ByteArray := ⟨#[
  0xb7, 0, 0, 0x10, 0x13, 0x01, 0x10, 0x04,
  0x23, 0x80, 0x20, 0, 0x23, 0x80, 0, 0, 0x23, 0x80, 0x20, 0, 0, 0]⟩

def zeroFiles (_ : String) : Except String ByteArray :=
  .ok zeroBetween

def zeroArguments : Arguments :=
  { Arguments.none with image := some "image.bin", ramMib := some 1 }

def zeroMemory (behind : List UInt8) : Ram :=
  ⟨⟨(zeroBetween.data.toList ++ behind).toArray⟩⟩

private theorem exists_zeroMemory : ∃ behind,
    (Ram.zeros (Settings.mebibytes 1)).blit Ram.base zeroBetween = zeroMemory behind := by
  refine ⟨((Ram.zeros (Settings.mebibytes 1)).bytes.data.extract 22).toList, ?_⟩
  have first : Ram.offset Ram.base = 0 := rfl
  have size : zeroBetween.size = 22 := rfl
  have whole : zeroBetween.data.extract 0 (0 + 22) = zeroBetween.data := rfl
  rw [Ram.blit, zeroMemory, ByteArray.copySlice, first, size, whole]
  simp [size]

/-- The bytes behind the program. No instruction reads them, and they are too many to be written
down. -/
noncomputable def zeroBehind : List UInt8 :=
  exists_zeroMemory.choose

private theorem size_zeros (n : Nat) : (Ram.zeros n).size = n := by
  rw [Ram.size, Ram.zeros, ← ByteArray.size_data, Ram.data_zeroBytes, Array.size_replicate]

private theorem loadImage_zeroBetween (reader : Elf.Reader) :
    Simulator.loadImage reader zeroBetween (Ram.zeros (Settings.mebibytes 1)) =
      .ok ⟨Ram.base, ∅, none⟩ (zeroMemory zeroBehind) := by
  have room : ¬ zeroBetween.size > (Ram.zeros (Settings.mebibytes 1)).size := by
    rw [size_zeros]
    decide
  rw [loadImage_of_room reader (by decide) room, exists_zeroMemory.choose_spec]
  rfl

noncomputable def zeroConsole : Console :=
  ⟨.ofLoaded zeroArguments.settings .rv64 ⟨Ram.base, ∅, none⟩ (zeroMemory zeroBehind), false, 0, 0⟩

private theorem start_zeroConsole (reader : Elf.Reader) :
    (Console.start (m := Id) reader zeroFiles zeroArguments).run = .ok zeroConsole := by
  have path : zeroArguments.imagePath? = some "image.bin" := rfl
  have width : Simulator.chooseXlen reader zeroArguments.settings zeroBetween = .ok .rv64 := rfl
  have fits : Simulator.checkDeviceTree (zeroArguments.settings.deviceTree .rv64) = .ok () :=
    checkDeviceTree_of_small (by decide +kernel)
  have image : (readNeeded (m := Id) zeroFiles "image.bin").run = .ok zeroBetween := rfl
  have boots : (ofLoad (m := Id) ("loading " ++ "image.bin")
      (Simulator.boot reader zeroArguments.settings zeroBetween)).run =
        .ok zeroConsole.simulator := by
    rw [boot_eq_ok width (loadImage_zeroBetween reader) fits]
    rfl
  rw [Console.start, path]
  dsimp only
  rw [run_bind_of_ok image, run_bind_of_ok boots]
  rfl

def Burst.last? : Burst → Option (List UInt8)
  | .ended output _ => some output
  | .more .. => none

private theorem zeroConsole_session : ∃ e, Session zeroConsole [[0x41, 0, 0x41]] [0x41] e := by
  have computed : ((zeroConsole.pushInput []).burst.last?, (zeroConsole.pushInput []).transmits?) =
      (some [0x41], some [0x41, 0, 0x41]) := by
    decide +kernel
  obtain ⟨printed, sent⟩ := Prod.mk.inj computed
  cases last : (zeroConsole.pushInput []).burst with
  | more output next =>
    rw [last] at printed
    cases printed
  | ended output e =>
    rw [last] at printed
    cases printed
    have session := Session.ended last
    rw [sent] at session
    exact ⟨e, session⟩

/-- The second letter is left in the queue, behind the zero. -/
theorem session_output_zeroBetween : ∃ c e,
    (Console.start (m := Id) Elf.fileReader zeroFiles zeroArguments).run = .ok c ∧
    Session c [[0x41, 0, 0x41]] [0x41] e ∧
    ∃ kept, [0x41, 0, 0x41] = kept ++ left [] [[0x41, 0, 0x41]] ∧
      [0x41] = kept.filter (· != 0) ∧ kept.getLast? = some 0 := by
  have started := start_zeroConsole Elf.fileReader
  obtain ⟨e, session⟩ := zeroConsole_session
  obtain ⟨⟨kept, split, printed, last⟩, -⟩ := session_output started session
  exact ⟨zeroConsole, e, started, session, kept, split, printed, last (by decide)⟩

/-- Not every byte other than zero is printed. -/
theorem session_loses_output : ∃ c bursts output e,
    (∀ reader, (Console.start (m := Id) reader zeroFiles zeroArguments).run = .ok c) ∧
    Session c bursts output e ∧ output ≠ bursts.flatten.filter (· != 0) := by
  obtain ⟨e, session⟩ := zeroConsole_session
  exact ⟨zeroConsole, _, _, e, start_zeroConsole, session, by decide⟩

end RiscvBoard.CommandLine
