import RiscvBoard.Proofs.Board.Notifications
import RiscvBoard.Proofs.Machine.AllOrNothing
import RiscvBoard.Proofs.Machine.ExitWord
import RiscvBoard.Proofs.Machine.Writing

/-!
When the block device works on its queue, over runs of the machine. A step notifies the device once
at most: a store that is done byte by byte crosses between two pages, and at the ends of its window
the device has no register that takes writes. So every notification is served at its own tick, and
what comes before a reset has no effect after it.
-/

set_option autoImplicit false

namespace RiscvBoard

open VirtioBlock (Register RegisterWrite Turns Waiting Waits queueNumMax)

def BusWrite.toVirtio? (w : BusWrite) : Option RegisterWrite :=
  match Bus.device? w.addr w.width with
  | some (.virtio, offset) => some ⟨offset, w.width, w.value⟩
  | _ => none

namespace Bus

private theorem toVirtio?_eq_some {w : BusWrite} {r : RegisterWrite} : w.toVirtio? = some r ↔
    device? w.addr w.width = some (.virtio, r.offset) ∧ w.width = r.width ∧ w.value = r.value := by
  unfold BusWrite.toVirtio?
  split
  next offset found =>
    rw [found]
    obtain ⟨other, width, value⟩ := r
    simp
  next other =>
    refine iff_of_false nofun ?_
    rintro ⟨found, -⟩
    exact other _ found

private theorem virtio_apply (b : Bus) (w : BusWrite) :
    (b.apply w).virtio = (w.toVirtio?.toList).foldl VirtioBlock.put b.virtio := by
  unfold apply write BusWrite.toVirtio?
  by_cases inside : b.ram.contains w.addr w.width.bytes
  · have outside : device? w.addr w.width = none := by
      rw [Option.eq_none_iff_forall_ne_some]
      rintro ⟨d, offset⟩ found
      have here := (device?_eq_some.1 found).1 0 w.width.bytes_pos
      have below := here.bounds.2
      obtain ⟨above, -⟩ := (Ram.contains_iff w.width.bytes_pos).1 inside 0 w.width.bytes_pos
      omega
    rw [if_pos inside, outside]
    rfl
  · rw [if_neg inside]
    cases device? w.addr w.width with
    | none => rfl
    | some place =>
      obtain ⟨d, offset⟩ := place
      cases d <;> rfl

private theorem virtio_foldl_apply (b : Bus) (writes : List BusWrite) :
    (writes.foldl apply b).virtio =
      (writes.filterMap BusWrite.toVirtio?).foldl VirtioBlock.put b.virtio := by
  induction writes generalizing b with
  | nil => rfl
  | cons w rest ih =>
    rw [List.foldl_cons, ih, virtio_apply, List.filterMap_cons]
    cases w.toVirtio? <;> rfl

private theorem isSteady_virtio : IsSteady Bus.virtio where
  ram _ _ := rfl
  afterRead b addr w := by
    obtain ⟨plic, uart, same⟩ := b.afterRead_eq addr w
    rw [same]

end Bus

/-! ### The ends of the window -/

def BusWrite.AtEdge (w : BusWrite) : Prop :=
  w.addr.toNat % 2 ^ 12 ≤ 6 ∨ 4089 ≤ w.addr.toNat % 2 ^ 12

private theorem isConstant_of_atEdge {w : BusWrite} {r : RegisterWrite}
    (goes : w.toVirtio? = some r) (edge : w.AtEdge) : r.register.isConstant := by
  obtain ⟨found, -⟩ := Bus.toVirtio?_eq_some.1 goes
  obtain ⟨held, moved⟩ := Bus.device?_eq_some.1 found
  obtain ⟨above, below⟩ := held 0 w.width.bytes_pos
  have start : Device.virtio.base.toNat = 0x10001000 := rfl
  have size : Device.virtio.windowSize.toNat = 0x1000 := rfl
  have place : r.offset.toNat = w.addr.toNat % 2 ^ 12 := by
    rw [← moved, UInt64.toNat_sub_of_le _ _ (UInt64.le_iff_toNat_le.2 above)]
    omega
  have first : ∀ k < 7, (Register.at (UInt64.ofNat k &&& ~~~3)).isConstant := by decide
  have last : ∀ k < 7, (Register.at (UInt64.ofNat (4089 + k) &&& ~~~3)).isConstant := by decide
  have whole : UInt64.ofNat r.offset.toNat = r.offset := UInt64.ofNat_toNat
  unfold BusWrite.AtEdge at edge
  unfold RegisterWrite.register
  rw [← whole, place]
  rcases edge with low | high
  · exact first _ (by omega)
  · obtain ⟨k, same⟩ := Nat.exists_eq_add_of_le high
    rw [same]
    exact last k (by omega)

namespace Machine

private theorem toNat_add_mod (addr : UInt64) (i : Nat) :
    (addr + i.toUInt64).toNat % 2 ^ 12 = (addr.toNat + i) % 2 ^ 12 := by
  have small : i.toUInt64.toNat = i % 2 ^ 64 := rfl
  rw [UInt64.toNat_add, small]
  omega

private theorem atEdge_of_split {m m₁ : Machine} {vaddr : UInt64} {w : Width} {s : Span}
    (translated : translateSpan (m.xlen.truncate vaddr) w .store m = .ok s m₁)
    (split : s.next ≠ none) (value : UInt64) : ∀ write ∈ s.writes w value, write.AtEdge := by
  have ends := translatesSpan m (m.xlen.truncate vaddr) w .store
  rw [translated] at ends
  cases ends with
  | whole => exact absurd rfl split
  | @split p q m₂ _ first crosses second =>
    have few := w.bytes_le
    have start := toNat_translate_mod first
    have next := toNat_translate_mod second
    have place := toNat_pageOffset (m.xlen.truncate vaddr)
    have size : pageSize = 2 ^ 12 := rfl
    rw [Xlen.truncate_truncate] at start
    have begins : q.toNat % 2 ^ 12 = 0 := by
      rw [next, Xlen.toNat_truncate, toNat_nextPage]
      cases m₂.xlen <;> cases m.xlen <;> (simp only [Xlen.bits]; omega)
    intro write member
    simp only [Span.writes, List.mem_map, List.mem_range'_1] at member
    obtain ⟨i, short, rfl⟩ := member
    unfold BusWrite.AtEdge Span.byteAddr
    dsimp only
    split
    next before =>
      have here := toNat_add_mod p i
      omega
    next after =>
      have here := toNat_add_mod q (i - (pageSize - (pageOffset (m.xlen.truncate vaddr)).toNat))
      omega

private theorem writes?_cases {m : Machine} {i : Instr} {b : Bus} {writes : List BusWrite}
    (found : m.writes? i = some (b, writes)) :
    (∃ w, writes = [w]) ∨ ∀ w ∈ writes, w.AtEdge := by
  have span {m : Machine} {s : Span} {w : Width} {value : UInt64}
      (accepted : m.spanWrites? s w value = some (b, writes)) : writes = s.writes w value := by
    unfold spanWrites? at accepted
    split at accepted
    · exact (Prod.mk.inj (Option.some.inj accepted)).2.symm
    · contradiction
  have whole {m : Machine} {paddr : UInt64} {w : Width} {value : UInt64}
      (accepted : m.spanWrites? ⟨paddr, none⟩ w value = some (b, writes)) : ∃ w, writes = [w] :=
    ⟨_, span accepted⟩
  cases i with
  | store width rs1 rs2 off =>
    simp only [writes?, storeWrites?] at found
    split at found
    next s m₁ translated =>
      rcases s with ⟨first, _ | next⟩
      · exact .inl (whole found)
      · rw [span found]
        exact .inr (atEdge_of_split translated nofun _)
    next => contradiction
  | sc width rd rs1 rs2 =>
    simp only [writes?, conditionalWrites?] at found
    split at found
    · split at found
      · exact .inl (whole found)
      · contradiction
    · contradiction
  | amo op width rd rs1 rs2 =>
    simp only [writes?, operationWrites?] at found
    split at found
    · split at found
      · exact .inl (whole found)
      · contradiction
    · contradiction
  | _ => contradiction

/-! ### Steps -/

/-- The register writes of the block device that the next step does. -/
def registerWrites (m : Machine) : List RegisterWrite :=
  match m.nextWrites? with
  | some (_, writes) => writes.filterMap BusWrite.toVirtio?
  | none => []

/-- The notifications that the next step makes, each with the device that it finds. -/
def notices (m : Machine) : List (VirtioBlock × RegisterWrite) :=
  m.begun.bus.virtio.notices m.registerWrites

def ResetsVirtio (m : Machine) : Prop :=
  m.begun.bus.virtio.ResetsAmong m.registerWrites

instance (m : Machine) : Decidable m.ResetsVirtio :=
  inferInstanceAs (Decidable (m.begun.bus.virtio.ResetsAmong m.registerWrites))

private theorem registerWrites_cases (m : Machine) :
    (∃ r, m.registerWrites = [r]) ∨ ∀ r ∈ m.registerWrites, r.register.isConstant := by
  unfold registerWrites nextWrites?
  cases m.executing? with
  | none => exact .inr nofun
  | some begun =>
    obtain ⟨i, fetched, m₁⟩ := begun
    dsimp only
    cases found : m₁.writes? i with
    | none => exact .inr nofun
    | some writes =>
      obtain ⟨b, writes⟩ := writes
      dsimp only
      rcases writes?_cases found with ⟨w, rfl⟩ | edges
      · rw [List.filterMap_cons]
        cases goes : w.toVirtio? with
        | none => exact .inr nofun
        | some r => exact .inl ⟨r, rfl⟩
      · right
        intro r member
        obtain ⟨w, listed, goes⟩ := List.mem_filterMap.1 member
        exact isConstant_of_atEdge goes (edges w listed)

private theorem afterStep_virtio {m : Machine} (running : m.haltReason? = none) :
    m.afterStep.bus.virtio = m.registerWrites.foldl VirtioBlock.put m.begun.bus.virtio := by
  have wrote := afterStep_writes Bus.isSteady_virtio running
  unfold registerWrites
  generalize m.nextWrites? = writes at wrote
  cases wrote with
  | nothing kept => exact kept
  | writes start stop =>
    rw [stop, Bus.virtio_foldl_apply, start]

private theorem turns_afterStep {m : Machine} (running : m.haltReason? = none) :
    m.begun.bus.virtio.Turns (m.notices ≠ []) m.ResetsVirtio m.afterStep.bus.virtio := by
  rw [afterStep_virtio running]
  exact VirtioBlock.turns_foldl_put m.registerWrites_cases

def dma (m : Machine) : VirtioBlock.Dma :=
  ⟨m.bus.virtio, m.bus.ram⟩

private theorem begun_dma (m : Machine) : m.begun.dma = VirtioBlock.tick m.dma := by
  rw [dma, begun_bus]
  rfl

private theorem begun_of_not_due {m : Machine} (none : m.dma.due? = none) :
    m.begun.dma = m.dma.ticked := by
  rw [begun_dma, VirtioBlock.tick_eq, none]

/-! ### Runs -/

/-- A machine with a new block device, whose run no store ends. -/
structure Fresh (m : Machine) : Prop where
  virtio : ∃ disk, m.bus.virtio = .ofDisk disk
  tohost : m.tohost = none
  exitCode : m.exitCode = none

private theorem reset_fresh (ramSize : Nat) (xlen : Xlen) : (reset ramSize xlen).Fresh :=
  ⟨⟨ByteArray.empty, rfl⟩, rfl, rfl⟩

/-- The machine in which a step of a run begins. The host may type before every step. -/
def atStep (m : Machine) (typed : Nat → List UInt8) : Nat → Machine
  | 0 => m.receive (typed 0)
  | n + 1 => (m.atStep typed n).afterStep.receive (typed (n + 1))

section Run

variable {m : Machine} (fresh : m.Fresh) (typed : Nat → List UInt8) (n : Nat)
include fresh

private theorem atStep_exit :
    (m.atStep typed n).tohost = none ∧ (m.atStep typed n).exitCode = none := by
  induction n with
  | zero => exact ⟨fresh.tohost, fresh.exitCode⟩
  | succ n ih =>
    obtain ⟨tohost, exitCode⟩ := ih
    exact ⟨(afterStep_tohost _).trans tohost, (afterStep_exitCode_of_unset tohost).trans exitCode⟩

private theorem atStep_running : (m.atStep typed n).haltReason? = none := by
  rw [haltReason?, (atStep_exit fresh typed n).2]
  rfl

private theorem atStep_waiting :
    Waiting (fun k => (m.atStep typed k).notices ≠ []) (fun k => (m.atStep typed k).ResetsVirtio)
      n (m.atStep typed n).bus.virtio := by
  induction n with
  | zero =>
    obtain ⟨disk, new⟩ := fresh.virtio
    have same : (m.atStep typed 0).bus.virtio = .ofDisk disk := new
    rw [same]
    exact ⟨UInt32.zero_le, rfl, [], rfl, .nil, fun k =>
      iff_of_false List.not_mem_nil fun waits => absurd waits.1 (Nat.not_lt_zero k)⟩
  | succ n ih =>
    have running := atStep_running fresh typed n
    obtain ⟨few, clock, waits⟩ := Waiting.tick (s := (m.atStep typed n).dma) ih
    rw [← begun_dma] at few clock waits
    have bounded : (m.atStep typed n).afterStep.bus.virtio.queueNum ≤ queueNumMax := by
      rw [afterStep_virtio running]
      exact VirtioBlock.queueNum_foldl_put_le few
    exact (turns_afterStep running).waiting bounded clock waits

end Run

/-- The block device leaves guest memory and the disk alone in a step, and does not interrupt. -/
structure VirtioIdle (m : Machine) : Prop where
  ram : m.begun.bus.ram = m.bus.ram
  disk : m.afterStep.bus.virtio.disk = m.bus.virtio.disk
  before : m.bus.virtio.interrupting = false
  after : m.begun.bus.virtio.interrupting = false

/-- When the block device works on its queue in a run. -/
structure ServesOnTime (run : Nat → Machine) : Prop where
  /-- A step notifies the device once at most. -/
  once : ∀ n, (run n).notices.length ≤ 1
  /-- In a step the device changes by its tick and by the register writes. -/
  writes : ∀ n, (run n).afterStep.bus.virtio =
    (run n).registerWrites.foldl VirtioBlock.put (run n).begun.bus.virtio
  /-- A tick works on the queue if a notification is due, and else counts the clock only. -/
  ticks : ∀ n, (run n).begun.dma = match (run n).dma.due? with
    | some t => VirtioBlock.processQueue t
    | none => (run n).dma.ticked
  /-- Each notification is due after 500 ticks, unless the device has been reset before. -/
  served : ∀ n, (run n).dma.due?.isSome ↔
    ∃ k, n = k + 500 ∧ (run k).notices ≠ [] ∧ ∀ j, k < j → j < n → ¬ (run j).ResetsVirtio
  /-- After a reset nothing happens until a later notification is due. -/
  idle : ∀ k n, (run k).ResetsVirtio → k < n →
    (∀ j, k < j → j + 500 ≤ n → (run j).notices = []) → (run n).VirtioIdle

section Run

variable {m : Machine} (fresh : m.Fresh) (typed : Nat → List UInt8)
include fresh

private theorem served_iff (n : Nat) : (m.atStep typed n).dma.due?.isSome ↔ ∃ k, n = k + 500 ∧
    (m.atStep typed k).notices ≠ [] ∧
      ∀ j, k < j → j < n → ¬ (m.atStep typed j).ResetsVirtio :=
  Waiting.due?_isSome_iff (s := (m.atStep typed n).dma) (atStep_waiting fresh typed n)

section Reset

variable {k : Nat} (resets : (m.atStep typed k).ResetsVirtio)
include resets

private theorem not_due_of_reset {n : Nat} (later : k < n)
    (quiet : ∀ j, k < j → j + 500 ≤ n → (m.atStep typed j).notices = []) :
    (m.atStep typed n).dma.due? = none := by
  rw [← Option.not_isSome_iff_eq_none, served_iff fresh]
  rintro ⟨i, rfl, noticed, kept⟩
  rcases Nat.lt_trichotomy k i with after | rfl | before
  · exact noticed (quiet i after (Nat.le_refl _))
  · exact (turns_afterStep (atStep_running fresh typed k)).not_notice resets noticed
  · exact kept k before later resets

private theorem interruptStatus_of_reset {n : Nat} (later : k + 1 ≤ n)
    (quiet : ∀ j, k < j → j + 500 ≤ n → (m.atStep typed j).notices = []) :
    (m.atStep typed n).bus.virtio.interruptStatus = 0 := by
  induction n, later using Nat.le_induction with
  | base => exact (turns_afterStep (atStep_running fresh typed k)).interruptStatus (.inl resets)
  | succ n later ih =>
    have earlier : ∀ j, k < j → j + 500 ≤ n → (m.atStep typed j).notices = [] :=
      fun j low high => quiet j low (by omega)
    have ticks := begun_of_not_due (not_due_of_reset fresh typed resets later earlier)
    have down : (m.atStep typed n).begun.bus.virtio.interruptStatus = 0 :=
      (congrArg (fun s => s.device.interruptStatus) ticks).trans (ih earlier)
    exact (turns_afterStep (atStep_running fresh typed n)).interruptStatus (.inr down)

private theorem idle_of_reset {n : Nat} (later : k < n)
    (quiet : ∀ j, k < j → j + 500 ≤ n → (m.atStep typed j).notices = []) :
    (m.atStep typed n).VirtioIdle := by
  have ticks := begun_of_not_due (not_due_of_reset fresh typed resets later quiet)
  have down := interruptStatus_of_reset fresh typed resets later quiet
  have still : (m.atStep typed n).begun.bus.virtio.interruptStatus = 0 :=
    (congrArg (fun s => s.device.interruptStatus) ticks).trans down
  constructor
  · exact congrArg VirtioBlock.Dma.ram ticks
  · rw [afterStep_virtio (atStep_running fresh typed n), VirtioBlock.disk_foldl_put]
    exact congrArg (fun s => s.device.disk) ticks
  · rw [VirtioBlock.interrupting, down]
    rfl
  · rw [VirtioBlock.interrupting, still]
    rfl

end Reset

end Run

/-- In every run with a new block device and without an exit word, each notification is served at
its own tick, and a reset leaves nothing of what came before. -/
theorem notices_served_on_time {m : Machine} (fresh : m.Fresh) (typed : Nat → List UInt8) :
    ServesOnTime (m.atStep typed) where
  once n := VirtioBlock.length_notices_le (m.atStep typed n).registerWrites_cases
  writes n := afterStep_virtio (atStep_running fresh typed n)
  ticks _ := (begun_dma _).trans (VirtioBlock.tick_eq _)
  served := served_iff fresh typed
  idle _ _ resets := idle_of_reset fresh typed resets

def withNotice : Machine :=
  (withCode #[0x23, 0xa8, 0x00, 0x04, 0x23, 0xa8, 0x00, 0x06]).setReg 1 0x10001000

/-- Every run from a machine after its reset is covered. In that of the program the notification is
not served. -/
theorem notices_served_on_time_reset :
    let run := withNotice.atStep fun _ => []
    (∀ ramSize xlen typed, ServesOnTime ((reset ramSize xlen).atStep typed)) ∧
    withNotice.Fresh ∧ ServesOnTime run ∧ (run 0).notices.length = 1 ∧ (run 1).ResetsVirtio ∧
      (run 500).dma.due? = none := by
  intro run
  have fresh : withNotice.Fresh := ⟨⟨ByteArray.empty, rfl⟩, rfl, rfl⟩
  have serves : ServesOnTime run := notices_served_on_time fresh _
  have anySize (ramSize : Nat) (xlen : Xlen) (typed : Nat → List UInt8) :
      ServesOnTime ((reset ramSize xlen).atStep typed) :=
    notices_served_on_time (reset_fresh ramSize xlen) typed
  have resets : (run 1).ResetsVirtio := by decide +kernel
  have noticed : (run 0).notices.length = 1 := by decide +kernel
  refine ⟨anySize, fresh, serves, noticed, resets, ?_⟩
  rw [← Option.not_isSome_iff_eq_none, serves.served]
  rintro ⟨k, now, -, kept⟩
  obtain rfl : k = 0 := by omega
  exact kept 1 (by omega) (by omega) resets

end Machine

end RiscvBoard
