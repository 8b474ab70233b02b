import RiscvBoard.Proofs.Board.QueueRound

/-!
The device from one register write or clock tick to the next: which writes reset it, when a tick
hands it to the queue, and what neither can change.
-/

set_option autoImplicit false

namespace RiscvBoard.VirtioBlock

/-! ### Register writes -/

def Resets (d : VirtioBlock) (offset : UInt64) (w : Width) (value : UInt64) : Prop :=
  Register.at (offset &&& ~~~3) = .status ∧
    (writeField d.status.toUInt64 (offset &&& 3) w value).toUInt32 = 0

theorem disk_store (d : VirtioBlock) (offset : UInt64) (w : Width) (value : UInt64) :
    (d.store offset w value).disk = d.disk := by
  unfold store
  cases Register.at (offset &&& ~~~3) with
  | queueNotify =>
    dsimp only
    split <;> rfl
  | status =>
    dsimp only
    split <;> rfl
  | _ => rfl

theorem queueNum_store_le {d : VirtioBlock} (few : d.queueNum ≤ queueNumMax) (offset : UInt64)
    (w : Width) (value : UInt64) : (d.store offset w value).queueNum ≤ queueNumMax := by
  unfold store
  cases Register.at (offset &&& ~~~3) with
  | queueNum =>
    change (if _ ≤ queueNumMax then _ else queueNumMax) ≤ queueNumMax
    split
    next small => exact small
    next large => exact UInt32.le_refl _
  | queueNotify =>
    dsimp only
    split <;> exact few
  | status =>
    dsimp only
    split
    · exact UInt32.zero_le
    · exact few
  | _ => exact few

theorem lastAvail_store {d : VirtioBlock} {offset : UInt64} {w : Width} {value : UInt64}
    (keeps : ¬ d.Resets offset w value) : (d.store offset w value).lastAvail = d.lastAvail := by
  unfold store
  cases register : Register.at (offset &&& ~~~3) with
  | queueNotify =>
    dsimp only
    split <;> rfl
  | status =>
    dsimp only
    rw [if_neg fun zero => keeps ⟨register, zero⟩]
  | _ => rfl

/-! ### Ticks -/

namespace Dma

def ticked (s : Dma) : Dma :=
  { s with device := { s.device with clock := s.device.clock + 1 } }

def due? (s : Dma) : Option Dma :=
  match s.device.notifications with
  | [] => none
  | first :: rest =>
    if s.ticked.device.clock - first ≥ accessDelay then
      some { s.ticked with device := { s.ticked.device with notifications := rest } }
    else none

theorem due?_eq_some {s t : Dma} (due : s.due? = some t) :
    ∃ rest, t = { s with device :=
      { s.device with clock := s.device.clock + 1, notifications := rest } } := by
  unfold due? at due
  split at due
  next => exact absurd due nofun
  next first rest found =>
    split at due
    next => exact ⟨rest, (Option.some.inj due).symm⟩
    next => exact absurd due nofun

end Dma

theorem tick_eq (s : Dma) : tick s = match s.due? with
    | some t => processQueue t
    | none => s.ticked := by
  unfold tick Dma.due?
  cases found : s.device.notifications with
  | nil => simp only [found, Dma.ticked]
  | cons first rest =>
    simp only [found, Dma.ticked]
    split <;> rfl

section Tick

variable {s : Dma} (few : s.device.queueNum ≤ queueNumMax)
include few

theorem queueNum_tick : (tick s).device.queueNum = s.device.queueNum := by
  rw [tick_eq]
  cases due : s.due? with
  | none => rfl
  | some t =>
    obtain ⟨rest, rfl⟩ := Dma.due?_eq_some due
    exact queueNum_processQueue few

private theorem diskSize_tick : (tick s).device.disk.size = s.device.disk.size := by
  rw [tick_eq]
  cases due : s.due? with
  | none => rfl
  | some t =>
    obtain ⟨rest, same⟩ := Dma.due?_eq_some due
    have kept := disk_processQueue (s := t) (by rw [same]; exact few)
    dsimp only
    rw [kept.size, same]

end Tick

/-! ### Reachable states -/

/-- The states of the device that come about by attaching disks, register writes and ticks with any
guest memory, and those in which a tick hands the device to the queue. -/
inductive Reachable : VirtioBlock → Prop
  | ofDisk (disk : ByteArray) (fits : disk.size < UInt64.size) : Reachable (ofDisk disk)
  | attach {d : VirtioBlock} (reached : Reachable d) (disk : ByteArray)
    (fits : disk.size < UInt64.size) : Reachable (d.attach disk)
  | store {d : VirtioBlock} (reached : Reachable d) (offset : UInt64) (w : Width)
    (value : UInt64) : Reachable (d.store offset w value)
  | tick {d : VirtioBlock} (reached : Reachable d) (ram : Ram) : Reachable (tick ⟨d, ram⟩).device
  | due {d : VirtioBlock} (reached : Reachable d) (ram : Ram) {s : Dma}
    (due : Dma.due? ⟨d, ram⟩ = some s) : Reachable s.device

namespace Reachable

variable {d : VirtioBlock}

theorem few (reached : Reachable d) : d.queueNum ≤ queueNumMax := by
  induction reached with
  | ofDisk disk fits => exact UInt32.zero_le
  | attach _ disk fits ih => exact ih
  | store _ offset w value ih => exact queueNum_store_le ih offset w value
  | tick _ ram ih =>
    rw [queueNum_tick ih]
    exact ih
  | due _ ram due ih =>
    obtain ⟨rest, rfl⟩ := Dma.due?_eq_some due
    exact ih

theorem fits (reached : Reachable d) : d.disk.size < UInt64.size := by
  induction reached with
  | ofDisk disk fits => exact fits
  | attach _ disk fits ih => exact fits
  | store _ offset w value ih =>
    rw [disk_store]
    exact ih
  | tick reached ram ih =>
    rw [diskSize_tick reached.few]
    exact ih
  | due _ ram due ih =>
    obtain ⟨rest, rfl⟩ := Dma.due?_eq_some due
    exact ih

end Reachable

end RiscvBoard.VirtioBlock
