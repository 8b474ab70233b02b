import Mathlib.Control.Monad.Basic
import RiscvBoard.Proofs.Board.Containment

/-!
What a request transfers. The buffers of a request are consecutive pieces of one range of the disk:
after an input request that went well they hold the bytes of the range, and after an output request
the range holds the bytes that they held. So what one request has put onto the disk, another one
reads back.
-/

set_option autoImplicit false

namespace RiscvBoard

namespace Descriptor

def buffer (desc : Descriptor) : Region :=
  ⟨desc.addr, desc.len.toNat⟩

def bytes (desc : Descriptor) (ram : Ram) : ByteArray :=
  ram.bytes.extract (Ram.offset desc.addr) (Ram.offset desc.addr + desc.len.toNat)

variable {desc : Descriptor} {r s : Ram}

private theorem size_bytes (held : r.contains desc.addr desc.len.toNat) :
    (desc.bytes r).size = desc.len.toNat := by
  have place := Ram.toNat_eq_offset held
  have bounds := Ram.contains_iff_toNat.1 held
  have whole : r.size = r.bytes.size := rfl
  rw [bytes, ByteArray.size_extract]
  omega

private theorem bytes_of_sameOutside {touched : Nat → Prop}
    (held : r.contains desc.addr desc.len.toNat) (same : SameOutside touched r.bytes s.bytes)
    (untouched : ∀ i, desc.buffer.Covers i → ¬ touched i) : desc.bytes s = desc.bytes r := by
  have place := Ram.toNat_eq_offset held
  refine same.extract fun i low high => untouched i ?_
  unfold Region.Covers buffer
  dsimp only
  omega

private theorem bytes_blit {block : ByteArray} (size : block.size = desc.len.toNat)
    (held : r.contains desc.addr desc.len.toNat) : desc.bytes (r.blit desc.addr block) = block := by
  have place := Ram.toNat_eq_offset held
  have bounds := Ram.contains_iff_toNat.1 held
  have whole : r.size = r.bytes.size := rfl
  rw [bytes, ← size]
  exact extract_copySlice (by omega)

end Descriptor

namespace VirtioBlock

/-- The bytes of guest memory in the buffers of a request, one buffer after the other. -/
def contents (ram : Ram) : List Descriptor → ByteArray
  | [] => .empty
  | desc :: rest => desc.bytes ram ++ contents ram rest

private theorem contents_of_sameOutside {touched : Nat → Prop} {r s : Ram} {data : List Descriptor}
    (held : ∀ desc ∈ data, r.contains desc.addr desc.len.toNat)
    (same : SameOutside touched r.bytes s.bytes)
    (untouched : ∀ desc ∈ data, ∀ i, desc.buffer.Covers i → ¬ touched i) :
    contents s data = contents r data := by
  induction data with
  | nil => rfl
  | cons desc rest ih =>
    obtain ⟨here, later⟩ := List.forall_mem_cons.1 held
    obtain ⟨first, others⟩ := List.forall_mem_cons.1 untouched
    rw [contents, contents, Descriptor.bytes_of_sameOutside here same first, ih later others]

private theorem size_contents {r : Ram} {data : List Descriptor}
    (held : ∀ desc ∈ data, r.contains desc.addr desc.len.toNat) :
    (contents r data).size = dataLength data := by
  induction data with
  | nil => rfl
  | cons desc rest ih =>
    obtain ⟨here, later⟩ := List.forall_mem_cons.1 held
    rw [contents, ByteArray.size_append, Descriptor.size_bytes here, ih later, dataLength_cons]

/-! ### One buffer -/

def RequestKind.count (kind : RequestKind) (written len : UInt32) : UInt32 :=
  match kind with
  | .input => addLength written len
  | .output => written

private theorem toNat_addLength (a b : UInt32) :
    (addLength a b).toNat = min (a.toNat + b.toNat) (2 ^ 32 - 1) := by
  have size : UInt32.size = 2 ^ 32 := rfl
  unfold addLength
  split
  next small =>
    rw [UInt32.toNat_add]
    omega
  next large =>
    have last : (0xffffffff : UInt32).toNat = 2 ^ 32 - 1 := rfl
    omega

def Suits (kind : Option RequestKind) (desc : Descriptor) : Prop :=
  ∃ served, kind = some served ∧ served.matches desc

theorem suits_some {kind : RequestKind} {desc : Descriptor} :
    Suits (some kind) desc ↔ kind.matches desc := by
  constructor
  · rintro ⟨served, same, faces⟩
    rwa [Option.some.inj same]
  · intro faces
    exact ⟨kind, rfl, faces⟩

instance : (kind : Option RequestKind) → (desc : Descriptor) → Decidable (Suits kind desc)
  | some _, _ => decidable_of_iff _ suits_some.symm
  | none, _ => isFalse nofun

theorem transferAll_cons_cases {kind : Option RequestKind} {desc : Descriptor}
    {rest : List Descriptor} {position : UInt64} {written n : UInt32} {status : RequestStatus}
    {s t : Storage}
    (ran : transferAll kind (desc :: rest) position written s = .ok (status, n) t) :
    (s.disk.size < position.toNat + desc.len.toNat ∧ status = .ioError) ∨
    position.toNat + desc.len.toNat ≤ s.disk.size ∧
      ((¬ Suits kind desc ∧ status = .unsupported) ∨
      ∃ served u, kind = some served ∧ served.matches desc ∧
        transfer served position desc s = .ok () u ∧
        transferAll kind rest (position + desc.len.toUInt64) (served.count written desc.len) u =
          .ok (status, n) t) := by
  simp only [transferAll, bind_get] at ran
  split at ran
  next outside =>
    obtain ⟨answer, -⟩ := EStateM.Result.ok.inj ran
    have beyond : ¬ position.toNat + desc.len.toNat ≤ s.disk.size := by simpa using outside
    exact .inl ⟨Nat.lt_of_not_le beyond, (Prod.mk.inj answer).1.symm⟩
  next inside =>
    have inside : position.toNat + desc.len.toNat ≤ s.disk.size := by simpa using inside
    refine .inr ⟨inside, ?_⟩
    cases kind with
    | none =>
      obtain ⟨answer, -⟩ := EStateM.Result.ok.inj ran
      exact .inl ⟨nofun, (Prod.mk.inj answer).1.symm⟩
    | some served =>
      dsimp only at ran
      split at ran
      next facesAway =>
        obtain ⟨answer, -⟩ := EStateM.Result.ok.inj ran
        refine .inl ⟨fun suits => ?_, (Prod.mk.inj answer).1.symm⟩
        rw [suits_some.1 suits] at facesAway
        contradiction
      next faces =>
        have faces : served.matches desc := by simpa using faces
        cases moved : transfer served position desc s with
        | error e u =>
          rw [bind_of_error moved] at ran
          contradiction
        | ok _ u =>
          rw [bind_of_ok moved] at ran
          exact .inr ⟨served, u, rfl, faces, moved, ran⟩

section Transfer

variable {kind : RequestKind} {desc : Descriptor} {rest : List Descriptor} {position : UInt64}
  {written n : UInt32} {s t : Storage}

/-- Where all buffers are moved, the first one is on the disk, faces the right way and is moved, and
then the others are. -/
private theorem transferAll_cons_eq_ok
    (ran : transferAll (some kind) (desc :: rest) position written s = .ok (.ok, n) t) :
    position.toNat + desc.len.toNat ≤ s.disk.size ∧ ∃ u, transfer kind position desc s = .ok () u ∧
      transferAll (some kind) rest (position + desc.len.toUInt64) (kind.count written desc.len) u =
        .ok (.ok, n) t := by
  obtain ⟨-, beyond⟩ | ⟨inside, ⟨-, unsuited⟩ | ⟨served, u, same, -, moved, later⟩⟩ :=
    transferAll_cons_cases ran
  · contradiction
  · contradiction
  · obtain rfl := Option.some.inj same
    exact ⟨inside, u, moved, later⟩

private theorem transfer_input_eq_ok (ran : transfer .input position desc s = .ok () t) :
    s.ram.contains desc.addr desc.len.toNat ∧
      t = ⟨s.disk, s.ram.blit desc.addr
        (s.disk.extract position.toNat (position.toNat + desc.len.toNat))⟩ := by
  simp only [transfer] at ran
  split at ran
  next held => exact ⟨held, (EStateM.Result.ok.inj ran).2.symm⟩
  next => contradiction

private theorem transfer_output_eq_ok (ran : transfer .output position desc s = .ok () t) :
    s.ram.contains desc.addr desc.len.toNat ∧
      t = ⟨(desc.bytes s.ram).copySlice 0 s.disk position.toNat desc.len.toNat, s.ram⟩ := by
  simp only [transfer] at ran
  split at ran
  next held => exact ⟨held, (EStateM.Result.ok.inj ran).2.symm⟩
  next => contradiction

end Transfer

/-! ### All buffers -/

def InRange (position : UInt64) (data : List Descriptor) (i : Nat) : Prop :=
  position.toNat ≤ i ∧ i < position.toNat + dataLength data

structure Fits (s : Storage) (position : UInt64) (data : List Descriptor) : Prop where
  ram : ∀ desc ∈ data, s.ram.contains desc.addr desc.len.toNat
  disk : data ≠ [] → position.toNat + dataLength data ≤ s.disk.size

structure Filled (data : List Descriptor) (position : UInt64) (written n : UInt32)
    (s t : Storage) : Prop where
  fits : Fits s position data
  disk : t.disk = s.disk
  ram : SameOutside (fun i => ∃ desc ∈ data, desc.buffer.Covers i) s.ram.bytes t.ram.bytes
  bytes : contents t.ram data =
    s.disk.extract position.toNat (position.toNat + dataLength data)
  count : n.toNat = min (written.toNat + dataLength data) (2 ^ 32 - 1)

structure Emptied (data : List Descriptor) (position : UInt64) (written n : UInt32)
    (s t : Storage) : Prop where
  fits : Fits s position data
  ram : t.ram = s.ram
  disk : SameOutside (InRange position data) s.disk t.disk
  bytes : t.disk.extract position.toNat (position.toNat + dataLength data) =
    contents s.ram data
  count : n = written

section TransferAll

variable {data : List Descriptor} {position : UInt64} {written n : UInt32} {s t : Storage}

private theorem extract_append_range (disk : ByteArray) (first len total : Nat) :
    disk.extract first (first + len) ++ disk.extract (first + len) (first + len + total) =
      disk.extract first (first + (len + total)) := by
  rw [ByteArray.extract_append_extract, Nat.min_eq_left (by omega), Nat.max_eq_right (by omega),
    Nat.add_assoc]

private theorem Fits.cons {desc : Descriptor} {rest : List Descriptor} {u : Storage}
    (later : Fits u (position + desc.len.toUInt64) rest)
    (held : s.ram.contains desc.addr desc.len.toNat)
    (inside : position.toNat + desc.len.toNat ≤ s.disk.size) (fits : s.disk.size < UInt64.size)
    (ram : u.ram.size = s.ram.size) (disk : u.disk.size = s.disk.size) :
    Fits s position (desc :: rest) := by
  constructor
  · refine List.forall_mem_cons.2 ⟨held, fun other member => ?_⟩
    rw [← Ram.contains_of_size ram]
    exact later.ram other member
  · intro _
    rcases rest with _ | ⟨next, rest⟩
    · exact inside
    · have onDisk := later.disk (List.cons_ne_nil next rest)
      rw [toNat_position_add inside fits, disk] at onDisk
      rw [dataLength_cons, ← Nat.add_assoc]
      exact onDisk

/-- An input request fills its buffers from the disk, if they do not overlap. -/
private theorem transferAll_input
    (ran : transferAll (some .input) data position written s = .ok (.ok, n) t)
    (fits : s.disk.size < UInt64.size)
    (apart : (data.map Descriptor.buffer).Pairwise Region.Apart) :
    Filled data position written n s t := by
  induction data generalizing position written s with
  | nil =>
    obtain ⟨answer, rfl⟩ := EStateM.Result.ok.inj ran
    obtain ⟨-, rfl⟩ := Prod.mk.inj answer
    have small := written.toNat_lt
    refine ⟨⟨nofun, fun some => absurd rfl some⟩, rfl, .refl _ _, ?_, ?_⟩
    · exact (ByteArray.extract_same).symm
    · show written.toNat = min (written.toNat + 0) (2 ^ 32 - 1)
      omega
  | cons desc rest ih =>
    obtain ⟨inside, u, moved, later⟩ := transferAll_cons_eq_ok ran
    obtain ⟨held, rfl⟩ := transfer_input_eq_ok moved
    obtain ⟨first, others⟩ := List.pairwise_cons.1 apart
    have filled := ih later fits others
    have start := toNat_position_add inside fits
    have size : (s.disk.extract position.toNat (position.toNat + desc.len.toNat)).size =
        desc.len.toNat := by
      rw [ByteArray.size_extract]
      omega
    have copied := Descriptor.bytes_blit size held
    have within : s.ram.contains desc.addr
        (s.disk.extract position.toNat (position.toNat + desc.len.toNat)).size := by rwa [size]
    have kept := Ram.sameOutside_blit within
    rw [size] at kept
    -- The later buffers are elsewhere, so that the first one stays as it was filled.
    have stays : desc.bytes t.ram = desc.bytes (s.ram.blit desc.addr
        (s.disk.extract position.toNat (position.toNat + desc.len.toNat))) := by
      refine Descriptor.bytes_of_sameOutside ?_ filled.ram ?_
      · rw [Ram.contains_of_size kept.size]
        exact held
      · rintro i covered ⟨other, member, touched⟩
        exact (first _ (List.mem_map_of_mem member)).symm.not_covers covered touched
    constructor
    · exact filled.fits.cons held inside fits kept.size rfl
    · exact filled.disk
    · refine (kept.mono fun i covered => ⟨desc, List.mem_cons_self, covered⟩).trans
        (filled.ram.mono ?_)
      rintro i ⟨other, member, covered⟩
      exact ⟨other, List.mem_cons_of_mem desc member, covered⟩
    · rw [contents, stays, copied, filled.bytes, start, dataLength_cons, extract_append_range]
    · have count := filled.count
      rw [RequestKind.count, toNat_addLength] at count
      rw [count, dataLength_cons]
      omega

/-- An output request puts its buffers onto the disk. -/
private theorem transferAll_output
    (ran : transferAll (some .output) data position written s = .ok (.ok, n) t)
    (fits : s.disk.size < UInt64.size) : Emptied data position written n s t := by
  induction data generalizing position written s with
  | nil =>
    obtain ⟨answer, rfl⟩ := EStateM.Result.ok.inj ran
    obtain ⟨-, rfl⟩ := Prod.mk.inj answer
    refine ⟨⟨nofun, fun some => absurd rfl some⟩, rfl, .refl _ _, ?_, rfl⟩
    exact ByteArray.extract_same
  | cons desc rest ih =>
    obtain ⟨inside, u, moved, later⟩ := transferAll_cons_eq_ok ran
    obtain ⟨held, rfl⟩ := transfer_output_eq_ok moved
    have start := toNat_position_add inside fits
    have size := Descriptor.size_bytes held
    have kept : SameOutside (fun i => position.toNat ≤ i ∧ i < position.toNat + desc.len.toNat)
        s.disk ((desc.bytes s.ram).copySlice 0 s.disk position.toNat desc.len.toNat) :=
      .copySlice (by omega) inside
    have emptied := ih later (kept.size ▸ fits)
    have copied : ((desc.bytes s.ram).copySlice 0 s.disk position.toNat desc.len.toNat).extract
        position.toNat (position.toNat + desc.len.toNat) = desc.bytes s.ram := by
      rw [← size]
      exact extract_copySlice (by omega)
    have stays : t.disk.extract position.toNat (position.toNat + desc.len.toNat) =
        ((desc.bytes s.ram).copySlice 0 s.disk position.toNat desc.len.toNat).extract
          position.toNat (position.toNat + desc.len.toNat) := by
      refine emptied.disk.extract fun i low high after => ?_
      have behind := after.1
      omega
    have rest := emptied.bytes
    rw [start] at rest
    constructor
    · exact emptied.fits.cons held inside fits rfl kept.size
    · exact emptied.ram
    · refine (kept.mono ?_).trans (emptied.disk.mono ?_)
      · rintro i ⟨low, high⟩
        exact ⟨low, by rw [dataLength_cons]; omega⟩
      · rintro i ⟨low, high⟩
        rw [start] at low high
        exact ⟨by omega, by rw [dataLength_cons]; omega⟩
    · rw [contents, ← copied, ← stays, ← rest, dataLength_cons, extract_append_range]
    · exact emptied.count

end TransferAll

/-! ### Requests -/

namespace Request

variable {q : Request} {s u : Storage} {len : UInt32}

/-- No two of the buffers of a request, and the status byte, have a byte in common. -/
def Separate (q : Request) : Prop :=
  (q.statusByte :: q.data.map Descriptor.buffer).Pairwise Region.Apart

instance (q : Request) : Decidable q.Separate :=
  inferInstanceAs (Decidable (List.Pairwise _ _))

def range (q : Request) (disk : ByteArray) : ByteArray :=
  disk.extract (512 * q.sector.toNat) (512 * q.sector.toNat + dataLength q.data)

theorem read?_of_serve {chain : List Descriptor} (long : 2 ≤ chain.length)
    (ran : serve chain s = .ok len u) : ∃ q, read? s.ram chain = some q := by
  match chain with
  | [] | [_] => simp at long
  | header :: second :: rest =>
    cases first : s.ram.load header.addr .word with
    | error e =>
      simp only [serve, Bind.bind, EStateM.bind, Storage.load, first] at ran
      contradiction
    | ok code =>
      cases next : s.ram.load (header.addr + 8) .double with
      | error e =>
        simp only [serve, Bind.bind, EStateM.bind, Storage.load, first, next] at ran
        contradiction
      | ok sector => exact ⟨_, read?_eq_some.2 ⟨_, _, _, _, _, rfl, first, next, rfl⟩⟩

theorem carryOut_eq_ok (ran : q.carryOut s = .ok len u) :
    ∃ status n t, transferAll q.kind q.data (sectorPosition q.sector) 0 s = .ok (status, n) t ∧
      t.ram.contains q.last.addr Width.byte.bytes ∧ len = addLength n 1 ∧
      u = ⟨t.disk, t.ram.write q.last.addr .byte status.code.toUInt64⟩ := by
  unfold carryOut at ran
  cases moved : transferAll q.kind q.data (sectorPosition q.sector) 0 s with
  | error e t =>
    rw [bind_of_error moved] at ran
    contradiction
  | ok answer t =>
    obtain ⟨status, n⟩ := answer
    rw [bind_of_ok moved] at ran
    dsimp only at ran
    by_cases held : t.ram.contains q.last.addr Width.byte.bytes
    · have stored : Storage.store q.last.addr .byte status.code.toUInt64 t = .ok ()
          ⟨t.disk, t.ram.write q.last.addr .byte status.code.toUInt64⟩ := if_pos held
      rw [bind_of_ok stored] at ran
      obtain ⟨rfl, rfl⟩ := EStateM.Result.ok.inj ran
      exact ⟨status, n, t, rfl, held, rfl, rfl⟩
    · have refused : Storage.store q.last.addr .byte status.code.toUInt64 t =
          .error (.outOfRange q.last.addr) t := if_neg held
      rw [bind_of_error refused] at ran
      contradiction

private theorem moved_of_status (ran : q.carryOut s = .ok len u)
    (status : u.ram.load q.last.addr .byte = .ok 0) :
    ∃ n t, transferAll q.kind q.data (sectorPosition q.sector) 0 s = .ok (.ok, n) t ∧
      len = addLength n 1 ∧ u.disk = t.disk ∧
      SameOutside q.statusByte.Covers t.ram.bytes u.ram.bytes := by
  obtain ⟨outcome, n, t, moved, held, rfl, rfl⟩ := carryOut_eq_ok ran
  have written : (t.ram.write q.last.addr .byte outcome.code.toUInt64).read q.last.addr .byte =
      outcome.code.toUInt64 := Ram.read_write held (by cases outcome <;> decide)
  rw [Ram.load_of_contains (by rwa [Ram.contains_write]), written] at status
  obtain rfl : outcome = .ok := by
    cases outcome with
    | ok => rfl
    | ioError | unsupported => exact absurd (Except.ok.inj status) (by decide)
  exact ⟨n, t, moved, rfl, rfl, Ram.sameOutside_write held _⟩

private theorem range_of_fits (on : Fits s (sectorPosition q.sector) q.data)
    (fits : s.disk.size < UInt64.size) : dataLength q.data = 0 ∨
      (sectorPosition q.sector).toNat = 512 * q.sector.toNat := by
  by_cases none : q.data = []
  · exact .inl (by rw [none]; rfl)
  have inside := on.disk none
  have sectors : sectorSize.toNat = 512 := rfl
  unfold sectorPosition at inside ⊢
  split
  next exact =>
    right
    rw [UInt64.toNat_mul, Nat.mod_eq_of_lt exact, sectors, Nat.mul_comm]
  next beyond =>
    rw [if_neg beyond] at inside
    have last : (0xffffffffffffffff : UInt64).toNat = UInt64.size - 1 := rfl
    omega

private theorem range_eq (place : dataLength q.data = 0 ∨
      (sectorPosition q.sector).toNat = 512 * q.sector.toNat) (disk : ByteArray) :
    q.range disk = disk.extract (sectorPosition q.sector).toNat
      ((sectorPosition q.sector).toNat + dataLength q.data) := by
  unfold range
  obtain empty | same := place
  · simp only [empty, Nat.add_zero, ByteArray.extract_same]
  · rw [same]

end Request

/-- A request went well: the chain of a head describes it, the chain was carried out, and its status
byte tells that nothing was amiss. -/
structure Completed (s : Dma) (q : Request) (len : UInt32) (t : Dma) : Prop where
  chain : ∃ head chain, s.device.readChain s.ram s.device.queueNum.toNat head = .ok chain ∧
    Request.read? s.ram chain = some q ∧ processChain head s = .ok len t
  status : t.ram.load q.last.addr .byte = .ok RequestStatus.ok.code.toUInt64

/-- What an input request does that goes well: its buffers hold the range of the disk, and the
device stays as it was. -/
structure Input (s : Dma) (q : Request) (len : UInt32) (t : Dma) : Prop where
  bytes : contents t.ram q.data = q.range s.device.disk
  size : (contents t.ram q.data).size = dataLength q.data
  device : t.device = s.device
  len : len.toNat = min (dataLength q.data + 1) (2 ^ 32 - 1)

/-- What an output request does that goes well: the range of the disk holds what its buffers held,
and nothing else changes but the status byte. -/
structure Output (s : Dma) (q : Request) (len : UInt32) (t : Dma) : Prop where
  bytes : q.range t.device.disk = contents s.ram q.data
  size : (contents s.ram q.data).size = dataLength q.data
  disk : SameOutside (fun i => 512 * q.sector.toNat ≤ i ∧
    i < 512 * q.sector.toNat + dataLength q.data) s.device.disk t.device.disk
  device : t.device = { s.device with disk := t.device.disk }
  ram : SameOutside q.statusByte.Covers s.ram.bytes t.ram.bytes
  len : len = 1

theorem processChain_eq_ok {s t : Dma} {head : UInt16} {chain : List Descriptor} {len : UInt32}
    (read : s.device.readChain s.ram s.device.queueNum.toNat head = .ok chain)
    (ran : processChain head s = .ok len t) :
    ∃ u, serve chain s.storage = .ok len u ∧ t = ⟨{ s.device with disk := u.disk }, u.ram⟩ := by
  unfold processChain at ran
  rw [read] at ran
  dsimp only at ran
  unfold Dma.storage
  cases served : serve chain ⟨s.device.disk, s.ram⟩ with
  | error e u =>
    rw [served] at ran
    contradiction
  | ok n u =>
    rw [served] at ran
    obtain ⟨rfl, rfl⟩ := EStateM.Result.ok.inj ran
    exact ⟨u, rfl, rfl⟩

section Completed

variable {s t : Dma} {q : Request} {len : UInt32}

private theorem Completed.moved (completed : Completed s q len t) :
    ∃ n u, transferAll q.kind q.data (sectorPosition q.sector) 0 s.storage = .ok (.ok, n) u ∧
      len = addLength n 1 ∧ t.device = { s.device with disk := u.disk } ∧
      SameOutside q.statusByte.Covers u.ram.bytes t.ram.bytes := by
  obtain ⟨⟨head, chain, read, found, ran⟩, status⟩ := completed
  obtain ⟨u, served, rfl⟩ := processChain_eq_ok read ran
  rw [serve_of_read? (s := s.storage) found] at served
  obtain ⟨n, v, moved, count, disk, same⟩ := Request.moved_of_status served status
  exact ⟨n, v, moved, count, by rw [disk], same⟩

private theorem Completed.input (completed : Completed s q len t)
    (fits : s.device.disk.size < UInt64.size)
    (kind : q.kind = some .input) (separate : q.Separate) : Input s q len t := by
  obtain ⟨n, u, moved, rfl, device, status⟩ := completed.moved
  obtain ⟨apart, buffers⟩ := List.pairwise_cons.1 separate
  rw [kind] at moved
  have filled := transferAll_input moved fits buffers
  have place := Request.range_of_fits (s := s.storage) filled.fits fits
  have held (desc : Descriptor) (member : desc ∈ q.data) :
      u.ram.contains desc.addr desc.len.toNat := by
    rw [Ram.contains_of_size filled.ram.size]
    exact filled.fits.ram desc member
  have kept : contents t.ram q.data = contents u.ram q.data :=
    contents_of_sameOutside held status fun desc member i covered =>
      (apart _ (List.mem_map_of_mem member)).not_covers covered
  constructor
  · rw [kept, filled.bytes, Request.range_eq place]
    rfl
  · rw [kept, size_contents held]
  · rw [device, filled.disk]
    rfl
  · have count := filled.count
    rw [toNat_addLength, count]
    simp only [UInt32.toNat_zero, UInt32.toNat_one]
    omega

private theorem Completed.output (completed : Completed s q len t)
    (fits : s.device.disk.size < UInt64.size)
    (kind : q.kind = some .output) : Output s q len t := by
  obtain ⟨n, u, moved, rfl, device, status⟩ := completed.moved
  rw [kind] at moved
  have emptied := transferAll_output moved fits
  have place := Request.range_of_fits (s := s.storage) emptied.fits fits
  constructor
  · rw [device, Request.range_eq place]
    exact emptied.bytes
  · exact size_contents emptied.fits.ram
  · rw [device]
    refine emptied.disk.mono ?_
    rintro i ⟨low, high⟩
    obtain empty | same := place
    · omega
    · omega
  · rw [device]
  · rw [emptied.ram] at status
    exact status
  · rw [emptied.count]
    rfl

end Completed

/-- Requests transfer what they say. A chain of at least two descriptors that is carried out is a
request. If it goes well, an input request fills its buffers from its range of the disk, provided
that they are separate, and an output request puts its buffers onto its range; an input request for
a range reads what an output request for the same range has put there. -/
theorem requests_transfer :
    (∀ (s t : Dma) (head : UInt16) (chain : List Descriptor) (len : UInt32),
      s.device.readChain s.ram s.device.queueNum.toNat head = .ok chain → 2 ≤ chain.length →
      processChain head s = .ok len t → ∃ q, Request.read? s.ram chain = some q) ∧
    ∀ (s t : Dma) (q : Request) (len : UInt32), s.device.disk.size < UInt64.size →
      Completed s q len t →
      (q.kind = some .input → q.Separate → Input s q len t) ∧
      (q.kind = some .output → Output s q len t ∧
        ∀ (u v : Dma) (r : Request) (n : UInt32), u.device.disk = t.device.disk →
          Completed u r n v → r.kind = some .input → r.Separate → r.sector = q.sector →
          dataLength r.data = dataLength q.data → contents v.ram r.data = contents s.ram q.data) := by
  constructor
  · intro s t head chain len read long ran
    obtain ⟨u, served, -⟩ := processChain_eq_ok read ran
    exact Request.read?_of_serve long served
  · intro s t q len fits completed
    refine ⟨completed.input fits, fun kind => ⟨completed.output fits kind, ?_⟩⟩
    intro u v r n same later input separate sector length
    have put := completed.output fits kind
    have small : u.device.disk.size < UInt64.size := by rwa [same, put.disk.size]
    have got := (later.input small input separate).bytes
    rw [got, same, ← put.bytes, Request.range, Request.range, sector, length]

/-- A request of two pieces of one byte each: four descriptors, and then the header, the pieces and
the status byte. -/
def pieces (code facing first second : UInt8) : Ram :=
  ⟨⟨#[
    0x40, 0, 0, 0x80, 0, 0, 0, 0, 16, 0, 0, 0, 1, 0, 1, 0,
    0x50, 0, 0, 0x80, 0, 0, 0, 0, 1, 0, 0, 0, facing, 0, 2, 0,
    0x51, 0, 0, 0x80, 0, 0, 0, 0, 1, 0, 0, 0, facing, 0, 3, 0,
    0x52, 0, 0, 0x80, 0, 0, 0, 0, 1, 0, 0, 0, 2, 0, 0, 0,
    code, 0, 0, 0, 0, 0, 0, 0, 0, 0, 0, 0, 0, 0, 0, 0,
    first, second, 0xff]⟩⟩

def piecesRequest (kind : RequestKind) (facing : UInt16) : Request :=
  ⟨some kind, 0, [⟨0x80000050, 1, facing, 2⟩, ⟨0x80000051, 1, facing, 3⟩], ⟨0x80000052, 1, 2, 0⟩⟩

private theorem completed_of_run {s : Dma} {q : Request} {len : UInt32} {disk : ByteArray}
    (head : UInt16) (chain : List Descriptor)
    (read : s.device.readChain s.ram s.device.queueNum.toNat head = .ok chain)
    (found : Request.read? s.ram chain = some q)
    (ran : (match processChain head s with
      | .ok n t => some (n, t.device.disk, t.ram.load q.last.addr .byte)
      | .error _ _ => none) = some (len, disk, .ok 0)) :
    ∃ t, Completed s q len t ∧ t.device.disk = disk := by
  cases run : processChain head s with
  | error e t =>
    rw [run] at ran
    contradiction
  | ok n t =>
    rw [run] at ran
    obtain ⟨rfl, rest⟩ := Prod.mk.inj (Option.some.inj ran)
    obtain ⟨stays, status⟩ := Prod.mk.inj rest
    exact ⟨t, ⟨⟨head, chain, read, found, run⟩, status⟩, stays⟩

/-- Two bytes that are put onto the disk and read back. -/
theorem requests_transfer_pieces :
    let s : Dma := ⟨fourPlaces, pieces 1 1 0xaa 0xbb⟩
    let u : Dma := ⟨{ fourPlaces with disk := ⟨#[0xaa, 0xbb]⟩ }, pieces 0 3 0 0⟩
    ∃ t v, Completed s (piecesRequest .output 1) 1 t ∧ Completed u (piecesRequest .input 3) 3 v ∧
      u.device.disk = t.device.disk ∧
      contents v.ram (piecesRequest .input 3).data =
        contents s.ram (piecesRequest .output 1).data := by
  intro s u
  have write : Request.read? s.ram _ = some (piecesRequest .output 1) := Request.read?_eq_some.2
    ⟨⟨0x80000040, 16, 1, 1⟩, ⟨0x80000050, 1, 1, 2⟩, [⟨0x80000051, 1, 1, 3⟩, ⟨0x80000052, 1, 2, 0⟩],
      1, 0, rfl, by decide +kernel, by decide +kernel, rfl⟩
  have read : Request.read? u.ram _ = some (piecesRequest .input 3) := Request.read?_eq_some.2
    ⟨⟨0x80000040, 16, 1, 1⟩, ⟨0x80000050, 1, 3, 2⟩, [⟨0x80000051, 1, 3, 3⟩, ⟨0x80000052, 1, 2, 0⟩],
      0, 0, rfl, by decide +kernel, by decide +kernel, rfl⟩
  obtain ⟨t, put, disk⟩ : ∃ t, Completed s (piecesRequest .output 1) 1 t ∧
      t.device.disk = ⟨#[0xaa, 0xbb]⟩ :=
    completed_of_run 0 _ (by decide +kernel) write (by decide +kernel)
  obtain ⟨v, got, -⟩ : ∃ v, Completed u (piecesRequest .input 3) 3 v ∧
      v.device.disk = ⟨#[0xaa, 0xbb]⟩ :=
    completed_of_run 0 _ (by decide +kernel) read (by decide +kernel)
  have reads := ((requests_transfer.2 s t _ 1 (by decide) put).2 rfl).2 u v _ 3 disk.symm got rfl
    (by decide) rfl rfl
  exact ⟨t, v, put, got, disk.symm, reads⟩

end VirtioBlock

end RiscvBoard
