import RiscvBoard.Proofs.Board.Transfers

/-!
What the status byte of a request tells. The buffers are checked one after the other, each for its
place on the disk first and then for its kind and its direction, and the first one that fails
decides. So the status byte is zero exactly if every buffer passes. A request without buffers has
nothing that could fail, and its status byte is zero whatever its kind.
-/

set_option autoImplicit false

namespace RiscvBoard.VirtioBlock

/-- What the buffers of a request amount to, from a byte position on, on a disk of a given size. -/
inductive Verdict (kind : Option RequestKind) (size : Nat) :
    Nat → List Descriptor → RequestStatus → Prop where
  /-- No buffer is left. -/
  | passed (position : Nat) : Verdict kind size position [] .ok
  /-- A buffer leaves the disk. -/
  | beyond {position : Nat} {desc : Descriptor} {rest : List Descriptor}
    (outside : size < position + desc.len.toNat) :
    Verdict kind size position (desc :: rest) .ioError
  /-- A buffer is on the disk, but it does not suit the request. -/
  | unsuited {position : Nat} {desc : Descriptor} {rest : List Descriptor}
    (inside : position + desc.len.toNat ≤ size) (faces : ¬ Suits kind desc) :
    Verdict kind size position (desc :: rest) .unsupported
  /-- A buffer passes, and the next ones decide. -/
  | next {position : Nat} {desc : Descriptor} {rest : List Descriptor} {status : RequestStatus}
    (inside : position + desc.len.toNat ≤ size) (faces : Suits kind desc)
    (later : Verdict kind size (position + desc.len.toNat) rest status) :
    Verdict kind size position (desc :: rest) status

section Verdict

variable {kind : Option RequestKind} {size position : Nat} {data : List Descriptor}
  {status : RequestStatus}

/-- A request goes well exactly if all its buffers suit it and lie on the disk, or if it has
none. -/
private theorem Verdict.eq_ok_iff (verdict : Verdict kind size position data status) :
    status = .ok ↔
      data = [] ∨ (∀ desc ∈ data, Suits kind desc) ∧ position + dataLength data ≤ size := by
  induction verdict with
  | passed position => simp
  | beyond outside =>
    refine iff_of_false nofun ?_
    rintro (none | ⟨-, whole⟩)
    · contradiction
    · rw [dataLength_cons] at whole
      omega
  | @unsuited position desc rest inside faces =>
    refine iff_of_false nofun ?_
    rintro (none | ⟨all, -⟩)
    · contradiction
    · exact faces (all desc List.mem_cons_self)
  | @next position desc rest status inside faces later ih =>
    rw [ih, dataLength_cons, List.forall_mem_cons, ← Nat.add_assoc]
    constructor
    · rintro (rfl | ⟨others, whole⟩)
      · exact .inr ⟨⟨faces, nofun⟩, inside⟩
      · exact .inr ⟨⟨faces, others⟩, whole⟩
    · rintro (none | ⟨⟨-, others⟩, whole⟩)
      · contradiction
      · exact .inr ⟨others, whole⟩

private theorem Verdict.of_beyond (verdict : Verdict kind size position data status) {other : Nat}
    (here : size < position) (there : size < other) : Verdict kind size other data status := by
  cases verdict with
  | passed => exact .passed other
  | beyond outside => exact .beyond (by omega)
  | unsuited inside | next inside => omega

end Verdict

/-! ### Requests -/

section Requests

variable {kind : Option RequestKind} {desc : Descriptor} {rest data : List Descriptor}
  {position : UInt64} {written n : UInt32} {status : RequestStatus} {s t : Storage}

theorem transfer_disk_size {served : RequestKind}
    (inside : position.toNat + desc.len.toNat ≤ s.disk.size)
    (moved : transfer served position desc s = .ok () t) : t.disk.size = s.disk.size :=
  ((ends_transfer inside).of_ok moved).2.disk.size

/-- The moves of a request end with the verdict on its buffers. -/
private theorem transferAll_verdict (fits : s.disk.size < UInt64.size)
    (ran : transferAll kind data position written s = .ok (status, n) t) :
    Verdict kind s.disk.size position.toNat data status := by
  induction data generalizing position written s with
  | nil =>
    obtain ⟨answer, -⟩ := EStateM.Result.ok.inj ran
    rw [← (Prod.mk.inj answer).1]
    exact .passed _
  | cons desc rest ih =>
    obtain ⟨outside, rfl⟩ | ⟨inside, ⟨faces, rfl⟩ | ⟨served, u, rfl, faces, moved, later⟩⟩ :=
      transferAll_cons_cases ran
    · exact .beyond outside
    · exact .unsuited inside faces
    · have size := transfer_disk_size inside moved
      have verdict := ih (size ▸ fits) later
      rw [toNat_position_add inside fits, size] at verdict
      exact .next inside (suits_some.2 faces) verdict

private theorem sectorPosition_cases (sector : UInt64) {size : Nat} (fits : size < 2 ^ 63) :
    (sectorPosition sector).toNat = 512 * sector.toNat ∨
      size < (sectorPosition sector).toNat ∧ size < 512 * sector.toNat := by
  have sectors : sectorSize.toNat = 512 := rfl
  unfold sectorPosition
  split
  next exact =>
    left
    rw [UInt64.toNat_mul, Nat.mod_eq_of_lt exact, sectors, Nat.mul_comm]
  next large =>
    have last : (0xffffffffffffffff : UInt64).toNat = 2 ^ 64 - 1 := rfl
    have all : UInt64.size = 2 ^ 64 := rfl
    rw [sectors] at large
    omega

end Requests

/-- The status byte of a request tells how it went. A chain of at least two descriptors that is
carried out is a request, and it gets the verdict on its buffers as its status byte. The status is
that of success exactly if each buffer suits a kind that the device serves and the whole range is on
the disk, or if there is no buffer. -/
theorem status_tells {s t : Dma} {head : UInt16} {chain : List Descriptor} {len : UInt32}
    (fits : s.device.disk.size < 2 ^ 63)
    (read : s.device.readChain s.ram s.device.queueNum.toNat head = .ok chain)
    (long : 2 ≤ chain.length) (ran : processChain head s = .ok len t) :
    ∃ q status, Request.read? s.ram chain = some q ∧
      t.ram.load q.last.addr .byte = .ok status.code.toUInt64 ∧
      Verdict q.kind s.device.disk.size (512 * q.sector.toNat) q.data status ∧
      (status = .ok ↔ q.data = [] ∨ (∀ desc ∈ q.data, Suits q.kind desc) ∧
        512 * q.sector.toNat + dataLength q.data ≤ s.device.disk.size) := by
  obtain ⟨u, served, rfl⟩ := processChain_eq_ok read ran
  obtain ⟨q, found⟩ := Request.read?_of_serve long served
  rw [serve_of_read? found] at served
  obtain ⟨status, n, v, moved, held, -, rfl⟩ := Request.carryOut_eq_ok served
  have small : s.storage.disk.size < UInt64.size := Nat.lt_trans fits (by decide)
  have checked := transferAll_verdict small moved
  have verdict : Verdict q.kind s.device.disk.size (512 * q.sector.toNat) q.data status := by
    obtain same | ⟨here, there⟩ := sectorPosition_cases q.sector fits
    · rwa [same] at checked
    · exact checked.of_beyond here there
  refine ⟨q, status, found, ?_, verdict, verdict.eq_ok_iff⟩
  rw [Ram.load_of_contains (by rwa [Ram.contains_write]),
    Ram.read_write held (by cases status <;> decide)]

def statusAfter? (s : Dma) (head : UInt16) (addr : UInt64) :
    Option (UInt32 × Except MemFault UInt64) :=
  match processChain head s with
  | .ok len t => some (len, t.ram.load addr .byte)
  | .error _ _ => none

private theorem processChain_of_statusAfter? {s : Dma} {head : UInt16} {addr : UInt64}
    {len : UInt32}
    {byte : Except MemFault UInt64} (ran : statusAfter? s head addr = some (len, byte)) :
    ∃ t, processChain head s = .ok len t ∧ t.ram.load addr .byte = byte := by
  unfold statusAfter? at ran
  cases run : processChain head s with
  | error e t =>
    rw [run] at ran
    contradiction
  | ok n t =>
    rw [run] at ran
    obtain ⟨rfl, rfl⟩ := Prod.mk.inj (Option.some.inj ran)
    exact ⟨t, rfl, rfl⟩

/-- Two pieces are to be read from a disk of one byte. -/
theorem status_tells_pieces :
    let s : Dma := ⟨{ fourPlaces with disk := ⟨#[1]⟩ }, pieces 0 3 0 0⟩
    ∃ chain t status, s.device.disk.size < 2 ^ 63 ∧
      s.device.readChain s.ram s.device.queueNum.toNat 0 = .ok chain ∧ 2 ≤ chain.length ∧
      processChain 0 s = .ok 2 t ∧ t.ram.load 0x80000052 .byte = .ok status.code.toUInt64 ∧
      Verdict (some .input) 1 0 (piecesRequest .input 3).data status ∧ status ≠ .ok := by
  intro s
  have read : s.device.readChain s.ram s.device.queueNum.toNat 0 = .ok _ :=
    (by decide +kernel : _ = Except.ok [⟨0x80000040, 16, 1, 1⟩, ⟨0x80000050, 1, 3, 2⟩,
      ⟨0x80000051, 1, 3, 3⟩, ⟨0x80000052, 1, 2, 0⟩])
  have found : Request.read? s.ram _ = some (piecesRequest .input 3) := Request.read?_eq_some.2
    ⟨⟨0x80000040, 16, 1, 1⟩, ⟨0x80000050, 1, 3, 2⟩, [⟨0x80000051, 1, 3, 3⟩, ⟨0x80000052, 1, 2, 0⟩],
      0, 0, rfl, by decide +kernel, by decide +kernel, rfl⟩
  have after : statusAfter? s 0 0x80000052 = some (2, .ok 1) := by decide +kernel
  obtain ⟨t, ran, -⟩ := processChain_of_statusAfter? after
  obtain ⟨q, status, same, byte, verdict, good⟩ := status_tells (by decide) read (by decide) ran
  rw [found] at same
  obtain rfl := Option.some.inj same
  refine ⟨_, t, status, by decide, read, by decide, ran, byte, verdict, ?_⟩
  rw [Ne, good]
  decide

/-- A request of a kind that the device does not serve, without buffers: two descriptors, and then
the header and the status byte. -/
def unservedRequest : Ram :=
  ⟨⟨#[
    0x20, 0, 0, 0x80, 0, 0, 0, 0, 16, 0, 0, 0, 1, 0, 1, 0,
    0x30, 0, 0, 0x80, 0, 0, 0, 0, 1, 0, 0, 0, 2, 0, 0, 0,
    4, 0, 0, 0, 0, 0, 0, 0, 0, 0, 0, 0, 0, 0, 0, 0,
    0xff]⟩⟩

/-- A request of a kind that the device does not serve is told to have gone well if it has no
buffers. -/
theorem unserved_told_ok :
    ¬ ∀ (s t : Dma) (head : UInt16) (chain : List Descriptor) (len : UInt32) (q : Request),
      s.device.readChain s.ram s.device.queueNum.toNat head = .ok chain → 2 ≤ chain.length →
      processChain head s = .ok len t → Request.read? s.ram chain = some q → q.kind = none →
      t.ram.load q.last.addr .byte ≠ .ok RequestStatus.ok.code.toUInt64 := by
  intro claim
  let s : Dma := ⟨fourPlaces, unservedRequest⟩
  have read : s.device.readChain s.ram s.device.queueNum.toNat 0 = .ok _ :=
    (by decide +kernel : _ = Except.ok [⟨0x80000020, 16, 1, 1⟩, ⟨0x80000030, 1, 2, 0⟩])
  have found : Request.read? s.ram _ = some ⟨none, 0, [], ⟨0x80000030, 1, 2, 0⟩⟩ :=
    Request.read?_eq_some.2 ⟨⟨0x80000020, 16, 1, 1⟩, ⟨0x80000030, 1, 2, 0⟩, [], 4, 0, rfl,
      by decide +kernel, by decide +kernel, rfl⟩
  have after : statusAfter? s 0 0x80000030 = some (1, .ok 0) := by decide +kernel
  obtain ⟨t, ran, byte⟩ := processChain_of_statusAfter? after
  exact claim s t 0 _ 1 _ read (by decide) ran found rfl byte

end RiscvBoard.VirtioBlock
