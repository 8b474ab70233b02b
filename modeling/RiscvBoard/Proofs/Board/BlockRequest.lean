import RiscvBoard.Board.VirtioBlock
import RiscvBoard.Proofs.Ends
import RiscvBoard.Proofs.Region

/-!
What a request changes. The buffers that it moves are known before it runs: the disk changes only
where buffers of an output request go, and guest memory only in the buffers of an input request and
in the status byte, however the request ends.
-/

set_option autoImplicit false

namespace RiscvBoard.VirtioBlock

/-! ### Storage -/

structure Storage.Keeps (disk memory : Nat → Prop) (s t : Storage) : Prop where
  disk : SameOutside disk s.disk t.disk
  ram : SameOutside memory s.ram.bytes t.ram.bytes

namespace Storage.Keeps

variable {disk disk' memory memory' : Nat → Prop} {s t u : Storage}

theorem refl (disk memory : Nat → Prop) (s : Storage) : Keeps disk memory s s :=
  ⟨.refl _ _, .refl _ _⟩

private theorem trans (first : Keeps disk memory s t) (second : Keeps disk memory t u) :
    Keeps disk memory s u :=
  ⟨first.disk.trans second.disk, first.ram.trans second.ram⟩

private theorem mono (kept : Keeps disk memory s t) (widerDisk : ∀ i, disk i → disk' i)
    (widerMemory : ∀ i, memory i → memory' i) : Keeps disk' memory' s t :=
  ⟨kept.disk.mono widerDisk, kept.ram.mono widerMemory⟩

end Storage.Keeps

/-! ### Buffers -/

structure Move where
  kind : RequestKind
  position : UInt64
  desc : Descriptor

namespace Move

def buffer (m : Move) : Region :=
  ⟨m.desc.addr, m.desc.len.toNat⟩

def WritesDisk (m : Move) (i : Nat) : Prop :=
  m.kind = .output ∧ m.position.toNat ≤ i ∧ i < m.position.toNat + m.desc.len.toNat

def WritesMemory (m : Move) (i : Nat) : Prop :=
  m.kind = .input ∧ m.buffer.Covers i

end Move

/-- The buffers that `transferAll` moves before it ends. -/
def moves : Option RequestKind → List Descriptor → UInt64 → Storage → List Move
  | some kind, desc :: rest, position, s =>
    if position.toNat + desc.len.toNat ≤ s.disk.size ∧ kind.matches desc then
      match transfer kind position desc s with
      | .ok _ t => ⟨kind, position, desc⟩ :: moves (some kind) rest (position + desc.len.toUInt64) t
      | .error _ _ => []
    else []
  | _, _, _, _ => []

section Transfer

variable {kind : RequestKind} {position : UInt64} {desc : Descriptor} {s : Storage}

private theorem keeps_blit (held : s.ram.contains desc.addr desc.len.toNat)
    (inside : position.toNat + desc.len.toNat ≤ s.disk.size) :
    Storage.Keeps (Move.WritesDisk ⟨.input, position, desc⟩)
      (Move.WritesMemory ⟨.input, position, desc⟩) s
      ⟨s.disk, s.ram.blit desc.addr
        (s.disk.extract position.toNat (position.toNat + desc.len.toNat))⟩ := by
  have size : (s.disk.extract position.toNat (position.toNat + desc.len.toNat)).size =
      desc.len.toNat := by
    rw [ByteArray.size_extract]
    omega
  rw [← size] at held
  refine ⟨.refl _ _, (Ram.sameOutside_blit held).mono fun i covered => ⟨rfl, ?_⟩⟩
  rw [size] at covered
  exact covered

private theorem keeps_copySlice (held : s.ram.contains desc.addr desc.len.toNat)
    (inside : position.toNat + desc.len.toNat ≤ s.disk.size) :
    Storage.Keeps (Move.WritesDisk ⟨.output, position, desc⟩)
      (Move.WritesMemory ⟨.output, position, desc⟩) s
      ⟨(s.ram.bytes.extract (Ram.offset desc.addr)
        (Ram.offset desc.addr + desc.len.toNat)).copySlice 0 s.disk position.toNat
          desc.len.toNat, s.ram⟩ := by
  have bounds := Ram.contains_iff_toNat.1 held
  have place := Ram.toNat_eq_offset held
  have whole : s.ram.size = s.ram.bytes.size := rfl
  have source : 0 + desc.len.toNat ≤ (s.ram.bytes.extract (Ram.offset desc.addr)
      (Ram.offset desc.addr + desc.len.toNat)).size := by
    rw [ByteArray.size_extract]
    omega
  exact ⟨(SameOutside.copySlice source inside).mono fun i touched => ⟨rfl, touched⟩, .refl _ _⟩

theorem ends_transfer (inside : position.toNat + desc.len.toNat ≤ s.disk.size) :
    Ends (transfer kind position desc) s
      (fun _ t => s.ram.contains desc.addr desc.len.toNat ∧
        Storage.Keeps (Move.WritesDisk ⟨kind, position, desc⟩)
          (Move.WritesMemory ⟨kind, position, desc⟩) s t)
      (fun _ t => t = s) := by
  unfold Ends transfer
  cases kind with
  | input =>
    dsimp only
    by_cases held : s.ram.contains desc.addr desc.len.toNat
    · rw [if_pos held]
      exact ⟨held, keeps_blit held inside⟩
    · rw [if_neg held]
  | output =>
    dsimp only
    by_cases held : s.ram.contains desc.addr desc.len.toNat
    · rw [if_pos held]
      exact ⟨held, keeps_copySlice held inside⟩
    · rw [if_neg held]

end Transfer

def Moved (moved : List Move) : Storage → Storage → Prop :=
  Storage.Keeps (fun i => ∃ m ∈ moved, m.WritesDisk i) (fun i => ∃ m ∈ moved, m.WritesMemory i)

private theorem Moved.refl (moved : List Move) (s : Storage) : Moved moved s s :=
  Storage.Keeps.refl _ _ s

private theorem Moved.cons {m : Move} {rest : List Move} {s t u : Storage}
    (first : Storage.Keeps m.WritesDisk m.WritesMemory s t) (later : Moved rest t u) :
    Moved (m :: rest) s u := by
  refine (first.mono ?_ ?_).trans (Storage.Keeps.mono later ?_ ?_)
  · intro i written
    exact ⟨m, List.mem_cons_self, written⟩
  · intro i written
    exact ⟨m, List.mem_cons_self, written⟩
  · rintro i ⟨n, member, written⟩
    exact ⟨n, List.mem_cons_of_mem m member, written⟩
  · rintro i ⟨n, member, written⟩
    exact ⟨n, List.mem_cons_of_mem m member, written⟩

/-- However the moves end, they write what the moved buffers are for. -/
theorem ends_transferAll (kind : Option RequestKind) (data : List Descriptor) (position : UInt64)
    (written : UInt32) (s : Storage) :
    Ends (transferAll kind data position written) s
      (fun _ t => Moved (moves kind data position s) s t)
      (fun _ t => Moved (moves kind data position s) s t) := by
  induction data generalizing position written s with
  | nil => exact ends_pure.2 (.refl _ _)
  | cons desc rest ih =>
    simp only [transferAll, ends_bind, ends_get]
    split
    next outside => exact .refl _ _
    next inside =>
      cases kind with
      | none => exact .refl _ _
      | some kind =>
        dsimp only
        split
        next facesAway => exact .refl _ _
        next faces =>
          have within : position.toNat + desc.len.toNat ≤ s.disk.size := by simpa using inside
          have toward : kind.matches desc := by simpa using faces
          have head : Ends (transfer kind position desc) s _ _ := ends_transfer within
          rw [ends_bind]
          unfold Ends at head ⊢
          rw [moves, if_pos ⟨within, toward⟩]
          cases run : transfer kind position desc s with
          | error e t =>
            rw [run] at head
            exact head ▸ .refl _ _
          | ok _ t =>
            rw [run] at head
            exact (ih _ _ t).mono (fun _ u later => .cons head.2 later)
              fun _ u later => .cons head.2 later

/-! ### Requests -/

structure Request where
  kind : Option RequestKind
  sector : UInt64
  data : List Descriptor
  last : Descriptor

namespace Request

/-- The request that a chain describes, if it has a status byte and its header can be read. -/
def read? (ram : Ram) : List Descriptor → Option Request
  | header :: second :: rest =>
    match ram.load header.addr .word, ram.load (header.addr + 8) .double with
    | .ok code, .ok sector =>
      some ⟨RequestKind.ofCode? code.toUInt32, sector, (second :: rest).dropLast,
        (second :: rest).getLast (List.cons_ne_nil second rest)⟩
    | _, _ => none
  | _ => none

theorem read?_eq_some {ram : Ram} {chain : List Descriptor} {q : Request} :
    read? ram chain = some q ↔ ∃ header second rest code sector,
      chain = header :: second :: rest ∧ ram.load header.addr .word = .ok code ∧
      ram.load (header.addr + 8) .double = .ok sector ∧
      q = ⟨RequestKind.ofCode? code.toUInt32, sector, (second :: rest).dropLast,
        (second :: rest).getLast (List.cons_ne_nil second rest)⟩ := by
  constructor
  · intro found
    unfold read? at found
    split at found
    next header second rest =>
      split at found
      next code sector first next =>
        exact ⟨header, second, rest, code, sector, rfl, first, next, (Option.some.inj found).symm⟩
      next => exact absurd found nofun
    next => exact absurd found nofun
  · rintro ⟨header, second, rest, code, sector, rfl, first, next, rfl⟩
    simp only [read?, first, next]

def statusByte (q : Request) : Region :=
  ⟨q.last.addr, 1⟩

def moves (q : Request) (s : Storage) : List Move :=
  VirtioBlock.moves q.kind q.data (sectorPosition q.sector) s

/-- What is written in guest memory when the request is carried out: the buffers moved from the
disk, and, unless a buffer leaves guest memory, the status byte. -/
def written (q : Request) (s : Storage) : List Region :=
  ((q.moves s).filter fun m => m.kind = .input).map Move.buffer ++
    match transferAll q.kind q.data (sectorPosition q.sector) 0 s with
    | .ok _ _ => [q.statusByte]
    | .error _ _ => []

end Request

private theorem ends_load {addr : UInt64} {w : Width} {s : Storage} {done : UInt64 → Storage → Prop}
    {failed : MemFault → Storage → Prop} : Ends (Storage.load addr w) s done failed ↔
      match s.ram.load addr w with
      | .ok value => done value s
      | .error e => failed e s := by
  unfold Ends Storage.load
  cases s.ram.load addr w <;> rfl

private theorem ends_store (addr : UInt64) (w : Width) (value : UInt64) (s : Storage) :
    let kept := Storage.Keeps (fun _ => False) (Region.Covers ⟨addr, w.bytes⟩) s
    Ends (Storage.store addr w value) s (fun _ t => kept t) (fun _ t => kept t) := by
  intro kept
  unfold Ends Storage.store
  by_cases held : s.ram.contains addr w.bytes
  · rw [if_pos held]
    exact ⟨.refl _ _, Ram.sameOutside_write held value⟩
  · rw [if_neg held]
    exact .refl _ _ s

namespace Request

def Served (q : Request) (s : Storage) : Storage → Prop :=
  Storage.Keeps (fun i => ∃ m ∈ q.moves s, m.WritesDisk i)
    (fun i => ∃ g ∈ q.written s, g.Covers i) s

variable {q : Request} {s t u : Storage}

private theorem Served.of_moved (moved : Moved (q.moves s) s t) : q.Served s t := by
  refine Storage.Keeps.mono moved (fun _ written => written) ?_
  rintro i ⟨m, member, input, covered⟩
  refine ⟨m.buffer, List.mem_append_left _ (List.mem_map_of_mem ?_), covered⟩
  exact List.mem_filter.2 ⟨member, decide_eq_true input⟩

private theorem Served.status (served : q.Served s t) (mem : q.statusByte ∈ q.written s)
    (stored : Storage.Keeps (fun _ => False) q.statusByte.Covers t u) : q.Served s u :=
  served.trans (stored.mono (fun _ impossible => impossible.elim)
    fun _ covered => ⟨q.statusByte, mem, covered⟩)

end Request

/-- A chain that describes no request changes nothing. -/
theorem ends_serve_of_none {chain : List Descriptor} {s : Storage}
    (none : Request.read? s.ram chain = none) :
    Ends (serve chain) s (fun _ t => t = s) (fun _ t => t = s) := by
  match chain with
  | [] | [_] => exact rfl
  | header :: second :: rest =>
    simp only [serve, ends_bind, ends_load]
    cases first : s.ram.load header.addr .word with
    | error e => trivial
    | ok code =>
      cases next : s.ram.load (header.addr + 8) .double with
      | error e => trivial
      | ok sector => simp [Request.read?, first, next] at none

def Request.carryOut (q : Request) : EStateM MemFault Storage UInt32 := do
  let (status, written) ← transferAll q.kind q.data (sectorPosition q.sector) 0
  Storage.store q.last.addr .byte status.code.toUInt64
  return addLength written 1

theorem serve_of_read? {chain : List Descriptor} {s : Storage} {q : Request}
    (found : Request.read? s.ram chain = some q) : serve chain s = q.carryOut s := by
  obtain ⟨header, second, rest, code, sector, rfl, first, next, rfl⟩ :=
    Request.read?_eq_some.1 found
  simp only [serve, Bind.bind, EStateM.bind, Storage.load, first, next]
  rfl

theorem ends_carryOut (q : Request) (s : Storage) :
    Ends q.carryOut s (fun _ t => q.Served s t) (fun _ t => q.Served s t) := by
  have moved := ends_transferAll q.kind q.data (sectorPosition q.sector) 0 s
  rw [Request.carryOut, ends_bind]
  unfold Ends at moved ⊢
  cases run : transferAll q.kind q.data (sectorPosition q.sector) 0 s with
  | error e t =>
    rw [run] at moved
    exact .of_moved moved
  | ok a t =>
    rw [run] at moved
    have mem : q.statusByte ∈ q.written s := by
      simp [Request.written, run]
    have stored := ends_store q.last.addr .byte a.1.code.toUInt64 t
    exact (stored.mono (fun _ u kept => (Request.Served.of_moved moved).status mem kept)
      fun _ u kept => (Request.Served.of_moved moved).status mem kept).bind fun _ u served => served

end RiscvBoard.VirtioBlock
