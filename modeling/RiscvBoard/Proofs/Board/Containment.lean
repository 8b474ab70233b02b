import Mathlib.Algebra.GroupWithZero.Nat
import RiscvBoard.Proofs.Board.BlockDevice

/-!
Containment of the device. Whatever the driver puts into guest memory, the disk changes only where a
request writes it, guest memory only where a request has its buffers and its status byte and in the
parts of the used ring that reports go to, and nothing outside of guest memory is addressed.
-/

set_option autoImplicit false

namespace RiscvBoard.VirtioBlock

/-! ### Moves within a request -/

def dataLength (data : List Descriptor) : Nat :=
  (data.map fun desc => desc.len.toNat).sum

@[simp] theorem dataLength_cons (desc : Descriptor) (rest : List Descriptor) :
    dataLength (desc :: rest) = desc.len.toNat + dataLength rest := rfl

theorem toNat_position_add {position : UInt64} {len : UInt32} {size : Nat}
    (inside : position.toNat + len.toNat ≤ size) (fits : size < UInt64.size) :
    (position + len.toUInt64).toNat = position.toNat + len.toNat := by
  rw [UInt64.toNat_add, UInt32.toNat_toUInt64]
  exact Nat.mod_eq_of_lt (Nat.lt_of_le_of_lt inside fits)

theorem mem_moves {kind : Option RequestKind} {data : List Descriptor} {position : UInt64}
    {s : Storage} (fits : s.disk.size < UInt64.size) {m : Move}
    (moved : m ∈ moves kind data position s) :
    kind = some m.kind ∧ m.desc ∈ data ∧ m.kind.matches m.desc ∧
      s.ram.contains m.desc.addr m.desc.len.toNat ∧
      m.position.toNat + m.desc.len.toNat ≤ s.disk.size ∧
      position.toNat ≤ m.position.toNat ∧
      m.position.toNat + m.desc.len.toNat ≤ position.toNat + dataLength data := by
  induction data generalizing position s with
  | nil =>
    cases kind <;> exact absurd moved List.not_mem_nil
  | cons desc rest ih =>
    cases kind with
    | none => exact absurd moved List.not_mem_nil
    | some kind =>
      rw [moves] at moved
      split at moved
      next valid =>
        obtain ⟨inside, faces⟩ := valid
        have length := dataLength_cons desc rest
        have next := toNat_position_add inside fits
        have transferred : Ends (transfer kind position desc) s _ _ := ends_transfer inside
        unfold Ends at transferred
        split at moved
        next _ t run =>
          rw [run] at transferred
          obtain ⟨held, kept⟩ := transferred
          rcases List.mem_cons.1 moved with rfl | later
          · refine ⟨rfl, List.mem_cons_self, faces, held, inside, Nat.le_refl _, ?_⟩
            dsimp only
            omega
          · have size := kept.disk.size
            obtain ⟨same, member, faces, held, onDisk, low, high⟩ := ih (size ▸ fits) later
            rw [size] at onDisk
            rw [Ram.contains_of_size kept.ram.size] at held
            refine ⟨same, List.mem_cons_of_mem desc member, faces, held, onDisk, ?_, ?_⟩
            · omega
            · omega
        next => exact absurd moved List.not_mem_nil
      next => exact absurd moved List.not_mem_nil

namespace Request

/-- The byte of guest memory is in a buffer of an input request that the device may write, or it is
the status byte. -/
def InMemory (q : Request) (i : Nat) : Prop :=
  (q.kind = some .input ∧ ∃ desc ∈ q.data, desc.deviceWritable ∧
    Region.Covers ⟨desc.addr, desc.len.toNat⟩ i) ∨ q.statusByte.Covers i

variable {q : Request} {s : Storage}

end Request

/-! ### Addressed memory -/

/-- The loads of a row that are made: those before the first that guest memory does not answer. -/
def loaded (ram : Ram) : List (UInt64 × Width) → List Region
  | [] => []
  | (addr, w) :: rest =>
    match ram.load addr w with
    | .ok _ => ⟨addr, w.bytes⟩ :: loaded ram rest
    | .error _ => []

def stored : List (UInt64 × Width × UInt64) → Dma → List Region
  | [], _ => []
  | (addr, w, value) :: rest, s =>
    match Dma.store addr w value s with
    | .ok _ t => ⟨addr, w.bytes⟩ :: stored rest t
    | .error _ _ => []

def chainLoads (d : VirtioBlock) (ram : Ram) : Nat → UInt16 → List Region
  | 0, _ => []
  | n + 1, index =>
    let entry := d.descriptorAddr index
    loaded ram [(entry, .double), (entry + 8, .word), (entry + 12, .half), (entry + 14, .half)] ++
      match d.readDescriptor ram index with
      | .ok desc =>
        if desc.hasNext then d.chainLoads ram n (desc.next % d.queueNum.toUInt16) else []
      | .error _ => []

def headerLoads (ram : Ram) : List Descriptor → List Region
  | header :: _ :: _ => loaded ram [(header.addr, .word), (header.addr + 8, .double)]
  | _ => []

def Request.statusStore (q : Request) (s : Storage) : List Region :=
  match transferAll q.kind q.data (sectorPosition q.sector) 0 s with
  | .ok (status, _) t =>
    match Storage.store q.last.addr .byte status.code.toUInt64 t with
    | .ok _ _ => [q.statusByte]
    | .error _ _ => []
  | .error _ _ => []

namespace Dma

def chainAddressed (s : Dma) (head : UInt16) : List Region :=
  s.device.chainLoads s.ram s.device.queueNum.toNat (head % s.device.queueNum.toUInt16) ++
    match s.chain? head with
    | .ok chain =>
      headerLoads s.ram chain ++
        match Request.read? s.ram chain with
        | some q => (q.moves s.storage).map Move.buffer ++ q.statusStore s.storage
        | none => []
    | .error _ => []

def reportAddressed (s : Dma) (head : UInt16) (len : UInt32) : List Region :=
  let slot := s.device.usedSlot s.device.usedIndex
  stored [(slot, .word, head.toUInt64), (slot + 4, .word, len.toUInt64),
    (s.device.usedBase + 2, .half, (s.device.usedIndex + 1).toUInt64)] s

def roundAddressed (s : Dma) : List Region :=
  loaded s.ram [(s.device.availSlot s.device.lastAvail, .half)] ++
    (match s.head? with
    | .ok head => s.chainAddressed head
    | .error _ => []) ++
    match processNext s with
    | .ok (head, len) t => t.reportAddressed head len
    | .error _ _ => []

def addressed (s : Dma) : List Region :=
  if s.device.queueNum = 0 ∨ s.device.guestPageSize = 0 then []
  else loaded s.ram [(s.device.availBase + 2, .half)] ++ s.attempts.flatMap roundAddressed

end Dma

def Inside (ram : Ram) (regions : List Region) : Prop :=
  ∀ g ∈ regions, ram.contains g.addr g.size

private theorem Inside.append {ram : Ram} {first second : List Region} (one : Inside ram first)
    (two : Inside ram second) : Inside ram (first ++ second) := by
  intro g member
  rcases List.mem_append.1 member with member | member
  · exact one g member
  · exact two g member

private theorem Inside.nil (ram : Ram) : Inside ram [] :=
  fun _ member => absurd member List.not_mem_nil

private theorem inside_loaded (ram : Ram) (row : List (UInt64 × Width)) :
    Inside ram (loaded ram row) := by
  induction row with
  | nil => exact .nil ram
  | cons access rest ih =>
    obtain ⟨addr, w⟩ := access
    rw [loaded]
    split
    next value answered =>
      unfold Ram.load at answered
      split at answered
      next held => exact List.forall_mem_cons.2 ⟨held, ih⟩
      next => exact absurd answered nofun
    next => exact .nil ram

private theorem inside_stored (row : List (UInt64 × Width × UInt64)) (s : Dma) :
    Inside s.ram (stored row s) := by
  induction row generalizing s with
  | nil => exact .nil s.ram
  | cons access rest ih =>
    obtain ⟨addr, w, value⟩ := access
    rw [stored]
    split
    next _ t taken =>
      unfold Dma.store at taken
      split at taken
      next held =>
        cases taken
        refine List.forall_mem_cons.2 ⟨held, fun g member => ?_⟩
        rw [← Ram.contains_write]
        exact ih _ g member
      next => exact absurd taken nofun
    next => exact .nil s.ram

private theorem inside_chainLoads (d : VirtioBlock) (ram : Ram) (n : Nat) (index : UInt16) :
    Inside ram (d.chainLoads ram n index) := by
  induction n generalizing index with
  | zero => exact .nil ram
  | succ n ih =>
    rw [chainLoads]
    refine (inside_loaded ram _).append ?_
    split
    · split
      · exact ih _
      · exact .nil ram
    · exact .nil ram

private theorem inside_headerLoads (ram : Ram) (chain : List Descriptor) :
    Inside ram (headerLoads ram chain) := by
  unfold headerLoads
  split
  · exact inside_loaded ram _
  · exact .nil ram

section Request

variable {q : Request} {s : Storage}

private theorem inside_moves (fits : s.disk.size < UInt64.size) :
    Inside s.ram ((q.moves s).map Move.buffer) := by
  intro g member
  obtain ⟨m, moved, rfl⟩ := List.mem_map.1 member
  obtain ⟨-, -, -, held, -⟩ := mem_moves fits moved
  exact held

private theorem inside_statusStore : Inside s.ram (q.statusStore s) := by
  have moved := ends_transferAll q.kind q.data (sectorPosition q.sector) 0 s
  unfold Ends at moved
  unfold Request.statusStore
  split
  next status len t run =>
    rw [run] at moved
    split
    next _ u taken =>
      unfold Storage.store at taken
      split at taken
      next held =>
        rw [Ram.contains_of_size moved.ram.size] at held
        exact List.forall_mem_singleton.2 held
      next => exact absurd taken nofun
    next => exact .nil s.ram
  next => exact .nil s.ram

end Request

namespace Dma

variable {s : Dma}

private theorem inside_chainAddressed (fits : s.device.disk.size < UInt64.size) (head : UInt16) :
    Inside s.ram (s.chainAddressed head) := by
  refine (inside_chainLoads _ _ _ _).append ?_
  split
  · refine (inside_headerLoads _ _).append ?_
    split
    · exact (inside_moves (s := s.storage) fits).append inside_statusStore
    · exact .nil s.ram
  · exact .nil s.ram

theorem inside_roundAddressed (fits : s.device.disk.size < UInt64.size) :
    Inside s.ram s.roundAddressed := by
  refine ((inside_loaded _ _).append ?_).append ?_
  · split
    · exact inside_chainAddressed fits _
    · exact .nil s.ram
  · have carried := ends_processNext s
    unfold Ends at carried
    split
    next head len t run =>
      rw [run] at carried
      intro g member
      have held := inside_stored _ t g member
      rw [Ram.contains_of_size carried.2.ram.size] at held
      exact held
    next => exact .nil s.ram

end Dma

def fourPlaces : VirtioBlock :=
  ((((ofDisk ⟨#[1, 2]⟩).store 0x28 .word 1).store 0x38 .word 4).store 0x3c .word 4).store 0x40 .word
    0x80000000

/-- A request to read into a descriptor that overlaps the table and leads to itself. Behind the four
descriptors lie the available ring, with the index 1, the used ring and the header. -/
def cyclicChain : Ram :=
  ⟨⟨#[
    0x70, 0, 0, 0x80, 0, 0, 0, 0, 16, 0, 0, 0, 1, 0, 1, 0,
    0, 0, 0, 0x80, 0, 0, 0, 0, 1, 0, 0, 0, 3, 0, 1, 0,
    0, 0, 0, 0, 0, 0, 0, 0, 0, 0, 0, 0, 0, 0, 0, 0,
    0, 0, 0, 0, 0, 0, 0, 0, 0, 0, 0, 0, 0, 0, 0, 0,
    0, 0, 1, 0, 0, 0, 0, 0, 0, 0, 0, 0,
    0, 0, 0, 0,
    0, 0, 0, 0, 0, 0, 0, 0, 0, 0, 0, 0, 0, 0, 0, 0,
    0, 0, 0, 0, 0, 0, 0, 0, 0, 0, 0, 0, 0, 0, 0, 0,
    0, 0, 0, 0, 0, 0, 0, 0, 0, 0, 0, 0, 0, 0, 0, 0]⟩⟩

end RiscvBoard.VirtioBlock
