import RiscvBoard.Proofs.Board.Containment

/-!
The arithmetic of the device on words of 64 bits. However the driver sets up the queue, every
address that the device computes is the number that it stands for, and a request moves neither the
address of its header nor its position on the disk beyond the largest word.
-/

set_option autoImplicit false

namespace RiscvBoard.VirtioBlock

def IsWord (n : Nat) (word : UInt64) : Prop :=
  n < 2 ^ 64 ∧ word.toNat = n

private theorem IsWord.of_eq {n : Nat} {word : UInt64} (exact : word.toNat = n) : IsWord n word :=
  ⟨exact ▸ word.toNat_lt, exact⟩

/-! ### Addresses of the queue -/

def availStart (d : VirtioBlock) : Nat :=
  d.queuePage.toNat * d.guestPageSize.toNat + 16 * d.queueNum.toNat

/-- Where the used ring begins: at the first multiple of the alignment after the available ring. -/
def usedStart (d : VirtioBlock) : Nat :=
  roundUp (d.availStart + 4 + 2 * d.queueNum.toNat) (max d.queueAlign.toNat 1)

/-- The addresses that the device computes for a queue, each as the number that it stands for. A sum
is the last one of its partial sums. -/
structure ExactAddresses (d : VirtioBlock) : Prop where
  queueBase : IsWord (d.queuePage.toNat * d.guestPageSize.toNat) d.queueBase
  availBase : IsWord d.availStart d.availBase
  availIndex : IsWord (d.availStart + 2) (d.availBase + 2)
  availEnd : IsWord (d.availStart + 4 + 2 * d.queueNum.toNat) d.availEnd
  usedBase : IsWord d.usedStart d.usedBase
  usedIndex : IsWord (d.usedStart + 2) (d.usedBase + 2)
  /-- The fields of a descriptor begin at the bytes 0, 8, 12 and 14. -/
  descriptor : ∀ (index : UInt16) (place : UInt64), place.toNat < 16 →
    IsWord (d.queuePage.toNat * d.guestPageSize.toNat + 16 * index.toNat + place.toNat)
      (d.descriptorAddr index + place)
  availSlot : ∀ index : UInt16,
    IsWord (d.availStart + 4 + 2 * (index.toNat % d.queueNum.toNat)) (d.availSlot index)
  usedSlot : ∀ index : UInt16,
    IsWord (d.usedStart + 4 + 8 * (index.toNat % d.queueNum.toNat)) (d.usedSlot index)
  usedLength : ∀ index : UInt16,
    IsWord (d.usedStart + 4 + 8 * (index.toNat % d.queueNum.toNat) + 4) (d.usedSlot index + 4)

private theorem exactAddresses {d : VirtioBlock} (few : d.queueNum ≤ queueNumMax) :
    d.ExactAddresses := by
  have base := toNat_queueBase d
  have bound := toNat_queueNum_le few
  have availBase : d.availBase.toNat = d.availStart := by
    rw [toNat_availBase few, base.1]
    rfl
  have availEnd : d.availEnd.toNat = d.availStart + 4 + 2 * d.queueNum.toNat := by
    rw [toNat_availEnd few, availBase]
  have usedBase : d.usedBase.toNat = d.usedStart := by
    rw [toNat_usedBase few, availEnd]
    rfl
  constructor
  · exact .of_eq base.1
  · exact .of_eq availBase
  · refine .of_eq ?_
    have start := toNat_availBase few
    have two : (2 : UInt64).toNat = 2 := rfl
    rw [UInt64.toNat_add, two, ← availBase]
    omega
  · exact .of_eq availEnd
  · exact .of_eq usedBase
  · refine .of_eq ?_
    rw [← usedBase]
    exact toNat_usedIndexField few
  · intro index place short
    refine .of_eq ?_
    have small := index.toNat_lt
    rw [UInt64.toNat_add, toNat_descriptorAddr, base.1]
    omega
  · intro index
    refine .of_eq ?_
    rw [toNat_availSlot few, availBase]
  · intro index
    refine .of_eq ?_
    rw [toNat_usedSlot few, usedBase]
  · intro index
    refine .of_eq ?_
    rw [toNat_usedSlot_length few, toNat_usedSlot few, usedBase]

/-! ### Requests -/

/-- The sums that are formed for a request: the place of the sector in its header, once the kind in
front of it has been read, and the position on the disk after each buffer that was moved. -/
structure ExactSums (s : Storage) (chain : List Descriptor) : Prop where
  header : ∀ header second rest code, chain = header :: second :: rest →
    s.ram.load header.addr .word = .ok code →
    IsWord (header.addr.toNat + 8) (header.addr + 8)
  position : ∀ q, Request.read? s.ram chain = some q → ∀ m ∈ q.moves s,
    IsWord (m.position.toNat + m.desc.len.toNat) (m.position + m.desc.len.toUInt64)

private theorem exactSums {s : Storage} (memory : s.ram.size < 2 ^ 63)
    (disk : s.disk.size < UInt64.size) (chain : List Descriptor) : ExactSums s chain := by
  constructor
  · intro header second rest code _ loaded
    have held := (Ram.contains_iff_toNat.1 (Ram.contains_of_load loaded)).2
    have start : Ram.base.toNat = 0x80000000 := rfl
    have eight : (8 : UInt64).toNat = 8 := rfl
    refine .of_eq ?_
    rw [UInt64.toNat_add, eight]
    omega
  · intro q _ m moved
    obtain ⟨-, -, -, -, inside, -⟩ := mem_moves disk moved
    exact .of_eq (toNat_position_add inside disk)

/-- No driver makes the arithmetic of the device wrap around. -/
theorem arithmetic_exact {d : VirtioBlock} (reached : d.Reachable) {s : Storage}
    (memory : s.ram.size < 2 ^ 63) (disk : s.disk.size < UInt64.size) (chain : List Descriptor) :
    d.ExactAddresses ∧ ExactSums s chain :=
  ⟨exactAddresses reached.few, exactSums memory disk chain⟩

def highestQueue : VirtioBlock :=
  ((((ofDisk ⟨#[1, 2]⟩).store 0x28 .word 0xffffffff).store 0x38 .word 0xffffffff).store 0x3c .word
    0xffffffff).store 0x40 .word 0xffffffff

/-- The used ring of the highest queue begins so close to the largest word that one more alignment
would not fit. -/
theorem arithmetic_exact_highestQueue :
    let s : Storage := ⟨⟨#[1, 2]⟩, cyclicChain⟩
    let chain : List Descriptor := [⟨0x80000070, 16, 1, 1⟩, ⟨0x80000000, 1, 3, 1⟩, ⟨0, 1, 2, 0⟩]
    highestQueue.Reachable ∧ highestQueue.usedBase.toNat = 2 ^ 64 - 2 ^ 32 ∧
      (Request.read? s.ram chain).map (fun q => (q.moves s).map Move.position) = some [0] ∧
      highestQueue.ExactAddresses ∧ ExactSums s chain := by
  intro s chain
  have reached : highestQueue.Reachable :=
    ((((Reachable.ofDisk ⟨#[1, 2]⟩ (by decide)).store _ _ _).store _ _ _).store _ _ _).store _ _ _
  refine ⟨reached, by decide +kernel, by decide +kernel, arithmetic_exact reached ?_ ?_ chain⟩
  · decide +kernel
  · decide

end RiscvBoard.VirtioBlock
