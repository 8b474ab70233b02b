import Mathlib.Data.List.Chain
import RiscvBoard.DeviceTree.Blob
import RiscvBoard.Proofs.Bytes

/-!
A reader of flattened device trees of version 17. It follows the format and shares nothing with the
writer: it finds the blocks through the header, reads a token at each aligned place, and puts the
tree together from the tokens. What it accepts is well-formed.
-/

set_option autoImplicit false

namespace RiscvBoard.DeviceTree

def number (bytes : List UInt8) : Nat :=
  bytes.foldl (fun n byte => 256 * n + byte.toNat) 0

def slice? (bytes : List UInt8) (place length : Nat) : Option (List UInt8) :=
  if place + length ≤ bytes.length then some ((bytes.drop place).take length) else none

def wordAt? (bytes : List UInt8) (place : Nat) : Option Nat :=
  (slice? bytes place 4).map number

def textAt? (bytes : List UInt8) (place : Nat) : Option String :=
  if 0 ∈ bytes.drop place then
    String.fromUTF8? ⟨((bytes.drop place).takeWhile (· != 0)).toArray⟩
  else none

def aligned (n : Nat) : Nat :=
  (n + 3) / 4 * 4

/-! ### The header and the blocks -/

structure Header where
  magic : Nat
  totalSize : Nat
  structureAt : Nat
  stringsAt : Nat
  reservedAt : Nat
  version : Nat
  /-- The lowest version that the blob is compatible with. -/
  lastCompatible : Nat
  bootHart : Nat
  stringsSize : Nat
  structureSize : Nat

def Header.read? (blob : List UInt8) : Option Header :=
  return {
    magic := ← wordAt? blob 0
    totalSize := ← wordAt? blob 4
    structureAt := ← wordAt? blob 8
    stringsAt := ← wordAt? blob 12
    reservedAt := ← wordAt? blob 16
    version := ← wordAt? blob 20
    lastCompatible := ← wordAt? blob 24
    bootHart := ← wordAt? blob 28
    stringsSize := ← wordAt? blob 32
    structureSize := ← wordAt? blob 36 }

/-- The reserved ranges that a list names, each with its address and size, up to the entry of two
zeros that ends the list. -/
def reserved? (blob : List UInt8) (place : Nat) : Option (List (Nat × Nat)) :=
  if place + 16 ≤ blob.length then
    let address := number ((blob.drop place).take 8)
    let size := number ((blob.drop (place + 8)).take 8)
    if address = 0 ∧ size = 0 then some []
    else (reserved? blob (place + 16)).map ((address, size) :: ·)
  else none
termination_by blob.length - place

structure Block where
  start : Nat
  length : Nat

def Block.Apart (a b : Block) : Prop :=
  a.start + a.length ≤ b.start ∨ b.start + b.length ≤ a.start
  deriving Decidable

/-- The header itself, and the blocks that it places. The list of reserved ranges is as long as its
entries make it, with the one that ends it. -/
def Header.blocks (h : Header) (reserved : List (Nat × Nat)) : List Block :=
  [⟨0, 40⟩, ⟨h.reservedAt, 16 * (reserved.length + 1)⟩, ⟨h.structureAt, h.structureSize⟩,
    ⟨h.stringsAt, h.stringsSize⟩]

/-- A header fits the blob that it stands in. -/
structure Header.Describes (h : Header) (blob : List UInt8) (reserved : List (Nat × Nat)) :
    Prop where
  magic : h.magic = 0xd00dfeed
  total : h.totalSize = blob.length
  versions : h.lastCompatible ≤ 17 ∧ 17 ≤ h.version
  reservedAligned : 8 ∣ h.reservedAt
  structureAligned : 4 ∣ h.structureAt
  inside : ∀ b ∈ h.blocks reserved, b.start + b.length ≤ h.totalSize
  apart : (h.blocks reserved).Pairwise Block.Apart

instance (h : Header) (blob : List UInt8) (reserved : List (Nat × Nat)) :
    Decidable (h.Describes blob reserved) :=
  decidable_of_iff
    (h.magic = 0xd00dfeed ∧ h.totalSize = blob.length ∧ (h.lastCompatible ≤ 17 ∧ 17 ≤ h.version) ∧
      8 ∣ h.reservedAt ∧ 4 ∣ h.structureAt ∧
      (∀ b ∈ h.blocks reserved, b.start + b.length ≤ h.totalSize) ∧
      (h.blocks reserved).Pairwise Block.Apart)
    ⟨fun ⟨magic, total, versions, first, second, inside, apart⟩ =>
        ⟨magic, total, versions, first, second, inside, apart⟩,
      fun ⟨magic, total, versions, first, second, inside, apart⟩ =>
        ⟨magic, total, versions, first, second, inside, apart⟩⟩

/-! ### Tokens -/

inductive Token where
  | beginNode (name : String)
  | endNode
  | property (nameAt : Nat) (value : List UInt8)
  | nop
  | endTree
  deriving DecidableEq

def token? (block : List UInt8) (place : Nat) : Option Token := do
  match ← wordAt? block place with
  | 1 => return .beginNode (← textAt? block (place + 4))
  | 2 => return .endNode
  | 3 =>
    let length ← wordAt? block (place + 4)
    let nameAt ← wordAt? block (place + 8)
    return .property nameAt (← slice? block (place + 12) length)
  | 4 => return .nop
  | 9 => return .endTree
  | _ => none

def Token.begins : Token → Bool
  | .beginNode _ => true
  | _ => false

def Token.next (place : Nat) : Token → Nat
  | .beginNode name => aligned (place + 4 + name.utf8ByteSize + 1)
  | .property _ value => aligned (place + 12 + value.length)
  | _ => place + 4

private theorem Token.lt_next (place : Nat) (t : Token) : place < t.next place := by
  cases t <;> simp only [next, aligned] <;> omega

private theorem wordAt?_inside {bytes : List UInt8} {place n : Nat}
    (found : wordAt? bytes place = some n) : place + 4 ≤ bytes.length := by
  by_contra outside
  simp [wordAt?, slice?, outside] at found

private theorem token?_inside {block : List UInt8} {place : Nat} {t : Token}
    (found : token? block place = some t) : place + 4 ≤ block.length := by
  obtain ⟨tag, here, -⟩ := Option.bind_eq_some_iff.1 found
  exact wordAt?_inside here

/-- The tokens from a place on, each with its place. The end token comes last, and the block ends
with it. -/
def tokens? (block : List UInt8) (place : Nat) : Option (List (Nat × Token)) :=
  match _found : token? block place with
  | none => none
  | some .endTree => if place + 4 = block.length then some [(place, .endTree)] else none
  | some t => (tokens? block (t.next place)).map ((place, t) :: ·)
termination_by block.length - place
decreasing_by
  have := t.lt_next place
  have := token?_inside _found
  omega

/-! ### The tree -/

def Node.addChild : Node → Node → Node
  | ⟨name, properties, children⟩, child => ⟨name, properties, children ++ [child]⟩

def Node.addProperty? : Node → Property → Option Node
  | ⟨name, properties, []⟩, p => some ⟨name, properties ++ [p], []⟩
  | ⟨_, _, _ :: _⟩, _ => none

/-- The tree that tokens spell, below the nodes whose end is still to come, the innermost one
first. Nothing but the end token follows the root. -/
def tree? (strings : List UInt8) : List Node → List Token → Option Node
  | outer, .beginNode name :: rest => tree? strings (⟨name, [], []⟩ :: outer) rest
  | node :: outer, .property nameAt value :: rest => do
    let name ← textAt? strings nameAt
    let more ← node.addProperty? ⟨name, value⟩
    tree? strings (more :: outer) rest
  | node :: parent :: outer, .endNode :: rest => tree? strings (parent.addChild node :: outer) rest
  | [root], [.endNode, .endTree] => some root
  | _, _ => none

structure Contents where
  header : Header
  reserved : List (Nat × Nat)
  /-- The tokens of the structure block with their places. -/
  tokens : List (Nat × Token)
  root : Node

def spelling (tokens : List (Nat × Token)) : List Token :=
  (tokens.map Prod.snd).filter (· != .nop)

def read? (blob : List UInt8) : Option Contents := do
  let header ← Header.read? blob
  let reserved ← reserved? blob header.reservedAt
  if header.Describes blob reserved then
    let block ← slice? blob header.structureAt header.structureSize
    let strings ← slice? blob header.stringsAt header.stringsSize
    let tokens ← tokens? block 0
    let root ← tree? strings [] (spelling tokens)
    return ⟨header, reserved, tokens, root⟩
  else none

/-! ### What the reader accepts -/

variable {bytes block strings blob : List UInt8} {place length : Nat}

theorem slice?_eq_some {value : List UInt8} (found : slice? bytes place length = some value) :
    place + value.length ≤ bytes.length ∧ (bytes.drop place).take value.length = value := by
  unfold slice? at found
  split at found
  · next inside =>
    cases found
    have long : ((bytes.drop place).take length).length = length := by
      rw [List.length_take, List.length_drop]
      omega
    rw [long]
    exact ⟨inside, rfl⟩
  · cases found

private theorem textAt?_eq_some {name : String} (found : textAt? bytes place = some name) :
    ∃ after, bytes.drop place = name.toUTF8.data.toList ++ 0 :: after := by
  unfold textAt? at found
  split at found
  · next closed =>
    obtain ⟨text, after, split, free⟩ := List.eq_append_cons_of_mem closed
    refine ⟨after, ?_⟩
    rw [split, takeWhile_terminated free, String.fromUTF8?] at found
    split at found
    · cases found
      exact split
    · cases found
  · cases found

private theorem token?_property {nameAt : Nat} {value : List UInt8}
    (found : token? block place = some (.property nameAt value)) :
    place + 12 + value.length ≤ block.length ∧
      (block.drop (place + 12)).take value.length = value := by
  obtain ⟨tag, -, rest⟩ := Option.bind_eq_some_iff.1 found
  split at rest
  · obtain ⟨_, _, spelled⟩ := Option.bind_eq_some_iff.1 rest
    cases spelled
  · cases rest
  · obtain ⟨_, _, rest⟩ := Option.bind_eq_some_iff.1 rest
    obtain ⟨_, _, rest⟩ := Option.bind_eq_some_iff.1 rest
    obtain ⟨_, inside, spelled⟩ := Option.bind_eq_some_iff.1 rest
    cases spelled
    exact slice?_eq_some inside
  · cases rest
  · cases rest
  · cases rest

/-- Tokens lie one after the other from a place on, each where it is aligned and each with its value
inside the block. The last one is the only end token, and the block ends with it. -/
structure Tiles (block : List UInt8) (place : Nat) (tokens : List (Nat × Token)) : Prop where
  first : tokens.head?.map Prod.fst = some place
  chain : tokens.IsChain fun a b => b.1 = a.2.next a.1
  aligned : ∀ t ∈ tokens, 4 ∣ t.1
  token : ∀ t ∈ tokens, token? block t.1 = some t.2
  last : ∃ before place, tokens = before ++ [(place, .endTree)] ∧ place + 4 = block.length ∧
    ∀ t ∈ before, t.2 ≠ .endTree
  value : ∀ place nameAt value, (place, .property nameAt value) ∈ tokens →
    place + 12 + value.length ≤ block.length ∧
      (block.drop (place + 12)).take value.length = value

theorem Token.four_dvd_next (here : 4 ∣ place) (t : Token) : 4 ∣ t.next place := by
  cases t <;> simp only [next, DeviceTree.aligned] <;> omega

private theorem Tiles.endTree (here : 4 ∣ place) (read : token? block place = some .endTree)
    (ended : place + 4 = block.length) : Tiles block place [(place, .endTree)] where
  first := rfl
  chain := .singleton _
  aligned := List.forall_mem_singleton.2 here
  token := List.forall_mem_singleton.2 read
  last := ⟨[], place, rfl, ended, nofun⟩
  value := by simp

private theorem Tiles.cons {tokens : List (Nat × Token)} {t : Token} (here : 4 ∣ place)
    (read : token? block place = some t) (more : t ≠ .endTree)
    (rest : Tiles block (t.next place) tokens) : Tiles block place ((place, t) :: tokens) where
  first := rfl
  chain := by
    refine List.isChain_cons.2 ⟨fun next head => ?_, rest.chain⟩
    have first := rest.first
    rw [head] at first
    exact Option.some.inj first
  aligned := List.forall_mem_cons.2 ⟨here, rest.aligned⟩
  token := List.forall_mem_cons.2 ⟨read, rest.token⟩
  last := by
    obtain ⟨before, last, rfl, ended, only⟩ := rest.last
    exact ⟨(place, t) :: before, last, rfl, ended, List.forall_mem_cons.2 ⟨more, only⟩⟩
  value at' nameAt value found := by
    rcases List.mem_cons.1 found with same | later
    · cases same
      exact token?_property read
    · exact rest.value at' nameAt value later

private theorem tokens?_tiles {tokens : List (Nat × Token)} (here : 4 ∣ place)
    (found : tokens? block place = some tokens) : Tiles block place tokens := by
  fun_induction tokens? block place generalizing tokens with
  | case1 => cases found
  | case2 place read ended =>
    cases found
    exact .endTree here read ended
  | case3 => cases found
  | case4 place t other read ih =>
    obtain ⟨rest, more, rfl⟩ := Option.map_eq_some_iff.1 found
    exact .cons here read other (ih (t.four_dvd_next here) more)

/-- Tokens end the nodes that they begin and as many open ones as the depth says. At least one node
is open before each of them but the first one and the last one, which comes after the tree. At
depth zero that one node is the root. -/
structure Balanced (depth : Nat) (tokens : List Token) : Prop where
  inner : ∀ k, k + 1 < tokens.length → 0 < k + depth →
    (tokens.take k).count .endNode < (tokens.take k).countP Token.begins + depth
  whole : tokens.count .endNode = tokens.countP Token.begins + depth
  last : tokens.getLast? = some .endTree

private theorem Balanced.cons {depth below : Nat} {t : Token} {tokens : List Token}
    (rest : Balanced below tokens) (inside : 0 < below)
    (step : below + (if t == .endNode then 1 else 0) = depth + if t.begins then 1 else 0) :
    Balanced depth (t :: tokens) where
  inner
    | 0, _, deep => by simpa using deep
    | k + 1, short, _ => by
      have later := rest.inner k (Nat.lt_of_succ_lt_succ short) (by omega)
      rw [List.take_succ_cons, List.count_cons, List.countP_cons]
      omega
  whole := by
    have later := rest.whole
    rw [List.count_cons, List.countP_cons]
    omega
  last := by
    rw [List.getLast?_cons, rest.last]
    rfl

private theorem tree?_balanced {outer : List Node} {tokens : List Token} {root : Node}
    (found : tree? strings outer tokens = some root) : Balanced outer.length tokens := by
  fun_induction tree? strings outer tokens with
  | case1 outer name rest ih => exact (ih found).cons (Nat.succ_pos _) rfl
  | case2 outer node nameAt value rest ih =>
    obtain ⟨name, -, found⟩ := Option.bind_eq_some_iff.1 found
    obtain ⟨more, -, found⟩ := Option.bind_eq_some_iff.1 found
    exact (ih more found).cons (Nat.succ_pos _) rfl
  | case3 node parent outer rest ih => exact (ih found).cons (Nat.succ_pos _) rfl
  | case4 root =>
    refine ⟨fun k short _ => ?_, rfl, rfl⟩
    obtain rfl : k = 0 := by
      simp only [List.length_cons, List.length_nil] at short
      omega
    exact Nat.one_pos
  | case5 => cases found

private theorem tree?_named {outer : List Node} {tokens : List Token} {root : Node}
    (found : tree? strings outer tokens = some root) {nameAt : Nat} {value : List UInt8}
    (used : .property nameAt value ∈ tokens) : ∃ name, textAt? strings nameAt = some name := by
  fun_induction tree? strings outer tokens with
  | case1 outer name rest ih =>
    rcases List.mem_cons.1 used with same | later
    · cases same
    · exact ih found later
  | case2 outer node nameAt' value' rest ih =>
    obtain ⟨name, here, found⟩ := Option.bind_eq_some_iff.1 found
    obtain ⟨more, -, found⟩ := Option.bind_eq_some_iff.1 found
    rcases List.mem_cons.1 used with same | later
    · cases same
      exact ⟨name, here⟩
    · exact ih more found later
  | case3 node parent outer rest ih =>
    rcases List.mem_cons.1 used with same | later
    · cases same
    · exact ih found later
  | case4 root => simp at used
  | case5 => cases found

/-- The contents of a blob are well-formed: the header fits, the tokens tile the structure block and
are balanced, and each property has its name, closed by a zero, in the strings block. -/
structure Contents.WellFormed (c : Contents) (blob : List UInt8) : Prop where
  header : Header.read? blob = some c.header
  reserved : reserved? blob c.header.reservedAt = some c.reserved
  describes : c.header.Describes blob c.reserved
  tokens : ∃ block strings,
    slice? blob c.header.structureAt c.header.structureSize = some block ∧
    slice? blob c.header.stringsAt c.header.stringsSize = some strings ∧
    Tiles block 0 c.tokens ∧
    Balanced 0 (spelling c.tokens) ∧
    ∀ place nameAt value, (place, .property nameAt value) ∈ c.tokens →
      ∃ (name : String) (after : List UInt8),
        strings.drop nameAt = name.toUTF8.data.toList ++ 0 :: after

theorem read?_wellFormed {c : Contents} (found : read? blob = some c) : c.WellFormed blob := by
  obtain ⟨header, head, found⟩ := Option.bind_eq_some_iff.1 found
  obtain ⟨reserved, ranges, found⟩ := Option.bind_eq_some_iff.1 found
  split at found
  · next describes =>
    obtain ⟨block, structure', found⟩ := Option.bind_eq_some_iff.1 found
    obtain ⟨strings, texts, found⟩ := Option.bind_eq_some_iff.1 found
    obtain ⟨tokens, lexed, found⟩ := Option.bind_eq_some_iff.1 found
    obtain ⟨root, built, found⟩ := Option.bind_eq_some_iff.1 found
    cases found
    refine ⟨head, ranges, describes, block, strings, structure', texts,
      tokens?_tiles (Nat.dvd_zero 4) lexed, tree?_balanced built, ?_⟩
    intro place nameAt value used
    have spelled : .property nameAt value ∈ spelling tokens :=
      List.mem_filter.2 ⟨List.mem_map_of_mem used, rfl⟩
    obtain ⟨name, here⟩ := tree?_named built spelled
    exact ⟨name, textAt?_eq_some here⟩
  · cases found

end RiscvBoard.DeviceTree
