import Mathlib.Tactic.Ring
import RiscvBoard.DeviceTree.Board
import RiscvBoard.Proofs.DeviceTree.Reader

/-!
The flattened form of a tree is read back as that tree. The writer's bytes are cut into tokens, each
of which the reader finds where it was written, and the tokens of a node lead the reader from the
nodes around it to that node.
-/

set_option autoImplicit false

namespace RiscvBoard.DeviceTree

variable {blob block strings after value : List UInt8} {place length : Nat}

/-! ### Bytes in their places -/

private theorem number_word (n : UInt32) : number (word n) = n.toNat := by
  have high (k : UInt32) (short : k.toNat < 32) :
      (n >>> k).toUInt8.toNat = n.toNat / 2 ^ k.toNat % 256 := by
    rw [UInt32.toNat_toUInt8, UInt32.toNat_shiftRight, Nat.mod_eq_of_lt short,
      Nat.shiftRight_eq_div_pow]
  have bound := n.toNat_lt
  simp only [number, word, List.foldl_cons, List.foldl_nil, high 24 (by decide),
    high 16 (by decide), high 8 (by decide), UInt32.toNat_toUInt8]
  show 256 * (256 * (256 * (256 * 0 + n.toNat / 2 ^ 24 % 256) + n.toNat / 2 ^ 16 % 256) +
    n.toNat / 2 ^ 8 % 256) + n.toNat % 256 = n.toNat
  omega

private theorem toNat_toUInt32_of_lt {n : Nat} (small : n < 2 ^ 32) : n.toUInt32.toNat = n :=
  Nat.mod_eq_of_lt small

private theorem foldl_number (n : Nat) (bytes : List UInt8) :
    bytes.foldl (fun n byte => 256 * n + byte.toNat) n = 256 ^ bytes.length * n + number bytes := by
  induction bytes generalizing n with
  | nil => simp [number]
  | cons byte rest ih =>
    rw [number, List.foldl_cons, List.foldl_cons, ih, ih (256 * 0 + byte.toNat), List.length_cons,
      Nat.pow_succ]
    ring

private theorem number_append (a b : List UInt8) :
    number (a ++ b) = 256 ^ b.length * number a + number b := by
  rw [number, List.foldl_append, foldl_number]
  rfl

private theorem number_doubleWord (n : UInt64) : number (doubleWord n) = n.toNat := by
  have bound := n.toNat_lt
  have high : (n >>> 32).toUInt32.toNat = n.toNat / 2 ^ 32 % 2 ^ 32 := by
    rw [UInt64.toNat_toUInt32, UInt64.toNat_shiftRight, Nat.shiftRight_eq_div_pow]
    rfl
  rw [doubleWord, number_append, number_word, number_word, high, UInt64.toNat_toUInt32]
  show 256 ^ 4 * (n.toNat / 2 ^ 32 % 2 ^ 32) + n.toNat % 2 ^ 32 = n.toNat
  omega

/-- From a place on, a blob goes on with the given bytes up to its end. -/
def Continues (blob : List UInt8) (place : Nat) (rest : List UInt8) : Prop :=
  ∃ before, before.length = place ∧ blob = before ++ rest

namespace Continues

private theorem skip (length : Nat) (reached : Continues blob place (value ++ after))
    (long : value.length = length) : Continues blob (place + length) after := by
  obtain ⟨before, rfl, rfl⟩ := reached
  exact ⟨before ++ value, by rw [List.length_append, long], (List.append_assoc ..).symm⟩

private theorem length_eq (reached : Continues blob place after) :
    blob.length = place + after.length := by
  obtain ⟨before, rfl, rfl⟩ := reached
  exact List.length_append

private theorem slice (length : Nat) (reached : Continues blob place (value ++ after))
    (long : value.length = length) : slice? blob place length = some value := by
  obtain ⟨before, rfl, rfl⟩ := reached
  subst long
  rw [slice?, if_pos (by simp only [List.length_append]; omega), List.drop_left, List.take_left]

private theorem word {n : UInt32} (reached : Continues blob place (word n ++ after)) :
    wordAt? blob place = some n.toNat := by
  rw [wordAt?, reached.slice 4 rfl, Option.map_some, number_word]

private theorem text {name : String} (free : 0 ∉ name.toUTF8.data.toList)
    (reached : Continues blob place (textBytes name ++ after)) :
    textAt? blob place = some name := by
  obtain ⟨before, rfl, rfl⟩ := reached
  have closed : textBytes name ++ after = name.toUTF8.data.toList ++ 0 :: after := by
    rw [textBytes, List.append_assoc]
    rfl
  rw [textAt?, List.drop_left, closed, if_pos (by simp), takeWhile_terminated free]
  exact dif_pos name.isValidUTF8

end Continues

private theorem length_padded (bytes : List UInt8) :
    (padded bytes).length = aligned bytes.length := by
  rw [padded, List.length_append, List.length_replicate, aligned]
  omega

/-! ### Tokens -/

def Token.bytes : Token → List UInt8
  | .beginNode name => word DeviceTree.beginNode ++ padded (textBytes name)
  | .endNode => word DeviceTree.endNode
  | .property nameAt value =>
    word propertyToken ++ word value.length.toUInt32 ++ word nameAt.toUInt32 ++ padded value
  | .nop => word 4
  | .endTree => word DeviceTree.endTree

def Token.Writable : Token → Prop
  | .beginNode name => 0 ∉ name.toUTF8.data.toList
  | .property nameAt value => nameAt < 2 ^ 32 ∧ value.length < 2 ^ 32
  | _ => True

private theorem Token.next_eq_add (here : 4 ∣ place) (t : Token) :
    t.next place = place + t.bytes.length := by
  cases t with
  | beginNode name =>
    have text : (textBytes name).length = name.utf8ByteSize + 1 := List.length_append
    simp only [next, bytes, List.length_append, length_padded, text, aligned]
    show (place + 4 + name.utf8ByteSize + 1 + 3) / 4 * 4 = place + (4 + _)
    omega
  | property nameAt value =>
    simp only [next, bytes, List.length_append, length_padded, aligned]
    show (place + 12 + value.length + 3) / 4 * 4 = place + (4 + 4 + 4 + _)
    omega
  | endNode => rfl
  | nop => rfl
  | endTree => rfl

private theorem token?_of_continues {t : Token} (writable : t.Writable)
    (reached : Continues block place (t.bytes ++ after)) : token? block place = some t := by
  cases t with
  | beginNode name =>
    rw [Token.bytes, padded, List.append_assoc] at reached
    have text := reached.skip 4 rfl
    rw [List.append_assoc] at text
    rw [token?, reached.word]
    show (textAt? block (place + 4)).bind _ = _
    rw [text.text writable]
    rfl
  | property nameAt value =>
    obtain ⟨smallPlace, smallValue⟩ := writable
    simp only [Token.bytes, padded, List.append_assoc] at reached
    have size := reached.skip 4 rfl
    have name := size.skip 4 rfl
    have content := name.skip 4 rfl
    have size := size.word
    have name := name.word
    rw [toNat_toUInt32_of_lt smallValue] at size
    rw [toNat_toUInt32_of_lt smallPlace] at name
    rw [token?, reached.word]
    show (wordAt? block (place + 4)).bind _ = _
    rw [size]
    show (wordAt? block (place + 4 + 4)).bind _ = _
    rw [name]
    show (slice? block (place + 4 + 4 + 4) value.length).bind _ = _
    rw [content.slice _ rfl]
    rfl
  | endNode =>
    rw [token?, Continues.word reached]
    rfl
  | nop =>
    rw [token?, Continues.word reached]
    rfl
  | endTree =>
    rw [token?, Continues.word reached]
    rfl

private theorem tokens?_endTree (read : token? block place = some .endTree)
    (ended : place + 4 = block.length) : tokens? block place = some [(place, .endTree)] := by
  rw [tokens?]
  split
  · next none => simp [read] at none
  · rw [if_pos ended]
  · next other read' => exact (other (Option.some.inj (read'.symm.trans read))).elim

private theorem tokens?_of_token? {t : Token} (read : token? block place = some t)
    (more : t ≠ .endTree) :
    tokens? block place = (tokens? block (t.next place)).map ((place, t) :: ·) := by
  rw [tokens?]
  split
  · next none => simp [read] at none
  · next last => exact absurd (Option.some.inj (read.symm.trans last)) more
  · next other read' =>
    obtain rfl := Option.some.inj (read.symm.trans read')
    rfl

private theorem tokens?_of_continues {tokens : List Token} (writable : ∀ t ∈ tokens, t.Writable)
    (more : .endTree ∉ tokens) (here : 4 ∣ place)
    (reached : Continues block place (tokens.flatMap Token.bytes ++ word endTree)) :
    ∃ placed, tokens? block place = some placed ∧
      placed.map Prod.snd = tokens ++ [.endTree] := by
  induction tokens generalizing place with
  | nil =>
    have read : token? block place = some .endTree :=
      token?_of_continues trivial
        (show Continues block place (Token.endTree.bytes ++ []) from reached)
    exact ⟨_, tokens?_endTree read reached.length_eq.symm, rfl⟩
  | cons t rest ih =>
    obtain ⟨writable, later⟩ := List.forall_mem_cons.1 writable
    rw [List.flatMap_cons, List.append_assoc] at reached
    have read : token? block place = some t := token?_of_continues writable reached
    obtain ⟨placed, found, same⟩ := ih later (fun ended => more (List.mem_cons_of_mem _ ended))
      (t.four_dvd_next here) (t.next_eq_add here ▸ reached.skip _ rfl)
    refine ⟨(place, t) :: placed, ?_, by rw [List.map_cons, same]; rfl⟩
    rw [tokens?_of_token? read fun ended => more (ended ▸ List.mem_cons_self), found]
    rfl

/-! ### Names -/

namespace NameTable

variable {table : NameTable} {name : String}

private theorem continues_position (found : name ∈ table) :
    ∃ after, Continues table.bytes (table.position name) (textBytes name ++ after) := by
  induction table with
  | nil => cases found
  | cons other rest ih =>
    by_cases same : other = name
    · subst same
      refine ⟨NameTable.bytes rest, [], ?_, rfl⟩
      rw [position, List.takeWhile_cons_of_neg (by simp)]
      rfl
    · have here :
          position (other :: rest) name = (textBytes other).length + position rest name := by
        rw [position, List.takeWhile_cons_of_pos (p := (· != name)) (bne_iff_ne.2 same),
          NameTable.bytes, List.flatMap_cons, List.length_append]
        rfl
      obtain ⟨after, before, long, split⟩ := ih (List.mem_of_ne_of_mem (Ne.symm same) found)
      refine ⟨after, textBytes other ++ before, by rw [List.length_append, long, here], ?_⟩
      rw [NameTable.bytes, List.flatMap_cons, List.append_assoc, ← split]
      rfl

private theorem position_lt (found : name ∈ table) : table.position name < table.bytes.length := by
  obtain ⟨after, reached⟩ := continues_position found
  have long : (textBytes name).length = name.toUTF8.data.toList.length + 1 := List.length_append
  rw [reached.length_eq, List.length_append, long]
  omega

private theorem mem_add {other : String} :
    name ∈ table.add other ↔ name ∈ table ∨ name = other := by
  unfold add
  split
  · next known =>
    refine ⟨.inl, fun found => found.elim id fun same => ?_⟩
    exact same ▸ List.contains_iff_mem.1 known
  · rw [List.mem_append, List.mem_singleton]

private theorem mem_foldl_add {names : List String} :
    name ∈ names.foldl add table ↔ name ∈ table ∨ name ∈ names := by
  induction names generalizing table with
  | nil => simp
  | cons other rest ih => rw [List.foldl_cons, ih, mem_add, List.mem_cons, or_assoc]

end NameTable

private theorem Node.mem_nameTable {root : Node} {name : String} :
    name ∈ root.nameTable ↔ name ∈ root.names := by
  rw [nameTable, NameTable.mem_foldl_add]
  simp

/-! ### Trees as tokens -/

mutual

def Node.spelled (table : NameTable) : Node → List Token
  | ⟨name, properties, children⟩ =>
    .beginNode name :: (properties.map fun p => .property (table.position p.name) p.value) ++
      Node.spelledAll table children ++ [.endNode]

def Node.spelledAll (table : NameTable) : List Node → List Token
  | [] => []
  | node :: rest => node.spelled table ++ Node.spelledAll table rest

end

mutual

private theorem Node.tokens_eq_flatMap (table : NameTable) : ∀ node : Node,
    node.tokens table = (node.spelled table).flatMap Token.bytes
  | ⟨name, properties, children⟩ => by
    have inner := Node.tokensOfAll_eq_flatMap table children
    rw [Node.tokens, Node.spelled, inner]
    simp only [List.flatMap_append, List.flatMap_cons, List.flatMap_nil, List.append_nil,
      List.flatMap_map, List.cons_append, List.append_assoc]
    rfl

private theorem Node.tokensOfAll_eq_flatMap (table : NameTable) : ∀ nodes : List Node,
    Node.tokensOfAll table nodes = (Node.spelledAll table nodes).flatMap Token.bytes
  | [] => rfl
  | node :: rest => by
    rw [Node.tokensOfAll, Node.spelledAll, List.flatMap_append,
      Node.tokens_eq_flatMap table node, Node.tokensOfAll_eq_flatMap table rest]

end

mutual

def Node.labels : Node → List String
  | ⟨name, _, children⟩ => name :: Node.labelsOfAll children

def Node.labelsOfAll : List Node → List String
  | [] => []
  | node :: rest => node.labels ++ Node.labelsOfAll rest

end

def Token.Of (labels names : List String) (table : NameTable) : Token → Prop
  | .beginNode name => name ∈ labels
  | .endNode => True
  | .property nameAt _ => ∃ name ∈ names, nameAt = table.position name
  | _ => False

private theorem Token.Of.mono {labels names moreLabels moreNames : List String} {table : NameTable}
    {t : Token} (own : t.Of labels names table) (first : labels ⊆ moreLabels)
    (second : names ⊆ moreNames) : t.Of moreLabels moreNames table := by
  cases t with
  | beginNode name => exact first own
  | endNode => trivial
  | property nameAt value =>
    obtain ⟨name, used, here⟩ := own
    exact ⟨name, second used, here⟩
  | nop => exact own.elim
  | endTree => exact own.elim

mutual

private theorem Node.of_mem_spelled (table : NameTable) : ∀ node : Node, ∀ t ∈ node.spelled table,
    t.Of node.labels node.names table
  | ⟨name, properties, children⟩ => by
    intro t found
    rw [Node.spelled, List.mem_append, List.mem_append, List.mem_cons, List.mem_map,
      List.mem_singleton] at found
    rcases found with ((rfl | ⟨p, used, rfl⟩) | inner) | rfl
    · exact List.mem_cons_self
    · exact ⟨p.name, List.mem_append_left _ (List.mem_map_of_mem used), rfl⟩
    · exact (Node.of_mem_spelledAll table children t inner).mono (List.subset_cons_self ..)
        (List.subset_append_right ..)
    · trivial

private theorem Node.of_mem_spelledAll (table : NameTable) : ∀ nodes : List Node,
    ∀ t ∈ Node.spelledAll table nodes,
      t.Of (Node.labelsOfAll nodes) (Node.namesOfAll nodes) table
  | [] => nofun
  | node :: rest => by
    intro t found
    rcases List.mem_append.1 found with first | later
    · exact (Node.of_mem_spelled table node t first).mono (List.subset_append_left ..)
        (List.subset_append_left ..)
    · exact (Node.of_mem_spelledAll table rest t later).mono (List.subset_append_right ..)
        (List.subset_append_right ..)

end

/-! ### Tokens as trees -/

private theorem tree?_properties {table : NameTable} {name : String}
    {done properties : List Property}
    (named : ∀ p ∈ properties, textAt? strings (table.position p.name) = some p.name)
    (outer : List Node) (rest : List Token) :
    tree? strings (⟨name, done, []⟩ :: outer)
        ((properties.map fun p => .property (table.position p.name) p.value) ++ rest) =
      tree? strings (⟨name, done ++ properties, []⟩ :: outer) rest := by
  induction properties generalizing done with
  | nil => rw [List.append_nil]; rfl
  | cons p more ih =>
    obtain ⟨here, later⟩ := List.forall_mem_cons.1 named
    rw [List.map_cons, List.cons_append, tree?, here]
    show tree? strings (⟨name, done ++ [p], []⟩ :: outer) _ = _
    rw [ih later, List.append_assoc]
    rfl

mutual

private theorem tree?_spelled {table : NameTable} : ∀ (node : Node),
    (∀ name ∈ node.names, textAt? strings (table.position name) = some name) →
    ∀ (outer : List Node) (rest : List Token),
      tree? strings outer (node.spelled table ++ rest) =
        tree? strings (node :: outer) (.endNode :: rest)
  | ⟨name, properties, children⟩, named, outer, rest => by
    have own : ∀ p ∈ properties, textAt? strings (table.position p.name) = some p.name :=
      fun p used => named p.name (List.mem_append_left _ (List.mem_map_of_mem used))
    have inner := tree?_spelledAll children
      (fun name used => named name (List.mem_append_right _ used)) name properties [] outer
      (.endNode :: rest)
    rw [Node.spelled, List.append_assoc, List.append_assoc, List.cons_append, tree?,
      tree?_properties own]
    exact inner

private theorem tree?_spelledAll {table : NameTable} : ∀ (nodes : List Node),
    (∀ name ∈ Node.namesOfAll nodes, textAt? strings (table.position name) = some name) →
    ∀ (name : String) (properties : List Property) (done outer : List Node) (rest : List Token),
      tree? strings (⟨name, properties, done⟩ :: outer) (Node.spelledAll table nodes ++ rest) =
        tree? strings (⟨name, properties, done ++ nodes⟩ :: outer) rest
  | [], _, name, properties, done, outer, rest => by
    rw [List.append_nil]
    rfl
  | node :: more, named, name, properties, done, outer, rest => by
    have first := tree?_spelled node (fun name used => named name (List.mem_append_left _ used))
      (⟨name, properties, done⟩ :: outer) (Node.spelledAll table more ++ rest)
    have later := tree?_spelledAll more
      (fun name used => named name (List.mem_append_right _ used)) name properties (done ++ [node])
      outer rest
    rw [Node.spelledAll, List.append_assoc, first, tree?, Node.addChild, later, List.append_assoc]
    rfl

end

/-! ### Blobs -/

private theorem wordAt?_of_words {ns : List Nat} {i n : Nat} (listed : ns[i]? = some n)
    (small : n < 2 ^ 32)
    (reached : Continues blob place (ns.flatMap (fun n => word n.toUInt32) ++ after)) :
    wordAt? blob (place + 4 * i) = some n := by
  induction ns generalizing place i with
  | nil => cases listed
  | cons first rest ih =>
    rw [List.flatMap_cons, List.append_assoc] at reached
    cases i with
    | zero =>
      cases listed
      rw [← toNat_toUInt32_of_lt small]
      exact reached.word
    | succ i =>
      rw [Nat.mul_succ, Nat.add_comm (4 * i), ← Nat.add_assoc]
      exact ih listed (reached.skip _ rfl)

def Node.Clean (root : Node) : Prop :=
  ∀ name ∈ root.labels ++ root.names, 0 ∉ name.toUTF8.data.toList

namespace Node

variable {root : Node}

def header (root : Node) : Header where
  magic := 0xd00dfeed
  totalSize := 56 + root.structureBlock.length + root.nameTable.bytes.length
  structureAt := 56
  stringsAt := 56 + root.structureBlock.length
  reservedAt := 40
  version := 17
  lastCompatible := 16
  bootHart := 0
  stringsSize := root.nameTable.bytes.length
  structureSize := root.structureBlock.length

def headerWords (root : Node) : List Nat :=
  let h := root.header
  [h.magic, h.totalSize, h.structureAt, h.stringsAt, h.reservedAt, h.version, h.lastCompatible,
    h.bootHart, h.stringsSize, h.structureSize]

private theorem flatten_eq (root : Node) : root.flatten =
    root.headerWords.flatMap (fun n => word n.toUInt32) ++
      (List.replicate 16 0 ++ (root.structureBlock ++ (root.nameTable.bytes ++ []))) := by
  simp only [flatten, List.append_assoc, List.append_nil]
  rfl

private theorem length_flatten (root : Node) : root.flatten.length = root.header.totalSize := by
  rw [flatten, List.length_append, List.length_append]
  rfl

private theorem continues_header (root : Node) : Continues root.flatten 0
    (root.headerWords.flatMap (fun n => word n.toUInt32) ++
      (List.replicate 16 0 ++ (root.structureBlock ++ (root.nameTable.bytes ++ [])))) :=
  ⟨[], rfl, root.flatten_eq⟩

private theorem continues_reserved (root : Node) : Continues root.flatten 40
    (List.replicate 16 0 ++ (root.structureBlock ++ (root.nameTable.bytes ++ []))) :=
  root.continues_header.skip 40 rfl

private theorem continues_structure (root : Node) : Continues root.flatten 56
    (root.structureBlock ++ (root.nameTable.bytes ++ [])) :=
  root.continues_reserved.skip 16 List.length_replicate

private theorem continues_strings (root : Node) :
    Continues root.flatten root.header.stringsAt (root.nameTable.bytes ++ []) :=
  root.continues_structure.skip _ rfl

private theorem header_read? (small : root.flatten.length < 2 ^ 32) :
    Header.read? root.flatten = some root.header := by
  rw [length_flatten] at small
  have total : root.header.totalSize =
    56 + root.header.structureSize + root.header.stringsSize := rfl
  have strings : root.header.stringsAt = 56 + root.header.structureSize := rfl
  have here {i n : Nat} (listed : root.headerWords[i]? = some n) (small : n < 2 ^ 32) :
      wordAt? root.flatten (4 * i) = some n := by
    have := wordAt?_of_words listed small root.continues_header
    rwa [Nat.zero_add] at this
  rw [Header.read?, here (i := 0) rfl (show 0xd00dfeed < 2 ^ 32 by decide), here (i := 1) rfl small,
    here (i := 2) rfl (show 56 < 2 ^ 32 by decide), here (i := 3) rfl (by omega),
    here (i := 4) rfl (show 40 < 2 ^ 32 by decide), here (i := 5) rfl (show 17 < 2 ^ 32 by decide),
    here (i := 6) rfl (show 16 < 2 ^ 32 by decide), here (i := 7) rfl (show 0 < 2 ^ 32 by decide),
    here (i := 8) rfl (by omega), here (i := 9) rfl (by omega)]
  rfl

private theorem reserved?_flatten (root : Node) : reserved? root.flatten 40 = some [] := by
  have zeros : List.replicate 16 (0 : UInt8) = List.replicate 8 0 ++ List.replicate 8 0 := rfl
  have reached := root.continues_reserved
  rw [zeros, List.append_assoc] at reached
  have address := (slice?_eq_some (reached.slice 8 rfl)).2
  have rest := reached.skip 8 rfl
  obtain ⟨inside, size⟩ := slice?_eq_some (rest.slice 8 rfl)
  rw [List.length_replicate] at address inside size
  rw [reserved?, if_pos inside, address, size]
  rfl

private theorem header_describes (root : Node) : root.header.Describes root.flatten [] where
  magic := rfl
  total := root.length_flatten.symm
  versions := by
    show 16 ≤ 17 ∧ 17 ≤ 17
    decide
  reservedAligned := by
    show 8 ∣ 40
    decide
  structureAligned := by
    show 4 ∣ 56
    decide
  inside := by
    simp only [Header.blocks, header, List.forall_mem_cons, List.length_nil]
    refine ⟨by omega, by omega, by omega, by omega, nofun⟩
  apart := by
    simp only [Header.blocks, header, List.pairwise_cons, List.forall_mem_cons, Block.Apart,
      List.length_nil]
    exact ⟨⟨by omega, by omega, by omega, nofun⟩, ⟨by omega, by omega, nofun⟩, ⟨by omega, nofun⟩,
      nofun, .nil⟩

private theorem length_bytes_le {tokens : List Token} {t : Token} (found : t ∈ tokens) :
    t.bytes.length ≤ (tokens.flatMap Token.bytes).length := by
  obtain ⟨first, rest, rfl⟩ := List.append_of_mem found
  rw [List.flatMap_append, List.flatMap_cons, List.length_append, List.length_append]
  omega

private theorem tokens?_structureBlock (clean : root.Clean) (small : root.flatten.length < 2 ^ 32) :
    ∃ placed, tokens? root.structureBlock 0 = some placed ∧
      placed.map Prod.snd = root.spelled root.nameTable ++ [.endTree] := by
  have bounded : root.structureBlock.length + root.nameTable.bytes.length < 2 ^ 32 := by
    rw [length_flatten] at small
    exact Nat.lt_of_le_of_lt (by simp only [header]; omega) small
  have split : root.structureBlock =
      (root.spelled root.nameTable).flatMap Token.bytes ++ word endTree := by
    rw [structureBlock, tokens_eq_flatMap]
  refine tokens?_of_continues (fun t found => ?_) (fun found => ?_) (Nat.dvd_zero 4)
    ⟨[], rfl, split⟩
  · have own := root.of_mem_spelled root.nameTable t found
    cases t with
    | beginNode name => exact clean name (List.mem_append_left _ own)
    | endNode => trivial
    | property nameAt value =>
      obtain ⟨name, used, rfl⟩ := own
      have named := NameTable.position_lt (mem_nameTable.2 used)
      have inside := length_bytes_le found
      simp only [Token.bytes, padded, List.length_append] at inside
      rw [split, List.length_append] at bounded
      exact ⟨by omega, by omega⟩
    | nop => exact own.elim
    | endTree => exact own.elim
  · exact root.of_mem_spelled root.nameTable _ found

private theorem textAt?_nameTable (clean : root.Clean) {name : String} (used : name ∈ root.names) :
    textAt? root.nameTable.bytes (root.nameTable.position name) = some name := by
  obtain ⟨after, reached⟩ := NameTable.continues_position (mem_nameTable.2 used)
  exact reached.text (clean name (List.mem_append_right _ used))

private theorem tree?_nameTable (clean : root.Clean) :
    tree? root.nameTable.bytes [] (root.spelled root.nameTable ++ [.endTree]) = some root := by
  rw [tree?_spelled root (fun name used => textAt?_nameTable clean used)]
  rfl

private theorem spelling_eq {placed : List (Nat × Token)} {table : NameTable}
    (same : placed.map Prod.snd = root.spelled table ++ [.endTree]) :
    spelling placed = root.spelled table ++ [.endTree] := by
  rw [spelling, same, List.filter_eq_self]
  intro t found
  rcases List.mem_append.1 found with inside | last
  · refine bne_iff_ne.2 ?_
    rintro rfl
    exact root.of_mem_spelled table _ inside
  · cases List.mem_singleton.1 last
    rfl

/-- A flattened tree is read back as that tree. -/
private theorem read?_flatten (clean : root.Clean) (small : root.flatten.length < 2 ^ 32) :
    ∃ c, read? root.flatten = some c ∧ c.reserved = [] ∧ c.root = root := by
  obtain ⟨placed, lexed, same⟩ := tokens?_structureBlock clean small
  have block : slice? root.flatten root.header.structureAt root.header.structureSize =
      some root.structureBlock := root.continues_structure.slice _ rfl
  have strings : slice? root.flatten root.header.stringsAt root.header.stringsSize =
      some root.nameTable.bytes := root.continues_strings.slice _ rfl
  have built : tree? root.nameTable.bytes [] (spelling placed) = some root := by
    rw [spelling_eq same, tree?_nameTable clean]
  have ranges : reserved? root.flatten root.header.reservedAt = some [] := root.reserved?_flatten
  refine ⟨⟨root.header, [], placed, root⟩, ?_, rfl, rfl⟩
  simp only [read?, header_read? small, ranges, if_pos root.header_describes, block, strings, lexed,
    built, bind, Option.bind_some]
  rfl

end Node

/-! ### The board -/

def Node.child? : Node → String → Option Node
  | ⟨_, _, children⟩, wanted => children.find? fun ⟨name, _, _⟩ => name == wanted

def Node.value? : Node → String → Option (List UInt8)
  | ⟨_, properties, _⟩, wanted => (properties.find? (·.name == wanted)).map Property.value

variable (ramSize : UInt64) (xlen : Xlen) (bootargs : String)

private theorem boardTree_clean : (boardTree ramSize xlen bootargs).Clean := by
  have labels : (boardTree ramSize xlen bootargs).labels = (boardTree 0 .rv32 "").labels := rfl
  have names : (boardTree ramSize xlen bootargs).names = (boardTree 0 .rv32 "").names := rfl
  rw [Node.Clean, labels, names]
  decide +kernel

private theorem chosen_bootargs : ((boardTree ramSize xlen bootargs).child? "chosen").bind
    (·.value? "bootargs") = some (bootargs.toUTF8.data.toList ++ [0]) := by
  rfl

private theorem memory_reg : ((boardTree ramSize xlen bootargs).child? "memory@80000000").bind
    (·.value? "reg") = some (doubleWord Ram.base ++ doubleWord ramSize) := by
  rfl

/-- The blob of the board is a flattened device tree of version 17: a reader accepts it, what the
reader finds is well-formed, and the tree is the one that was written. -/
theorem boardBlob_read? (small : (boardBlob ramSize xlen bootargs).size < 2 ^ 32) :
    ∃ c, read? (boardBlob ramSize xlen bootargs).data.toList = some c ∧
      c.WellFormed (boardBlob ramSize xlen bootargs).data.toList ∧
      c.reserved = [] ∧ c.root = boardTree ramSize xlen bootargs ∧
      (c.root.child? "chosen").bind (·.value? "bootargs") =
        some (bootargs.toUTF8.data.toList ++ [0]) ∧
      ∃ address size, (c.root.child? "memory@80000000").bind (·.value? "reg") =
          some (address ++ size) ∧
        address.length = 8 ∧ size.length = 8 ∧
        number address = Ram.base.toNat ∧ number size = ramSize.toNat := by
  have long : (boardTree ramSize xlen bootargs).flatten.length < 2 ^ 32 := by
    rwa [← ByteArray.size_data, boardBlob, List.size_toArray] at small
  have same : (boardBlob ramSize xlen bootargs).data.toList =
      (boardTree ramSize xlen bootargs).flatten := rfl
  rw [same]
  obtain ⟨c, accepted, reserved, root⟩ :=
    Node.read?_flatten (boardTree_clean ramSize xlen bootargs) long
  refine ⟨c, accepted, read?_wellFormed accepted, reserved, root, ?_, doubleWord Ram.base,
    doubleWord ramSize, ?_, rfl, rfl, number_doubleWord _, number_doubleWord _⟩
  · rw [root, chosen_bootargs]
  · rw [root, memory_reg]

/-- A board with 128 MiB of memory that boots on the serial line: the value ends with a zero. -/
theorem boardBlob_read?_serialLine :
    (boardBlob 0x8000000 .rv64 "console=ttyS0").size < 2 ^ 32 ∧
    ∃ c, read? (boardBlob 0x8000000 .rv64 "console=ttyS0").data.toList = some c ∧
      (c.root.child? "chosen").bind (·.value? "bootargs") =
        some [0x63, 0x6f, 0x6e, 0x73, 0x6f, 0x6c, 0x65, 0x3d, 0x74, 0x74, 0x79, 0x53, 0x30, 0] := by
  have small : (boardBlob 0x8000000 .rv64 "console=ttyS0").size < 2 ^ 32 := by decide +kernel
  have text : "console=ttyS0".toUTF8.data.toList ++ [0] =
      [0x63, 0x6f, 0x6e, 0x73, 0x6f, 0x6c, 0x65, 0x3d, 0x74, 0x74, 0x79, 0x53, 0x30, 0] := by
    decide +kernel
  obtain ⟨c, accepted, -, -, -, value, -⟩ := boardBlob_read? 0x8000000 .rv64 "console=ttyS0" small
  exact ⟨small, c, accepted, value.trans (congrArg some text)⟩

end RiscvBoard.DeviceTree
