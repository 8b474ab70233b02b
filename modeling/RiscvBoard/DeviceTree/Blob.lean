/-!
Device trees and their flattened form, version 17. The blob is a header, an empty list of reserved
memory, the tree as a sequence of tokens, and the property names, each once.
-/

set_option autoImplicit false

namespace RiscvBoard

namespace DeviceTree

structure Property where
  name : String
  value : List UInt8
  deriving DecidableEq

inductive Node where
  | mk (name : String) (properties : List Property) (children : List Node)

/-- The bytes of a 32-bit number, the high byte first. -/
def word (n : UInt32) : List UInt8 :=
  [(n >>> 24).toUInt8, (n >>> 16).toUInt8, (n >>> 8).toUInt8, n.toUInt8]

def doubleWord (n : UInt64) : List UInt8 :=
  word (n >>> 32).toUInt32 ++ word n.toUInt32

def textBytes (s : String) : List UInt8 :=
  s.toUTF8.data.toList ++ [0]

namespace Property

/-- A property that tells by being there. -/
def empty (name : String) : Property :=
  ⟨name, []⟩

def cells (name : String) (values : List UInt32) : Property :=
  ⟨name, values.flatMap word⟩

def text (name value : String) : Property :=
  ⟨name, textBytes value⟩

def texts (name : String) (values : List String) : Property :=
  ⟨name, values.flatMap textBytes⟩

def reg (base size : UInt64) : Property :=
  ⟨"reg", doubleWord base ++ doubleWord size⟩

end Property

/-- Bytes with zeros after them up to a multiple of four. -/
def padded (bytes : List UInt8) : List UInt8 :=
  bytes ++ List.replicate ((4 - bytes.length % 4) % 4) 0

/-- The property names of a flattened tree, in the order of their first use. -/
abbrev NameTable := List String

namespace NameTable

def add (table : NameTable) (name : String) : NameTable :=
  if table.contains name then table else table ++ [name]

def bytes (table : NameTable) : List UInt8 :=
  table.flatMap textBytes

def position (table : NameTable) (name : String) : Nat :=
  (NameTable.bytes (table.takeWhile fun other => other != name)).length

end NameTable

def beginNode : UInt32 := 1

def endNode : UInt32 := 2

def propertyToken : UInt32 := 3

def endTree : UInt32 := 9

def Property.tokens (table : NameTable) (p : Property) : List UInt8 :=
  word propertyToken ++ word p.value.length.toUInt32 ++
    word (table.position p.name).toUInt32 ++ padded p.value

mutual

def Node.names : Node → List String
  | ⟨_, properties, children⟩ => properties.map Property.name ++ Node.namesOfAll children

def Node.namesOfAll : List Node → List String
  | [] => []
  | node :: rest => node.names ++ Node.namesOfAll rest

end

mutual

def Node.tokens (table : NameTable) : Node → List UInt8
  | ⟨name, properties, children⟩ =>
    word beginNode ++ padded (textBytes name) ++ properties.flatMap (Property.tokens table) ++
      Node.tokensOfAll table children ++ word endNode

def Node.tokensOfAll (table : NameTable) : List Node → List UInt8
  | [] => []
  | node :: rest => node.tokens table ++ Node.tokensOfAll table rest

end

def Node.nameTable (root : Node) : NameTable :=
  root.names.foldl NameTable.add []

def magic : UInt32 := 0xd00dfeed

def headerSize : Nat := 40

def reservedSize : Nat := 16

/-- The tokens of a tree, closed by the end token. -/
def Node.structureBlock (root : Node) : List UInt8 :=
  root.tokens root.nameTable ++ word endTree

def Node.flatten (root : Node) : List UInt8 :=
  let structureBlock := root.structureBlock
  let strings := root.nameTable.bytes
  let structureAt := headerSize + reservedSize
  let stringsAt := structureAt + structureBlock.length
  let header : List Nat :=
    [magic.toNat, stringsAt + strings.length, structureAt, stringsAt, headerSize, 17, 16, 0,
      strings.length, structureBlock.length]
  header.flatMap (fun n => word n.toUInt32) ++ List.replicate reservedSize 0 ++
    structureBlock ++ strings

end DeviceTree

end RiscvBoard
