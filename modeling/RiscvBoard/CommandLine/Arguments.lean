import RiscvBoard.Simulator

/-!
The arguments of the command line. Options have long names and take their value from the same
argument, after an equals sign, or from the next one; each may be given once.
-/

set_option autoImplicit false

namespace RiscvBoard.CommandLine

structure Arguments where
  /-- The image given by option. -/
  elf : Option String
  /-- The image given by position. -/
  image : Option String
  disk : Option String
  deviceTree : Option String
  xlen : Option Xlen
  ramMib : Option Nat
  /-- The number of steps after which the run stops; 0 means never. -/
  maxSteps : Option Nat
  pageCache : Option Bool
  bootargs : Option String
  trace : Bool

inductive Request where
  | run (a : Arguments)
  | help
  | version
  | misuse (message : String)

namespace Arguments

def none : Arguments :=
  ⟨.none, .none, .none, .none, .none, .none, .none, .none, .none, false⟩

def imagePath? (a : Arguments) : Option String :=
  a.elf <|> a.image

def settings (a : Arguments) : Settings :=
  { Settings.default with
    ramSize := Settings.mebibytes (a.ramMib.getD 128)
    xlen := a.xlen
    pageCache := a.pageCache.getD true
    bootargs := a.bootargs.getD Settings.default.bootargs }

end Arguments

/-- A number below 2 to the 64 in decimal, with an optional plus sign. -/
def parseNumber? (s : String) : Option Nat :=
  let digits :=
    match s.toList with
    | '+' :: rest => rest
    | cs => cs
  if digits.isEmpty || !digits.all Char.isDigit then Option.none
  else
    let n := digits.foldl (fun acc c => acc * 10 + (c.toNat - '0'.toNat)) 0
    if n < UInt64.size then some n else Option.none

def parsePath? (s : String) : Option String :=
  if s = "" then Option.none else some s

def parseXlen? (s : String) : Option Xlen :=
  if s = "32" then some .rv32 else if s = "64" then some .rv64 else Option.none

def parseBool? (s : String) : Option Bool :=
  if s = "true" then some true else if s = "false" then some false else Option.none

def setOnce {α β : Type} (old : Option α) (value : Option α) (use : Option α → β) :
    Except String β :=
  match old, value with
  | some _, _ => .error "given more than once"
  | Option.none, Option.none => .error "has an invalid value"
  | Option.none, some v => .ok (use (some v))

def valueOptions : List String :=
  ["elf", "fs", "dtb", "xlen", "ram-mib", "max-insns", "page-cache", "bootargs"]

def setOption (a : Arguments) (name value : String) : Except String Arguments :=
  match name with
  | "elf" => setOnce a.elf (parsePath? value) fun v => { a with elf := v }
  | "fs" => setOnce a.disk (parsePath? value) fun v => { a with disk := v }
  | "dtb" => setOnce a.deviceTree (parsePath? value) fun v => { a with deviceTree := v }
  | "xlen" => setOnce a.xlen (parseXlen? value) fun v => { a with xlen := v }
  | "ram-mib" => setOnce a.ramMib (parseNumber? value) fun v => { a with ramMib := v }
  | "max-insns" => setOnce a.maxSteps (parseNumber? value) fun v => { a with maxSteps := v }
  | "page-cache" => setOnce a.pageCache (parseBool? value) fun v => { a with pageCache := v }
  | "bootargs" => setOnce a.bootargs (some value) fun v => { a with bootargs := v }
  | _ => .error "is unknown"

def setPosition (a : Arguments) (value : String) : Except String Arguments :=
  setOnce a.image (parsePath? value) fun v => { a with image := v }

/-- Whether an argument cannot be the value of the option before it. -/
def looksLikeOption (s : String) : Bool :=
  s.startsWith "-" && s != "-"

/-- The name of a long option, and the value after its equals sign if there is one. -/
def splitOption (s : String) : String × Option String :=
  let body := s.toList.drop 2
  let name := body.takeWhile fun c => c != '='
  match body.dropWhile fun c => c != '=' with
  | [] => (String.ofList name, Option.none)
  | _ :: value => (String.ofList name, some (String.ofList value))

def finish (a : Arguments) : Request :=
  if a.elf.isSome && a.image.isSome then .misuse "the image was given twice" else .run a

def andThen (what : String) (result : Except String Arguments) (next : Arguments → Request) :
    Request :=
  match result with
  | .ok a => next a
  | .error e => .misuse ("argument " ++ what ++ " " ++ e)

def parsePositions : List String → Arguments → Request
  | [], a => finish a
  | s :: rest, a => andThen s (setPosition a s) (parsePositions rest)

def parse : List String → Arguments → Request
  | [], a => finish a
  | s :: rest, a =>
    if s = "--" then parsePositions rest a
    else if s.startsWith "--" then
      let (name, attached) := splitOption s
      if valueOptions.contains name then
        match attached with
        | some value => andThen s (setOption a name value) (parse rest)
        | Option.none =>
          match rest with
          | [] => .misuse ("argument " ++ s ++ " needs a value")
          | value :: rest =>
            if looksLikeOption value then .misuse ("argument " ++ s ++ " needs a value")
            else andThen s (setOption a name value) (parse rest)
      else if attached.isSome then .misuse ("argument " ++ s ++ " takes no value")
      else if name = "trace" then
        if a.trace then .misuse ("argument " ++ s ++ " given more than once")
        else parse rest { a with trace := true }
      else if name = "help" then .help
      else if name = "version" then .version
      else .misuse ("argument " ++ s ++ " is unknown")
    else if s.startsWith "-h" then .help
    else if s.startsWith "-V" then .version
    else if looksLikeOption s then .misuse ("argument " ++ s ++ " is unknown")
    else andThen s (setPosition a s) (parse rest)

def Request.ofList (args : List String) : Request :=
  parse args .none

end RiscvBoard.CommandLine
