/-!
Hexadecimal text: lower-case digits without leading zeros, or padded on the left to a least width.
-/

set_option autoImplicit false

namespace RiscvBoard.Hex

/-- The hexadecimal digits of a number, most significant first; zero has one digit. -/
def digits (n : Nat) : String :=
  String.ofList (Nat.toDigits 16 n)

def padded (width n : Nat) : String :=
  let ds := Nat.toDigits 16 n
  String.ofList (List.replicate (width - ds.length) '0' ++ ds)

def text (n : Nat) : String :=
  "0x" ++ digits n

def textPadded (width n : Nat) : String :=
  "0x" ++ padded width n

end RiscvBoard.Hex
