import RiscvBoard.Hex

/-!
Numbers written as text. Digits give their number back, with zeros in front of them or without, so
no two numbers look alike; and a numeral has no characters but digits, its mark and its sign.
-/

set_option autoImplicit false

namespace RiscvBoard

/-! ### Characters -/

section Characters

variable {c : Char} (other : ∀ d, Nat.digitChar d ≠ c)

include other

private theorem notMem_toDigits {base : Nat} (some : 1 < base) (n : Nat) :
    c ∉ Nat.toDigits base n := by
  induction n using Nat.strongRecOn with
  | ind n ih =>
    rw [Nat.toDigits_eq_if some]
    split
    · exact fun inside => other n (List.mem_singleton.1 inside).symm
    next more =>
      have shorter : n / base < n := Nat.div_lt_self (by omega) some
      intro inside
      rcases List.mem_append.1 inside with upper | last
      · exact ih (n / base) shorter upper
      · exact other (n % base) (List.mem_singleton.1 last).symm

theorem notMem_decimal (minus : c ≠ '-') (z : Int) : c ∉ (toString z).toList := by
  have digits (n : Nat) : c ∉ n.repr.toList := by
    rw [Nat.repr_eq_ofList_toDigits, String.toList_ofList]
    exact notMem_toDigits other (by decide) n
  cases z with
  | ofNat n => exact digits n
  | negSucc n =>
    have signed : (toString (Int.negSucc n)).toList = '-' :: n.succ.repr.toList :=
      String.toList_append
    rw [signed]
    exact List.not_mem_cons_of_ne_of_not_mem minus (digits n.succ)

end Characters

/-! ### Hexadecimal numerals -/

namespace Hex

def digitValue (c : Char) : Nat :=
  if c.isDigit then c.toNat - '0'.toNat else c.toNat - 'a'.toNat + 10

def value (ds : List Char) : Nat :=
  ds.foldl (fun n c => 16 * n + digitValue c) 0

private theorem digitValue_digitChar : ∀ d < 16, digitValue (Nat.digitChar d) = d := by
  decide

private theorem value_concat (ds : List Char) (c : Char) :
    value (ds ++ [c]) = 16 * value ds + digitValue c := by
  rw [value, List.foldl_append]
  rfl

private theorem value_toDigits (n : Nat) : value (Nat.toDigits 16 n) = n := by
  induction n using Nat.strongRecOn with
  | ind n ih =>
    rw [Nat.toDigits_eq_if (by decide)]
    split
    next single => exact (Nat.zero_add _).trans (digitValue_digitChar n single)
    next more =>
      rw [value_concat, ih (n / 16) (Nat.div_lt_self (by omega) (by decide)),
        digitValue_digitChar _ (Nat.mod_lt _ (by decide))]
      exact Nat.div_add_mod n 16

private theorem value_zeros_append (k : Nat) (ds : List Char) :
    value (List.replicate k '0' ++ ds) = value ds := by
  induction k with
  | zero => rfl
  | succ k ih => exact ih

theorem textPadded_injective (width : Nat) : Function.Injective (textPadded width) := by
  intro n m same
  have digits := congrArg (fun s => value s.toList) ((String.append_right_inj _).1 same)
  simpa only [padded, String.toList_ofList, value_zeros_append, value_toDigits] using digits

private theorem text_eq_textPadded (n : Nat) : text n = textPadded 0 n := by
  rw [text, textPadded, digits, padded, Nat.zero_sub]
  rfl

theorem text_injective : Function.Injective text := by
  intro n m same
  rw [text_eq_textPadded, text_eq_textPadded] at same
  exact textPadded_injective 0 same

section Characters

variable {c : Char} (other : ∀ d, Nat.digitChar d ≠ c) (mark : c ≠ 'x')

include other mark

theorem notMem_textPadded (width n : Nat) : c ∉ (textPadded width n).toList := by
  have zero : c ≠ '0' := (other 0).symm
  have spelled : (textPadded width n).toList = '0' :: 'x' ::
      (List.replicate (width - (Nat.toDigits 16 n).length) '0' ++ Nat.toDigits 16 n) := by
    simp only [textPadded, padded, String.toList_append, String.toList_ofList]
    rfl
  simp [spelled, zero, mark, notMem_toDigits other]

theorem notMem_text (n : Nat) : c ∉ (text n).toList := by
  rw [text_eq_textPadded]
  exact notMem_textPadded other mark 0 n

end Characters

end Hex

end RiscvBoard
