/-!
Privilege modes, ordered by what they may do.
-/

set_option autoImplicit false

namespace RiscvBoard

inductive Privilege where
  | user
  | supervisor
  | machine
  deriving DecidableEq, Hashable, Repr

namespace Privilege

/-- The two-bit code of a mode; the code 2 belongs to none. -/
def code : Privilege → UInt64
  | user => 0
  | supervisor => 1
  | machine => 3

def ofCode? (value : UInt64) : Option Privilege :=
  if value = 0 then some user
  else if value = 1 then some supervisor
  else if value = 3 then some machine
  else none

instance : LT Privilege where
  lt a b := a.code < b.code

instance (a b : Privilege) : Decidable (a < b) :=
  inferInstanceAs (Decidable (a.code < b.code))

instance : LE Privilege where
  le a b := a.code ≤ b.code

instance (a b : Privilege) : Decidable (a ≤ b) :=
  inferInstanceAs (Decidable (a.code ≤ b.code))

def name : Privilege → String
  | user => "User"
  | supervisor => "Supervisor"
  | machine => "Machine"

theorem ofCode?_code (mode : Privilege) : ofCode? mode.code = some mode := by
  cases mode <;> rfl

theorem le_refl (mode : Privilege) : mode ≤ mode := by
  cases mode <;> decide

theorem le_trans {a b c : Privilege} (first : a ≤ b) (second : b ≤ c) : a ≤ c :=
  UInt64.le_trans first second

theorem le_antisymm {a b : Privilege} (first : a ≤ b) (second : b ≤ a) : a = b := by
  revert first second
  cases a <;> cases b <;> decide

theorem le_machine (mode : Privilege) : mode ≤ machine := by
  cases mode <;> decide

theorem le_supervisor {mode : Privilege} (below : mode ≠ machine) : mode ≤ supervisor := by
  revert below
  cases mode <;> decide

theorem le_of_not_lt {a b : Privilege} (above : ¬ a < b) : b ≤ a := by
  revert above
  cases a <;> cases b <;> decide

theorem lt_of_not_le {a b : Privilege} (above : ¬ a ≤ b) : b < a := by
  revert above
  cases a <;> cases b <;> decide

theorem not_lt_of_le {a b : Privilege} (below : a ≤ b) : ¬ b < a := by
  revert below
  cases a <;> cases b <;> decide

theorem eq_user {mode : Privilege} (low : mode ≤ user) : mode = user := by
  revert low
  cases mode <;> decide

theorem eq_supervisor {a b : Privilege} (low : a ≤ b) (above : a ≠ user) (below : b ≠ machine) :
    a = supervisor := by
  revert low above below
  cases a <;> cases b <;> decide

end Privilege

end RiscvBoard
