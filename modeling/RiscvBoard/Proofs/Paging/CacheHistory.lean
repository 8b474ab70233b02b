import Mathlib.Data.Set.Card
import RiscvBoard.Proofs.Paging.Transparency

/-!
The page cache over any history of calls. It never holds more entries than its capacity, and for
each key it holds the entry that was inserted last under that key, unless the cache was dropped
since: by a flush, or by an insertion under any key that found it full. The entry of that insertion
itself is held.
-/

set_option autoImplicit false

namespace RiscvBoard

namespace PageCache

inductive Operation where
  | insert (key : CacheKey) (entry : CacheEntry)
  | lookup (key : CacheKey)
  | flush

def Operation.isLookup : Operation → Bool
  | .lookup _ => true
  | _ => false

def apply (t : PageCache) : Operation → PageCache
  | .insert key entry => t.insert key entry
  | .lookup key => (t.lookup key).2
  | .flush => t.flush

/-- The calls of a cache since it was made, the latest one first. -/
abbrev History := List Operation

def after : History → PageCache
  | [] => empty
  | op :: before => (after before).apply op

/-! ### One call -/

private theorem find?_insert_eq (t : PageCache) (key other : CacheKey) (entry : CacheEntry) :
    (t.insert key entry).find? other =
      if key = other then some entry else if capacity ≤ t.size then none else t.find? other := by
  simp only [insert, find?, Std.HashMap.getElem?_insert, beq_iff_eq]
  split
  · rfl
  · split <;> simp

private theorem size_insert_le (t : PageCache) (key : CacheKey) (entry : CacheEntry) :
    (t.insert key entry).size ≤ capacity := by
  have grows (entries : Std.HashMap CacheKey CacheEntry) :
      (entries.insert key entry).size ≤ entries.size + 1 := Std.HashMap.size_insert_le
  refine (grows _).trans ?_
  split
  · exact Nat.le_of_ble_eq_true rfl
  next room => exact Nat.lt_of_not_le room

private theorem size_eq_encard (t : PageCache) :
    t.size = {key | ∃ entry, t.find? key = some entry}.encard := by
  have keys : {key | ∃ entry, t.find? key = some entry} =
      (t.entries.keys.toFinset : Set CacheKey) := by
    ext key
    rw [Set.mem_ofPred_eq, ← Option.isSome_iff_exists, find?, Std.HashMap.isSome_getElem?_iff_mem,
      Finset.mem_coe, List.mem_toFinset, Std.HashMap.mem_keys]
  have distinct : t.entries.keys.Nodup :=
    Std.HashMap.distinct_keys.imp fun differ => ne_of_beq_false differ
  rw [keys, Set.encard_coe_eq_coe_finsetCard, List.toFinset_card_of_nodup distinct,
    Std.HashMap.length_keys, size]

private theorem size_apply_le {t : PageCache} (bounded : t.size ≤ capacity) (op : Operation) :
    (t.apply op).size ≤ capacity := by
  cases op with
  | insert key entry => exact t.size_insert_le key entry
  | lookup key =>
    unfold apply lookup count
    dsimp only
    split <;> exact bounded
  | flush => exact Nat.zero_le _

private theorem counted_apply (t : PageCache) (op : Operation) :
    (t.apply op).hits + (t.apply op).misses =
      t.hits + t.misses + if op.isLookup then 1 else 0 := by
  cases op with
  | insert key entry | flush => exact (UInt64.add_zero _).symm
  | lookup key =>
    unfold apply lookup count
    dsimp only [Operation.isLookup]
    split
    · rw [UInt64.add_assoc, UInt64.add_comm 1, ← UInt64.add_assoc]
      rfl
    · exact (UInt64.add_assoc _ _ _).symm

private theorem toNat_counted_apply {t : PageCache} {op : Operation}
    (few : t.hits.toNat + t.misses.toNat + (if op.isLookup then 1 else 0) < 2 ^ 64) :
    (t.apply op).hits.toNat + (t.apply op).misses.toNat =
      t.hits.toNat + t.misses.toNat + if op.isLookup then 1 else 0 := by
  cases op with
  | insert key entry | flush => rfl
  | lookup key =>
    have once : (if (Operation.lookup key).isLookup then 1 else 0) = 1 := rfl
    rw [once] at few ⊢
    unfold apply lookup count
    dsimp only
    split
    · rw [UInt64.toNat_add, UInt64.toNat_one, Nat.mod_eq_of_lt (by omega), Nat.add_right_comm]
    · rw [UInt64.toNat_add, UInt64.toNat_one, Nat.mod_eq_of_lt (by omega), Nat.add_assoc]

/-! ### Histories -/

/-- Whether a call drops all that the cache holds: a flush does, and an insertion if the cache is
full. -/
def Drops (before : History) : Operation → Prop
  | .insert _ _ => capacity ≤ (after before).size
  | .lookup _ => False
  | .flush => True

/-- The entry was inserted under the key, and since then neither was another one, nor was the cache
dropped. The insertion itself may have dropped what was there before it. -/
inductive LastInserted (key : CacheKey) (entry : CacheEntry) : History → Prop where
  | inserted (before : History) : LastInserted key entry (.insert key entry :: before)
  | kept {before : History} {op : Operation} (last : LastInserted key entry before)
    (other : ∀ newer, op ≠ .insert key newer) (keeps : ¬ Drops before op) :
    LastInserted key entry (op :: before)

section Inversion

variable {key : CacheKey} {entry : CacheEntry} {before : History}

private theorem lastInserted_insert_iff {newKey : CacheKey} {newEntry : CacheEntry} :
    LastInserted key entry (.insert newKey newEntry :: before) ↔
      (newKey = key ∧ newEntry = entry) ∨
      (newKey ≠ key ∧ ¬ capacity ≤ (after before).size ∧ LastInserted key entry before) := by
  constructor
  · intro last
    cases last with
    | inserted => exact .inl ⟨rfl, rfl⟩
    | kept last other keeps =>
      refine .inr ⟨?_, keeps, last⟩
      rintro rfl
      exact other newEntry rfl
  · rintro (⟨rfl, rfl⟩ | ⟨other, room, last⟩)
    · exact .inserted before
    · refine .kept last ?_ room
      rintro newer ⟨⟩
      exact other rfl

private theorem lastInserted_lookup_iff {looked : CacheKey} :
    LastInserted key entry (.lookup looked :: before) ↔ LastInserted key entry before := by
  constructor
  · rintro ⟨⟩
    assumption
  · exact fun last => .kept last nofun id

private theorem not_lastInserted_flush : ¬ LastInserted key entry (.flush :: before) := by
  rintro (_ | ⟨-, -, keeps⟩)
  exact keeps trivial

end Inversion

/-- The cache holds exactly the entries that were inserted last under their keys. -/
private theorem find?_after_iff {key : CacheKey} {entry : CacheEntry} {history : History} :
    (after history).find? key = some entry ↔ LastInserted key entry history := by
  induction history with
  | nil =>
    have none : (after []).find? key = none := find?_of_size rfl key
    rw [none]
    exact ⟨nofun, nofun⟩
  | cons op before ih =>
    cases op with
    | insert newKey newEntry =>
      rw [lastInserted_insert_iff, ← ih, after, apply, find?_insert_eq]
      by_cases same : newKey = key
      · simp [same]
      · by_cases full : capacity ≤ (after before).size <;> simp [same, full]
    | lookup looked =>
      rw [lastInserted_lookup_iff, ← ih, after, apply, lookup, find?_count]
    | flush =>
      rw [iff_false_right not_lastInserted_flush, after, apply, find?_flush]
      nofun

/-- What a history makes of the cache. -/
structure LastWriterMap (history : History) : Prop where
  bounded : (after history).size ≤ capacity
  /-- The size, and with it when the cache is full, is told by the history. -/
  size_eq : (after history).size = {key | ∃ entry, LastInserted key entry history}.encard
  found (key : CacheKey) (entry : CacheEntry) :
    ((after history).lookup key).1 = some entry ↔ LastInserted key entry history
  /-- An insertion is found by a lookup right after it, also if it dropped the cache. -/
  inserted (key : CacheKey) (entry : CacheEntry) :
    (((after history).insert key entry).lookup key).1 = some entry
  /-- The counters of hits and misses have 64 bits. -/
  counted : (after history).hits + (after history).misses =
    .ofNat (history.countP Operation.isLookup)
  counted_few (few : history.countP Operation.isLookup < 2 ^ 64) :
    (after history).hits.toNat + (after history).misses.toNat =
      history.countP Operation.isLookup

/-- After any history of insertions, lookups and flushes the cache is a bounded map that holds for
each key what was inserted last, and every lookup has been counted once, as far as the counters
reach. -/
theorem lastWriterMap (history : History) : LastWriterMap history where
  bounded := by
    induction history with
    | nil => exact Nat.zero_le _
    | cons op before ih => exact size_apply_le ih op
  size_eq := by
    rw [size_eq_encard]
    simp only [find?_after_iff]
  found key entry := find?_after_iff
  inserted key entry := find?_insert_self ..
  counted := by
    induction history with
    | nil => rfl
    | cons op before ih =>
      rw [after, counted_apply, ih, List.countP_cons, UInt64.ofNat_add]
      split <;> rfl
  counted_few few := by
    induction history with
    | nil => rfl
    | cons op before ih =>
      rw [List.countP_cons] at few ⊢
      have counted := ih (Nat.lt_of_le_of_lt (Nat.le_add_right _ _) few)
      rw [after, toNat_counted_apply (by rwa [counted]), counted]

end PageCache

end RiscvBoard
