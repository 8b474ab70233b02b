import RiscvBoard.Proofs.Board.Observation

/-!
The serial line under any interleaving of its host and its guest. Each of the two queues passes its
bytes on in order, without loss or repetition; only a reset of the receive queue takes bytes away,
and it takes all that wait at that time. The interrupt line shows two causes, and the event of an
empty transmitter is pending until the guest is told of it.
-/

set_option autoImplicit false

namespace RiscvBoard

namespace Uart

/-! ### Operations and histories -/

inductive Operation where
  | pushInput (byte : UInt8)
  | takeOutput
  | load (offset : UInt64)
  | peek (offset : UInt64)
  | store (offset : UInt64) (value : UInt8)
  deriving DecidableEq

def apply (u : Uart) : Operation → Uart
  | .pushInput byte => u.pushInput byte
  | .takeOutput => u.dropOutput
  | .load offset => u.afterLoad offset
  | .peek _ => u
  | .store offset value => u.store offset value

def answer? (u : Uart) : Operation → Option UInt8
  | .takeOutput => some u.nextOutput
  | .load offset => some (u.loaded offset)
  | .peek offset => some (u.peek offset)
  | .pushInput _ | .store .. => none

/-- The operations on a line since it was made, the latest one first. -/
abbrev History := List Operation

def after : History → Uart
  | [] => reset
  | op :: before => (after before).apply op

def collect {α : Type} (contribution : Uart → Operation → List α) : History → List α
  | [] => []
  | op :: before => collect contribution before ++ contribution (after before) op

/-! ### The two queues -/

def pushes (_ : Uart) : Operation → List UInt8
  | .pushInput byte => [byte]
  | _ => []

/-- The byte that is returned by a load of the receive register, if one waits and the divisor is not
in the place of the register. -/
def receives (u : Uart) (op : Operation) : List UInt8 :=
  if op = .load 0 ∧ u.divisorAccess = false ∧ u.input.toList ≠ [] then (u.answer? op).toList else []

def discards (u : Uart) : Operation → List UInt8
  | .store offset value => if offset = 2 ∧ value &&& 2 ≠ 0 then u.input.toList else []
  | _ => []

/-- The byte that the guest gives to the host, by a store to the first register while this is not
the divisor. -/
def sends (u : Uart) : Operation → List UInt8
  | .store offset value => if offset = 0 ∧ u.divisorAccess = false then [value] else []
  | _ => []

def takes (u : Uart) (op : Operation) : List UInt8 :=
  if op = .takeOutput ∧ u.output.toList ≠ [] then (u.answer? op).toList else []

/-- What becomes of a byte from the host: the guest receives it, a reset of the receive queue
discards it, or it still waits. -/
inductive Fate where
  | received
  | discarded
  | waiting
  deriving DecidableEq

def leaves (u : Uart) (op : Operation) : List (UInt8 × Fate) :=
  (u.receives op).map (·, .received) ++ (u.discards op).map (·, .discarded)

/-- The bytes that have left the receive queue, and then those that wait in it. -/
def fates (history : History) : List (UInt8 × Fate) :=
  collect leaves history ++ (after history).input.toList.map (·, .waiting)

/-! ### One operation -/

theorem output_store_of_ne (u : Uart) {offset : UInt64} (other : offset.toNat ≠ 0) (value : UInt8) :
    (u.store offset value).output = u.output := by
  unfold store
  split
  · contradiction
  · split <;> rfl
  all_goals rfl

theorem toList_output_store (u : Uart) (value : UInt8) : (u.store 0 value).output.toList =
    u.output.toList ++ if u.divisorAccess = false then [value] else [] := by
  cases access : u.divisorAccess with
  | true =>
    have kept : (u.store 0 value).output = u.output := by
      simp only [store, UInt64.toNat_zero, access]
      rfl
    rw [kept, if_neg nofun, List.append_nil]
  | false =>
    have pushed : (u.store 0 value).output = u.output.push value := by
      simp only [store, UInt64.toNat_zero, access]
      rfl
    rw [pushed, Fifo.toList_push, if_pos rfl]

theorem output_afterLoad (u : Uart) (offset : UInt64) : (u.afterLoad offset).output = u.output := by
  unfold afterLoad
  split
  · split <;> rfl
  · split <;> rfl
  · rfl

private theorem input_store (u : Uart) (offset : UInt64) (value : UInt8) :
    u.input.toList = u.discards (.store offset value) ++ (u.store offset value).input.toList := by
  by_cases second : offset = 2
  · subst second
    have stored : (u.store 2 value).input =
        if value &&& 0x02 != 0 then .empty else u.input := rfl
    by_cases resets : value &&& 2 = 0 <;> simp [stored, discards, resets]
  · have kept : (u.store offset value).input = u.input := by
      have other : offset.toNat ≠ 2 := fun same => second (UInt64.toNat_inj.1 same)
      unfold store
      split
      · split <;> rfl
      · split <;> rfl
      · contradiction
      all_goals rfl
    simp [kept, discards, second]

private theorem input_afterLoad (u : Uart) (offset : UInt64) :
    u.input.toList = u.receives (.load offset) ++ (u.afterLoad offset).input.toList := by
  by_cases first : offset = 0 ∧ u.divisorAccess = false
  · obtain ⟨rfl, access⟩ := first
    have loaded : u.loaded 0 = u.input.toList.head?.getD 0 := by simp [loaded, access]
    have rest : (u.afterLoad 0).input = u.input.tail := by simp [afterLoad, access]
    rw [rest, Fifo.toList_tail, receives, answer?, loaded]
    cases u.input.toList <;> simp [access]
  · have kept : (u.afterLoad offset).input = u.input := by
      unfold afterLoad
      split
      next zero =>
        split
        · rfl
        next access =>
          exact absurd ⟨UInt64.toNat_inj.1 zero, Bool.eq_false_iff.2 access⟩ first
      · split <;> rfl
      · rfl
    have nothing : u.receives (.load offset) = [] := by
      rw [receives, if_neg]
      rintro ⟨register, access, -⟩
      exact first ⟨Operation.load.inj register, access⟩
    rw [kept, nothing, List.nil_append]

private theorem output_dropOutput (u : Uart) :
    u.output.toList = u.takes .takeOutput ++ u.dropOutput.output.toList := by
  rw [dropOutput, Fifo.toList_tail, takes, answer?, nextOutput, Fifo.head?_eq]
  cases u.output.toList <;> simp

private theorem output_store (u : Uart) (offset : UInt64) (value : UInt8) :
    u.output.toList ++ u.sends (.store offset value) = (u.store offset value).output.toList := by
  by_cases first : offset = 0
  · subst first
    rw [toList_output_store, sends]
    simp only [true_and]
  · have other : offset.toNat ≠ 0 := fun same => first (UInt64.toNat_inj.1 same)
    rw [output_store_of_ne u other, sends, if_neg (fun sent => first sent.1), List.append_nil]

/-- What waits for the guest, and then what arrives for it, is what leaves the queue and then what
waits afterwards. -/
private theorem input_step (u : Uart) (op : Operation) :
    u.input.toList ++ u.pushes op =
      (u.receives op ++ u.discards op) ++ (u.apply op).input.toList := by
  cases op with
  | pushInput byte => exact (Fifo.toList_push _ _).symm
  | load offset => simpa [pushes, discards, apply] using u.input_afterLoad offset
  | store offset value => simpa [pushes, receives, apply] using u.input_store offset value
  | takeOutput | peek offset => exact List.append_nil _

private theorem output_step (u : Uart) (op : Operation) :
    u.output.toList ++ u.sends op = u.takes op ++ (u.apply op).output.toList := by
  cases op with
  | store offset value => simpa [takes, apply] using u.output_store offset value
  | takeOutput => simpa [sends, apply] using u.output_dropOutput
  | load offset => simp [sends, takes, apply, output_afterLoad]
  | pushInput byte | peek offset => exact List.append_nil _

/-! ### Interrupts -/

private theorem interrupting_iff (u : Uart) : u.interrupting = true ↔
    (u.ier &&& 1 ≠ 0 ∧ u.input.toList ≠ []) ∨ (u.ier &&& 2 ≠ 0 ∧ u.thrEmptyPending = true) := by
  have line : u.interrupting = (u.receiveInterrupt || u.transmitInterrupt) := by
    unfold interrupting interruptId
    cases u.receiveInterrupt <;> cases u.transmitInterrupt <;> cases u.fcr &&& 1 != 0 <;> rfl
  simp [line, receiveInterrupt, transmitInterrupt]

/-- Whether an operation makes the event of an empty transmitter pending: a byte is transmitted, or
the guest enables the interrupt, which was not enabled. -/
def Raises (u : Uart) : Operation → Prop
  | .store offset value => u.divisorAccess = false ∧
      (offset = 0 ∨ offset = 1 ∧ value &&& 2 ≠ 0 ∧ u.ier &&& 2 = 0)
  | _ => False

/-- Whether an operation is a load of the interrupt identification that tells the guest of an empty
transmitter. -/
def Reports (u : Uart) (op : Operation) : Prop :=
  op = .load 2 ∧ ∃ value, u.answer? op = some value ∧ value &&& 0x0f = 0x02

private theorem thrEmptyPending_store (u : Uart) (offset : UInt64) (value : UInt8) :
    (u.store offset value).thrEmptyPending = true ↔
      u.Raises (.store offset value) ∨ u.thrEmptyPending = true := by
  by_cases zero : offset = 0
  · subst zero
    cases access : u.divisorAccess <;> simp [store, Raises, access]
  by_cases one : offset = 1
  · subst one
    cases access : u.divisorAccess <;> simp [store, Raises, access, or_comm]
  · have kept : (u.store offset value).thrEmptyPending = u.thrEmptyPending := by
      have first : offset.toNat ≠ 0 := fun same => zero (UInt64.toNat_inj.1 same)
      have second : offset.toNat ≠ 1 := fun same => one (UInt64.toNat_inj.1 same)
      unfold store
      split <;> first | contradiction | rfl
    simp [kept, Raises, zero, one]

private theorem thrEmptyPending_afterLoad (u : Uart) (offset : UInt64) :
    (u.afterLoad offset).thrEmptyPending = true ↔
      u.thrEmptyPending = true ∧ ¬ u.Reports (.load offset) := by
  by_cases second : offset = 2
  · subst second
    have loaded : u.loaded 2 = u.interruptId := rfl
    by_cases report : u.interruptId &&& 0x0f = 0x02 <;>
      simp [afterLoad, Reports, answer?, loaded, report]
  · have kept : (u.afterLoad offset).thrEmptyPending = u.thrEmptyPending := by
      have other : offset.toNat ≠ 2 := fun same => second (UInt64.toNat_inj.1 same)
      unfold afterLoad
      split
      · split <;> rfl
      · contradiction
      · rfl
    simp [kept, Reports, second]

private theorem pending_step (u : Uart) (op : Operation) :
    (u.apply op).thrEmptyPending = true ↔
      u.Raises op ∨ (u.thrEmptyPending = true ∧ ¬ u.Reports op) := by
  cases op with
  | store offset value => simpa [Reports, apply] using u.thrEmptyPending_store offset value
  | load offset => simpa [Raises, apply] using u.thrEmptyPending_afterLoad offset
  | pushInput byte | takeOutput | peek offset =>
    simp [Raises, Reports, apply, pushInput, dropOutput]

/-! ### Histories -/

/-- A queue from which an operation takes what departs, and to which it adds what arrives, passes on
all that arrives, in order. -/
private theorem collect_conserved (queue : Uart → List UInt8)
    {departs arrives : Uart → Operation → List UInt8} (start : queue reset = [])
    (step : ∀ u op, queue u ++ arrives u op = departs u op ++ queue (u.apply op))
    (history : History) :
    collect departs history ++ queue (after history) = collect arrives history := by
  induction history with
  | nil => exact start
  | cons op before ih =>
    simp only [collect, after]
    rw [← ih, List.append_assoc, List.append_assoc, step]

private theorem map_collect {α β : Type} (f : α → β) (contribution : Uart → Operation → List α)
    (history : History) :
    (collect contribution history).map f =
      collect (fun u op => (contribution u op).map f) history := by
  induction history with
  | nil => rfl
  | cons op before ih => rw [collect, collect, List.map_append, ih]

private theorem filter_collect {α : Type} (p : α → Bool) (contribution : Uart → Operation → List α)
    (history : History) :
    (collect contribution history).filter p =
      collect (fun u op => (contribution u op).filter p) history := by
  induction history with
  | nil => rfl
  | cons op before ih => rw [collect, collect, List.filter_append, ih]

private theorem map_leaves (u : Uart) (op : Operation) :
    (u.leaves op).map Prod.fst = u.receives op ++ u.discards op := by
  simp [leaves, Function.comp_def]

private theorem map_filter_fate (bytes : List UInt8) (fate : Fate) :
    ((bytes.map (·, fate)).filter (·.2 ≠ .discarded)).map Prod.fst =
      if fate = .discarded then [] else bytes := by
  by_cases gone : fate = .discarded
  · rw [if_pos gone, List.filter_eq_nil_iff.2 (by simp [gone]), List.map_nil]
  · rw [if_neg gone, List.filter_eq_self.2 (by simp [gone]), List.map_map]
    exact List.map_id' bytes

private theorem map_filter_leaves (u : Uart) (op : Operation) :
    ((u.leaves op).filter (·.2 ≠ .discarded)).map Prod.fst = u.receives op := by
  rw [leaves, List.filter_append, List.map_append, map_filter_fate, map_filter_fate]
  exact List.append_nil _

/-- The event of an empty transmitter has been raised and not been reported since. -/
inductive Pending : History → Prop where
  | raised {before : History} {op : Operation} (raises : (after before).Raises op) :
    Pending (op :: before)
  | kept {before : History} {op : Operation} (pending : Pending before)
    (silent : ¬ (after before).Reports op) : Pending (op :: before)

private theorem pending_cons_iff {before : History} {op : Operation} :
    Pending (op :: before) ↔
      (after before).Raises op ∨ (Pending before ∧ ¬ (after before).Reports op) := by
  constructor
  · rintro (raises | ⟨pending, silent⟩)
    · exact .inl raises
    · exact .inr ⟨pending, silent⟩
  · rintro (raises | ⟨pending, silent⟩)
    · exact .raised raises
    · exact .kept pending silent

private theorem thrEmptyPending_after_iff (history : History) :
    (after history).thrEmptyPending = true ↔ Pending history := by
  induction history with
  | nil => exact ⟨nofun, nofun⟩
  | cons op before ih => rw [after, pending_step, pending_cons_iff, ih]

/-- What a history makes of the bytes and of the interrupts. -/
structure Delivers (history : History) : Prop where
  /-- Every byte from the host is received, discarded or waits, in the order of the bytes. -/
  pushed : (fates history).map Prod.fst = collect pushes history
  /-- What the guest has received, and then what waits for it, are the bytes that no reset of the
  receive queue found there. -/
  received : collect receives history ++ (after history).input.toList =
    ((fates history).filter (·.2 ≠ .discarded)).map Prod.fst
  /-- What the host has taken, and then what waits for it, is what the guest has sent. -/
  sent : collect takes history ++ (after history).output.toList = collect sends history
  interrupting : (after history).interrupting = true ↔
    ((after history).ier &&& 1 ≠ 0 ∧ (after history).input.toList ≠ []) ∨
    ((after history).ier &&& 2 ≠ 0 ∧ (after history).thrEmptyPending = true)
  pending : (after history).thrEmptyPending = true ↔ Pending history
  /-- The event of an empty transmitter gets lost only when the guest is told of it. -/
  lost (op : Operation) (pending : (after history).thrEmptyPending = true)
    (gone : ((after history).apply op).thrEmptyPending = false) : (after history).Reports op

/-- After any interleaving of host and guest neither queue has lost, repeated or reordered a byte,
and the interrupt line is up for the causes that are enabled and there. -/
theorem delivers_in_order (history : History) : Delivers history where
  pushed := by
    have all := collect_conserved (fun u => u.input.toList) rfl input_step history
    rw [fates, List.map_append, map_collect]
    simp only [map_leaves, List.map_map, Function.comp_def, List.map_id']
    exact all
  received := by
    rw [fates, List.filter_append, List.map_append, filter_collect, map_collect, map_filter_fate]
    simp only [map_filter_leaves]
    rfl
  sent := collect_conserved (fun u => u.output.toList) rfl output_step history
  interrupting := (after history).interrupting_iff
  pending := thrEmptyPending_after_iff history
  lost op pending gone := by
    refine Classical.byContradiction fun silent => ?_
    have kept := ((after history).pending_step op).2 (.inr ⟨pending, silent⟩)
    rw [gone] at kept
    cases kept

end Uart

end RiscvBoard
