import RiscvBoard.Board.Plic

/-!
Arbitration of the interrupt controller, over any sequence of operations on it. A source is pending
or in service, but never both; a claim returns the best source that its context can take; and a
source that was claimed is not returned again before its completion is written.
-/

set_option autoImplicit false

namespace RiscvBoard

namespace Plic

/-! ### Words of sources -/

def Has (word : UInt32) (source : Fin 32) : Prop :=
  word.toBitVec.getLsbD source.val = true

private theorem has_or {a b : UInt32} {source : Fin 32} :
    Has (a ||| b) source ↔ Has a source ∨ Has b source := by
  simp [Has]

private theorem has_and {a b : UInt32} {source : Fin 32} :
    Has (a &&& b) source ↔ Has a source ∧ Has b source := by
  simp [Has]

private theorem has_not {a : UInt32} {source : Fin 32} : Has (~~~a) source ↔ ¬ Has a source := by
  simp [Has]

private theorem has_one {source : Fin 32} : Has 1 source ↔ source = 0 := by
  simp [Has]

private theorem not_has_zero (source : Fin 32) : ¬ Has 0 source := by
  simp [Has]

private theorem has_bit {number : UInt32} (small : number < 32) {source : Fin 32} :
    Has (1 <<< number) source ↔ number.toNat = source.val := by
  have place : number.toNat % 32 = number.toNat := Nat.mod_eq_of_lt small
  simp [Has, UInt32.toBitVec_shiftLeft, place]
  omega

private theorem toNat_number (source : Fin 32) : (UInt32.ofNat source.val).toNat = source.val := by
  simp
  omega

private theorem number_lt (source : Fin 32) : UInt32.ofNat source.val < 32 := by
  rw [UInt32.lt_iff_toNat_lt, toNat_number]
  exact source.isLt

private theorem has_iff_shiftRight {word : UInt32} {source : Fin 32} :
    (word >>> UInt32.ofNat source.val &&& 1 != 0) = true ↔ Has word source := by
  have place : (UInt32.ofNat source.val).toNat % 32 = source.val := by
    rw [toNat_number]
    omega
  have shifted : (word >>> UInt32.ofNat source.val &&& 1).toNat =
      1 &&& word.toNat >>> source.val := by
    rw [UInt32.toNat_and, UInt32.toNat_shiftRight, place, Nat.and_comm]
    rfl
  rw [bne_iff_ne, ne_eq, ← UInt32.toNat_inj, shifted]
  simp [Has, BitVec.getLsbD, Nat.testBit]

/-! ### The state of a source -/

def IsPending (p : Plic) (source : Fin 32) : Prop :=
  Has p.pending source

def InService (p : Plic) (source : Fin 32) : Prop :=
  Has p.inService source

def IsEnabled (p : Plic) (context : PlicContext) (source : Fin 32) : Prop :=
  Has (p.settings context).enable source

/-- A context can take a source: it is pending, enabled for the context, and of a priority above the
context's threshold. -/
def Deliverable (p : Plic) (context : PlicContext) (source : Fin 32) : Prop :=
  p.IsPending source ∧ p.IsEnabled context source ∧
    (p.settings context).threshold < p.priority.get source

private theorem eligible_iff {p : Plic} {context : PlicContext} {source : Fin 32} :
    p.eligible (p.settings context) source = true ↔ p.Deliverable context source := by
  simp only [eligible, Bool.and_eq_true, has_iff_shiftRight, has_and, gt_iff_lt, decide_eq_true_eq,
    and_assoc]
  rfl

section Changes

variable {p : Plic} {source : Fin 32}

private theorem isPending_update {lines : UInt32} : (p.update lines).IsPending source ↔
    p.IsPending source ∨ Has lines source ∧ ¬ p.InService source ∧ source ≠ 0 := by
  simp only [update, IsPending, InService, has_or, has_and, has_not, has_one, and_assoc, ne_eq]

theorem isPending_claim {context : PlicContext} {best : Fin 32}
    (found : p.best? context = some best) :
    (p.claim context).IsPending source ↔ p.IsPending source ∧ source ≠ best := by
  simp only [claim, found, IsPending, has_and, has_not, has_bit (number_lt best), toNat_number,
    Fin.ext_iff, ne_eq, eq_comm]

theorem inService_claim {context : PlicContext} {best : Fin 32}
    (found : p.best? context = some best) :
    (p.claim context).InService source ↔ p.InService source ∨ source = best := by
  simp only [claim, found, InService, has_or, has_bit (number_lt best), toNat_number, Fin.ext_iff,
    eq_comm]

private theorem inService_complete {number : UInt32} : (p.complete number).InService source ↔
    p.InService source ∧ number.toNat ≠ source.val := by
  simp only [complete]
  split
  next small => simp only [InService, has_and, has_not, has_bit small, ne_eq]
  next large =>
    have other : number.toNat ≠ source.val := by
      intro same
      exact large (UInt32.lt_iff_toNat_lt.2 (by rw [same]; exact source.isLt))
    exact (and_iff_left other).symm

end Changes

/-! ### The claim registers -/

def claimOffset : PlicContext → UInt64
  | .machine => 0x200004
  | .supervisor => 0x201004

def IsClaim (context : PlicContext) (offset : UInt64) : Prop :=
  claimOffset context ≤ offset ∧ offset < claimOffset context + 4

instance (context : PlicContext) (offset : UInt64) : Decidable (IsClaim context offset) :=
  inferInstanceAs (Decidable (_ ∧ _))

private theorem isClaim_iff_toNat {offset : UInt64} {context : PlicContext} :
    IsClaim context offset ↔ (claimOffset context).toNat ≤ offset.toNat ∧
      offset.toNat < (claimOffset context).toNat + 4 := by
  cases context <;> exact Iff.rfl

private theorem contextAt?_eq_some {offset place : UInt64} {context : PlicContext} :
    contextAt? offset contextOffset contextStride = some (context, place) ↔
      place.toNat < 0x1000 ∧ offset.toNat + 4 = (claimOffset context).toNat + place.toNat := by
  have bound := offset.toNat_lt
  simp only [contextAt?, contextOffset, contextStride, UInt64.lt_iff_toNat_lt, ← UInt64.toNat_inj,
    UInt64.toNat_div, UInt64.toNat_sub, UInt64.reduceToNat]
  split
  next => cases context <;> simp [claimOffset] <;> omega
  next =>
    split
    next => cases context <;> simp [claimOffset, ← UInt64.toNat_inj, UInt64.toNat_sub] <;> omega
    next =>
      split
      next => cases context <;> simp [claimOffset, ← UInt64.toNat_inj, UInt64.toNat_sub] <;> omega
      next => cases context <;> simp [claimOffset] <;> omega

private theorem contextAt?_enable_eq_none {offset : UInt64} (high : 0x3000 ≤ offset.toNat) :
    contextAt? offset enableOffset enableStride = none := by
  have bound := offset.toNat_lt
  simp only [contextAt?, enableOffset, enableStride, UInt64.lt_iff_toNat_lt, ← UInt64.toNat_inj,
    UInt64.toNat_div, UInt64.toNat_sub, UInt64.reduceToNat]
  rw [if_neg (by omega), if_neg (by omega), if_neg (by omega)]

theorem at_eq_claim_iff {offset : UInt64} {context : PlicContext} :
    Register.at offset = .claim context ↔ IsClaim context offset := by
  rw [isClaim_iff_toNat]
  constructor
  · intro claim
    simp only [Register.at] at claim
    split at claim
    · contradiction
    split at claim
    · contradiction
    split at claim
    · split at claim <;> contradiction
    split at claim
    next found =>
      rcases contextAt?_eq_some.1 found with ⟨_, place⟩
      split at claim
      · contradiction
      split at claim
      next above below =>
        cases claim
        simp only [UInt64.lt_iff_toNat_lt, UInt64.reduceToNat] at above below
        omega
      · contradiction
    · contradiction
  · intro ⟨low, high⟩
    have base : 0x200004 ≤ (claimOffset context).toNat := by cases context <;> decide
    have bound := offset.toNat_lt
    have place : (offset - claimOffset context + 4).toNat =
        offset.toNat - (claimOffset context).toNat + 4 := by
      rw [UInt64.toNat_add, UInt64.toNat_sub]
      simp only [UInt64.reduceToNat]
      omega
    have found : contextAt? offset contextOffset contextStride =
        some (context, offset - claimOffset context + 4) :=
      contextAt?_eq_some.2 ⟨by omega, by omega⟩
    have notPending : ¬ (pendingOffset ≤ offset ∧ offset < pendingOffset + 4) := by
      simp only [pendingOffset, UInt64.lt_iff_toNat_lt, UInt64.le_iff_toNat_le, UInt64.toNat_add,
        UInt64.reduceToNat]
      omega
    simp only [Register.at]
    rw [dif_neg (by omega), if_neg notPending, contextAt?_enable_eq_none (by omega), found]
    simp only [UInt64.lt_iff_toNat_lt, place, UInt64.reduceToNat]
    rw [if_neg (by omega), if_pos (by omega)]

/-! ### Exclusive states -/

/-- No source is both pending and in service, and the number 0, which belongs to no source, is
neither pending nor in service nor enabled. -/
structure Exclusive (p : Plic) : Prop where
  disjoint : ∀ source, ¬ (p.IsPending source ∧ p.InService source)
  notPending : ¬ p.IsPending 0
  notInService : ¬ p.InService 0
  notEnabled : ∀ context, ¬ p.IsEnabled context 0

private theorem Exclusive.not_deliverable {p : Plic} (exclusive : p.Exclusive)
    (context : PlicContext) : ¬ p.Deliverable context 0 := by
  intro deliverable
  exact exclusive.notPending deliverable.1

private theorem Exclusive.reset : reset.Exclusive := by
  refine ⟨?_, not_has_zero 0, not_has_zero 0, ?_⟩
  · intro source both
    exact not_has_zero source both.1
  · intro context
    cases context <;> exact not_has_zero 0

/-! ### The best source -/

/-- The order of arbitration: a source comes before one of lower priority, and before one of the
same priority that has no lower number. -/
def Precedes (p : Plic) (source other : Fin 32) : Prop :=
  p.priority.get other < p.priority.get source ∨
    p.priority.get other = p.priority.get source ∧ source ≤ other

private theorem Precedes.refl (p : Plic) (source : Fin 32) : p.Precedes source source :=
  .inr ⟨rfl, Fin.le_refl source⟩

private theorem Precedes.of_lt {p : Plic} {source best other : Fin 32}
    (higher : p.priority.get best < p.priority.get source) (precedes : p.Precedes best other) :
    p.Precedes source other := by
  rcases precedes with lower | ⟨same, _⟩
  · exact .inl (UInt32.lt_trans lower higher)
  · exact .inl (same ▸ higher)

def IsBest (p : Plic) (context : PlicContext) (source : Fin 32) : Prop :=
  p.Deliverable context source ∧ ∀ other, p.Deliverable context other → p.Precedes source other

def BestOf (p : Plic) (context : PlicContext) (seen : List (Fin 32)) : Option (Fin 32) → Prop
  | none => ∀ source ∈ seen, ¬ p.Deliverable context source
  | some best => p.Deliverable context best ∧ best ∈ seen ∧
    ∀ source ∈ seen, p.Deliverable context source → p.Precedes best source

private theorem better_some {p : Plic} {context : PlicContext} {next : Fin 32}
    (takes : p.Deliverable context next) (best : Fin 32) :
    p.better (p.settings context) (some best) next =
      if p.priority.get best < p.priority.get next then some next else some best :=
  if_pos (eligible_iff.2 takes)

private theorem better_of_not_deliverable {p : Plic} {context : PlicContext} {next : Fin 32}
    (refused : ¬ p.Deliverable context next) (best : Option (Fin 32)) :
    p.better (p.settings context) best next = best :=
  if_neg (mt eligible_iff.1 refused)

private theorem BestOf.better {p : Plic} {context : PlicContext} {seen : List (Fin 32)}
    {best : Option (Fin 32)} (search : p.BestOf context seen best) {next : Fin 32}
    (ascending : ∀ source ∈ seen, source ≤ next) :
    p.BestOf context (seen ++ [next]) (p.better (p.settings context) best next) := by
  by_cases takes : p.Deliverable context next
  · cases best with
    | none =>
      rw [Plic.better, if_pos (eligible_iff.2 takes)]
      refine ⟨takes, by simp, List.forall_mem_append.2 ⟨?_, ?_⟩⟩
      · intro source among taken
        exact absurd taken (search source among)
      · simp [Precedes.refl]
    | some best =>
      rcases search with ⟨taken, among, wins⟩
      rw [better_some takes]
      by_cases higher : p.priority.get best < p.priority.get next
      · rw [if_pos higher]
        refine ⟨takes, by simp, List.forall_mem_append.2 ⟨?_, ?_⟩⟩
        · intro source among taken
          exact (wins source among taken).of_lt higher
        · simp [Precedes.refl]
      · rw [if_neg higher]
        refine ⟨taken, by simp [among], List.forall_mem_append.2 ⟨wins, ?_⟩⟩
        rw [List.forall_mem_singleton]
        intro _
        rcases UInt32.lt_or_eq_of_le (UInt32.not_lt.1 higher) with lower | same
        · exact .inl lower
        · exact .inr ⟨same, ascending best among⟩
  · rw [better_of_not_deliverable takes]
    cases best with
    | none => exact List.forall_mem_append.2 ⟨search, by simpa using takes⟩
    | some best =>
      rcases search with ⟨taken, among, wins⟩
      refine ⟨taken, by simp [among], List.forall_mem_append.2 ⟨wins, ?_⟩⟩
      rw [List.forall_mem_singleton]
      intro eligible
      exact absurd eligible takes

theorem BestOf.foldl {p : Plic} {context : PlicContext} {seen : List (Fin 32)}
    {best : Option (Fin 32)} (search : p.BestOf context seen best) (rest : List (Fin 32))
    (sorted : (seen ++ rest).Pairwise (· ≤ ·)) :
    p.BestOf context (seen ++ rest) (rest.foldl (p.better (p.settings context)) best) := by
  induction rest generalizing seen best with
  | nil => simpa using search
  | cons next rest ih =>
    have ascending : ∀ source ∈ seen, source ≤ next := by
      intro source among
      exact (List.pairwise_append.1 sorted).2.2 source among next List.mem_cons_self
    have step := search.better ascending
    rw [List.append_cons] at sorted ⊢
    exact ih step sorted

private theorem mem_sources {source : Fin 32} : source ∈ sources ↔ source ≠ 0 := by
  revert source
  decide

private theorem best?_spec {p : Plic} (exclusive : p.Exclusive) (context : PlicContext) :
    match p.best? context with
    | none => ∀ source, ¬ p.Deliverable context source
    | some best => p.IsBest context best := by
  by_cases idle : p.pending &&& (p.settings context).enable = 0
  · simp only [best?, if_pos idle]
    intro source deliverable
    have both := has_and.2 ⟨deliverable.1, deliverable.2.1⟩
    rw [idle] at both
    exact not_has_zero source both
  · simp only [best?, if_neg idle]
    have start : p.BestOf context [] none := by simp [BestOf]
    have search := start.foldl sources (by decide)
    have numbered (source : Fin 32) (deliverable : p.Deliverable context source) :
        source ∈ sources := by
      refine mem_sources.2 ?_
      rintro rfl
      exact exclusive.not_deliverable context deliverable
    rw [List.nil_append] at search
    cases found : sources.foldl (p.better (p.settings context)) none with
    | none =>
      rw [found] at search
      intro source deliverable
      exact search source (numbered source deliverable) deliverable
    | some best =>
      rw [found] at search
      exact ⟨search.1, fun other taken => search.2.2 other (numbered other taken) taken⟩

/-! ### Operations -/

inductive Operation where
  | update (lines : UInt32)
  | load (offset : UInt64) (w : Width)
  | peek (offset : UInt64) (w : Width)
  | store (offset : UInt64) (w : Width) (value : UInt64)

def apply (p : Plic) : Operation → Plic
  | .update lines => p.update lines
  | .load offset _ => p.afterLoad offset
  | .peek _ _ => p
  | .store offset w value => p.store offset w value

def after (ops : List Operation) : Plic :=
  ops.foldl apply reset

def Operation.Completes (source : Fin 32) : Operation → Prop
  | .store offset _ value => (∃ context, IsClaim context offset) ∧ value.toUInt32.toNat = source.val
  | _ => False

private theorem afterLoad_claim {p : Plic} {context : PlicContext} {offset : UInt64}
    (claim : IsClaim context offset) : p.afterLoad offset = p.claim context := by
  simp only [afterLoad, at_eq_claim_iff.2 claim]

namespace Exclusive

variable {p : Plic}

private theorem update (exclusive : p.Exclusive) (lines : UInt32) : (p.update lines).Exclusive := by
  refine ⟨?_, ?_, exclusive.notInService, exclusive.notEnabled⟩
  · rintro source ⟨pending, serviced⟩
    rcases isPending_update.1 pending with old | ⟨_, fresh, _⟩
    · exact exclusive.disjoint source ⟨old, serviced⟩
    · exact fresh serviced
  · intro pending
    rcases isPending_update.1 pending with old | ⟨_, _, numbered⟩
    · exact exclusive.notPending old
    · exact numbered rfl

private theorem claim (exclusive : p.Exclusive) (context : PlicContext) :
    (p.claim context).Exclusive := by
  cases found : p.best? context with
  | none =>
    have same : p.claim context = p := by simp only [Plic.claim, found]
    rwa [same]
  | some best =>
    have spec := best?_spec exclusive context
    rw [found] at spec
    refine ⟨?_, ?_, ?_, ?_⟩
    · intro source
      rw [isPending_claim found, inService_claim found]
      rintro ⟨⟨pending, other⟩, serviced | same⟩
      · exact exclusive.disjoint source ⟨pending, serviced⟩
      · exact other same
    · rw [isPending_claim found]
      intro pending
      exact exclusive.notPending pending.1
    · rw [inService_claim found]
      rintro (serviced | same)
      · exact exclusive.notInService serviced
      · exact exclusive.not_deliverable context (same ▸ spec.1)
    · intro listening
      have settings : (p.claim context).settings listening = p.settings listening := by
        cases listening <;> simp only [Plic.claim, found] <;> rfl
      rw [IsEnabled, settings]
      exact exclusive.notEnabled listening

private theorem afterLoad (exclusive : p.Exclusive) (offset : UInt64) :
    (p.afterLoad offset).Exclusive := by
  simp only [Plic.afterLoad]
  split
  · exact exclusive.claim _
  · exact exclusive

private theorem complete (exclusive : p.Exclusive) (number : UInt32) :
    (p.complete number).Exclusive := by
  have same : (p.complete number).pending = p.pending ∧
      (p.complete number).settings = p.settings := by
    simp only [Plic.complete]
    split <;> exact ⟨rfl, rfl⟩
  refine ⟨?_, ?_, ?_, ?_⟩
  · rintro source ⟨pending, serviced⟩
    rw [IsPending, same.1] at pending
    exact exclusive.disjoint source ⟨pending, (inService_complete.1 serviced).1⟩
  · rw [IsPending, same.1]
    exact exclusive.notPending
  · intro serviced
    exact exclusive.notInService (inService_complete.1 serviced).1
  · intro context
    rw [IsEnabled, same.2]
    exact exclusive.notEnabled context

private theorem setSettings (exclusive : p.Exclusive) {s : PlicSettings} (zero : ¬ Has s.enable 0)
    (context : PlicContext) : (p.setSettings s context).Exclusive := by
  cases context with
  | machine =>
    refine ⟨exclusive.disjoint, exclusive.notPending, exclusive.notInService, ?_⟩
    rintro (_ | _)
    · exact zero
    · exact exclusive.notEnabled .supervisor
  | supervisor =>
    refine ⟨exclusive.disjoint, exclusive.notPending, exclusive.notInService, ?_⟩
    rintro (_ | _)
    · exact exclusive.notEnabled .machine
    · exact zero

private theorem store (exclusive : p.Exclusive) (offset : UInt64) (w : Width) (value : UInt64) :
    (p.store offset w value).Exclusive := by
  simp only [Plic.store]
  split
  · refine ⟨exclusive.disjoint, exclusive.notPending, exclusive.notInService, ?_⟩
    rintro (_ | _)
    · exact exclusive.notEnabled .machine
    · exact exclusive.notEnabled .supervisor
  · refine exclusive.setSettings ?_ _
    simp [has_and, has_not, has_one]
  · refine exclusive.setSettings ?_ _
    exact exclusive.notEnabled _
  · exact exclusive.complete _
  · exact exclusive
  · exact exclusive

private theorem apply (exclusive : p.Exclusive) (op : Operation) : (p.apply op).Exclusive := by
  cases op with
  | update lines => exact exclusive.update lines
  | load offset w => exact exclusive.afterLoad offset
  | peek offset w => exact exclusive
  | store offset w value => exact exclusive.store offset w value

private theorem foldl (exclusive : p.Exclusive) (ops : List Operation) :
    (ops.foldl Plic.apply p).Exclusive := by
  induction ops generalizing p with
  | nil => exact exclusive
  | cons op ops ih => exact ih (exclusive.apply op)

end Exclusive

/-! ### Service -/

section Service

variable {p : Plic} {source : Fin 32}

private theorem InService.claim (serviced : p.InService source) (context : PlicContext) :
    (p.claim context).InService source := by
  cases found : p.best? context with
  | none =>
    have same : p.claim context = p := by simp only [Plic.claim, found]
    rwa [same]
  | some best => exact (inService_claim found).2 (.inl serviced)

private theorem InService.apply (serviced : p.InService source) {op : Operation}
    (other : ¬ op.Completes source) : (p.apply op).InService source := by
  cases op with
  | update lines => exact serviced
  | peek offset w => exact serviced
  | load offset w =>
    simp only [Plic.apply, afterLoad]
    split
    · exact serviced.claim _
    · exact serviced
  | store offset w value =>
    simp only [Plic.apply, store]
    split
    next => exact serviced
    next context _ _ => cases context <;> exact serviced
    next context _ _ => cases context <;> exact serviced
    next context register =>
      refine inService_complete.2 ⟨serviced, ?_⟩
      intro number
      exact other ⟨⟨context, at_eq_claim_iff.1 register⟩, number⟩
    next => exact serviced
    next => exact serviced

private theorem InService.foldl (serviced : p.InService source) (ops : List Operation)
    (others : ∀ op ∈ ops, ¬ op.Completes source) : (ops.foldl Plic.apply p).InService source := by
  induction ops generalizing p with
  | nil => exact serviced
  | cons op ops ih =>
    refine ih (serviced.apply (others op List.mem_cons_self)) ?_
    intro later among
    exact others later (List.mem_cons_of_mem op among)

end Service

/-! ### Claims -/

/-- What the answer to a claim says: the number of the best source that the context can take, or 0
if it can take none. -/
def Answers (p : Plic) (context : PlicContext) (value : UInt64) : Prop :=
  (∃ source : Fin 32, source ≠ 0 ∧ value.toNat = source.val ∧ p.IsBest context source) ∨
    value = 0 ∧ ∀ source, ¬ p.Deliverable context source

private theorem isClaim_of_contextAt? {offset place : UInt64} {context : PlicContext}
    (found : contextAt? offset contextOffset contextStride = some (context, place))
    (second : 4 ≤ place ∧ place < 8) : IsClaim context offset := by
  rcases contextAt?_eq_some.1 found with ⟨-, distance⟩
  rcases second with ⟨above, below⟩
  simp only [UInt64.le_iff_toNat_le, UInt64.reduceToNat] at above
  simp only [UInt64.lt_iff_toNat_lt, UInt64.reduceToNat] at below
  rw [isClaim_iff_toNat]
  omega

theorem loaded_eq_peek (p : Plic) (offset : UInt64) (w : Width) :
    p.loaded offset w = p.peek offset w := by
  unfold loaded
  split
  next context place found =>
    split
    next second =>
      have claim := at_eq_claim_iff.2 (isClaim_of_contextAt? found second)
      simp only [peek, claim]
    · rfl
  · rfl

private theorem loaded_claim {p : Plic} {context : PlicContext} {offset : UInt64}
    (claim : IsClaim context offset) (w : Width) :
    p.loaded offset w = (p.claimable context).toUInt64 := by
  rw [loaded_eq_peek]
  simp only [peek, at_eq_claim_iff.2 claim]

private theorem Exclusive.answers {p : Plic} (exclusive : p.Exclusive) {context : PlicContext}
    {offset : UInt64} (claim : IsClaim context offset) (w : Width) :
    p.Answers context (p.loaded offset w) := by
  have spec := best?_spec exclusive context
  rw [loaded_claim claim, claimable]
  cases found : p.best? context with
  | none =>
    rw [found] at spec
    exact .inr ⟨rfl, spec⟩
  | some best =>
    rw [found] at spec
    refine .inl ⟨best, ?_, toNat_number best, spec⟩
    rintro rfl
    exact exclusive.not_deliverable context spec.1

private theorem best?_of_loaded {p : Plic} {context : PlicContext} {offset : UInt64}
    (claim : IsClaim context offset) {w : Width} {source : Fin 32} (numbered : source ≠ 0)
    (answer : (p.loaded offset w).toNat = source.val) : p.best? context = some source := by
  rw [loaded_claim claim, claimable] at answer
  cases found : p.best? context with
  | none =>
    rw [found] at answer
    exact absurd (Fin.ext answer.symm) numbered
  | some best =>
    rw [found] at answer
    exact congrArg some (Fin.ext ((toNat_number best).symm.trans answer))

/-- After any operations from reset on, the controller is exclusive; the value that a load of a
claim register returns is the best source that its context can take, or 0 if there is none; and
between two such loads that return the same source, by whichever contexts, its completion is
written. -/
theorem claims_arbitrated (ops : List Operation) :
    (after ops).Exclusive ∧
    (∀ (context : PlicContext) (offset : UInt64) (w : Width), IsClaim context offset →
      (after ops).Answers context ((after ops).loaded offset w)) ∧
    ∀ (first second : PlicContext) (offset offset' : UInt64) (w w' : Width)
      (between : List Operation) (source : Fin 32),
      IsClaim first offset → IsClaim second offset' → source ≠ 0 →
      ((after ops).loaded offset w).toNat = source.val →
      ((after (ops ++ .load offset w :: between)).loaded offset' w').toNat = source.val →
      ∃ op ∈ between, op.Completes source := by
  have exclusive : (after ops).Exclusive := Exclusive.reset.foldl ops
  refine ⟨exclusive, fun context offset w claim => exclusive.answers claim w, ?_⟩
  intro first second offset offset' w w' between source claim claim' numbered answer answer'
  by_cases completed : ∃ op ∈ between, op.Completes source
  · exact completed
  exfalso
  have started : ((after ops).apply (.load offset w)).InService source := by
    have taken := best?_of_loaded claim numbered answer
    rw [apply, afterLoad_claim claim]
    exact (inService_claim taken).2 (.inr rfl)
  have serviced := started.foldl between
    fun op among completes => completed ⟨op, among, completes⟩
  have later : (after (ops ++ .load offset w :: between)).Exclusive := Exclusive.reset.foldl _
  have spec := best?_spec later second
  rw [best?_of_loaded claim' numbered answer'] at spec
  rw [after, List.foldl_append, List.foldl_cons] at later spec
  exact later.disjoint source ⟨spec.1.1, serviced⟩

/-- Supervisor mode claims the serial line, completes it and claims it again. -/
theorem claims_arbitrated_serialLine :
    let ops : List Operation := [.store 40 .word 1, .store 0x2080 .word 0x400, .update 0x400]
    let between : List Operation := [.store 0x201004 .word 10, .update 0x400]
    (after ops).Answers .supervisor ((after ops).loaded 0x201004 .word) ∧
      ((after ops).loaded 0x201004 .word).toNat = 10 ∧
      ((after (ops ++ .load 0x201004 .word :: between)).loaded 0x201004 .word).toNat = 10 ∧
      ∃ op ∈ between, op.Completes 10 := by
  intro ops between
  have claim : IsClaim .supervisor 0x201004 := by decide
  rcases claims_arbitrated ops with ⟨_, answers, repeated⟩
  have first : ((after ops).loaded 0x201004 .word).toNat = 10 := by decide
  have second :
      ((after (ops ++ .load 0x201004 .word :: between)).loaded 0x201004 .word).toNat = 10 := by
    decide
  exact ⟨answers _ _ _ claim, first, second,
    repeated _ _ _ _ _ _ between 10 claim claim (by decide) first second⟩

end Plic

end RiscvBoard
