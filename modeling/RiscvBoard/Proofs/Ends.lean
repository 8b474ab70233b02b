/-!
How a computation with a state and errors ends: a condition on its result and the state after it,
and one on its error and the state that it leaves.
-/

set_option autoImplicit false

namespace RiscvBoard

section Ends

variable {ε σ α β : Type}

/-- A computation ends with a result and a state, or with an error and a state, as the conditions
say. -/
def Ends (x : EStateM ε σ α) (s : σ) (done : α → σ → Prop) (failed : ε → σ → Prop) : Prop :=
  match x s with
  | .ok a t => done a t
  | .error e t => failed e t

variable {s : σ} {done : β → σ → Prop} {failed : ε → σ → Prop}

theorem ends_bind {x : EStateM ε σ α} {f : α → EStateM ε σ β} :
    Ends (x >>= f) s done failed ↔ Ends x s (fun a t => Ends (f a) t done failed) failed := by
  simp only [Ends, Bind.bind, EStateM.bind]
  cases x s <;> rfl

theorem ends_pure {b : β} : Ends (pure b : EStateM ε σ β) s done failed ↔ done b s := Iff.rfl

theorem ends_get {done : σ → σ → Prop} :
    Ends (get : EStateM ε σ σ) s done failed ↔ done s s := Iff.rfl

theorem ends_modify {f : σ → σ} {done : PUnit → σ → Prop} :
    Ends (modify f : EStateM ε σ PUnit) s done failed ↔ done () (f s) := Iff.rfl

theorem ends_modifyGet {f : σ → β × σ} :
    Ends (modifyGet f : EStateM ε σ β) s done failed ↔ done (f s).1 (f s).2 := Iff.rfl

theorem Ends.mono {x : EStateM ε σ β} {done' : β → σ → Prop} {failed' : ε → σ → Prop}
    (ends : Ends x s done failed) (ok : ∀ b t, done b t → done' b t)
    (error : ∀ e t, failed e t → failed' e t) : Ends x s done' failed' := by
  unfold Ends at *
  split at ends
  · exact ok _ _ ends
  · exact error _ _ ends

theorem Ends.imp {x : EStateM ε σ β} {done' : β → σ → Prop} (ends : Ends x s done failed)
    (ok : ∀ b t, done b t → done' b t) : Ends x s done' failed :=
  ends.mono ok fun _ _ error => error

theorem Ends.bind {x : EStateM ε σ α} {f : α → EStateM ε σ β} {between : α → σ → Prop}
    (first : Ends x s between failed) (rest : ∀ a t, between a t → Ends (f a) t done failed) :
    Ends (x >>= f) s done failed :=
  ends_bind.2 (first.imp rest)

theorem Ends.of_ok {x : EStateM ε σ β} {b : β} {t : σ} (ends : Ends x s done failed)
    (ran : x s = .ok b t) : done b t := by
  unfold Ends at ends
  rw [ran] at ends
  exact ends

theorem Ends.of_error {x : EStateM ε σ β} {e : ε} {t : σ} (ends : Ends x s done failed)
    (ran : x s = .error e t) : failed e t := by
  unfold Ends at ends
  rw [ran] at ends
  exact ends

/-! ### Runs -/

theorem bind_get (f : σ → EStateM ε σ α) (s : σ) : ((get : EStateM ε σ σ) >>= f) s = f s s := rfl

theorem bind_of_ok {x : EStateM ε σ α} {a : α} {t : σ} (ran : x s = .ok a t)
    (f : α → EStateM ε σ β) : (x >>= f) s = f a t := by
  simp only [Bind.bind, EStateM.bind, ran]

theorem bind_of_error {x : EStateM ε σ α} {e : ε} {t : σ} (ran : x s = .error e t)
    (f : α → EStateM ε σ β) : (x >>= f) s = .error e t := by
  simp only [Bind.bind, EStateM.bind, ran]

end Ends

end RiscvBoard
