/-!
# Outcomes of computations

A computation that can fail ends with a value or with a failure, and one with a state leaves a
state in both cases. These laws take a sequence of two computations apart at its outcome, so that
what a run of many steps does follows from what its steps do.
-/

namespace Except

variable {ε α β : Type}

/-- Two computations succeed one after the other exactly when both do. -/
theorem bind_eq_ok_iff {x : Except ε α} {f : α → Except ε β} {b : β} :
    (x >>= f) = .ok b ↔ ∃ a, x = .ok a ∧ f a = .ok b := by
  cases x with
  | ok a =>
    constructor
    · exact fun h => ⟨a, rfl, h⟩
    · rintro ⟨_, ⟨⟩, h⟩
      exact h
  | error e =>
    constructor
    · intro h
      cases h
    · rintro ⟨_, ⟨⟩, _⟩

/-- A function of a value is a success exactly when the value is. -/
theorem map_eq_ok_iff {x : Except ε α} {f : α → β} {b : β} :
    x.map f = .ok b ↔ ∃ a, x = .ok a ∧ f a = b := by
  cases x with
  | ok a => simp [Except.map]
  | error e => simp [Except.map]

/-- Another failure in place of a failure leaves the successes as they are. -/
theorem mapError_eq_ok_iff {x : Except ε α} {f : ε → β} {a : α} :
    x.mapError f = .ok a ↔ x = .ok a := by
  cases x with
  | ok b =>
    constructor <;>
      · rintro ⟨⟩
        rfl
  | error e =>
    constructor <;>
      · intro h
        cases h

/-- The value of two computations one after the other. -/
theorem toOption_bind (x : Except ε α) (f : α → Except ε β) :
    (x >>= f).toOption = x.toOption.bind fun a => (f a).toOption := by
  cases x <;> rfl

/-- The value of a function of a value. -/
theorem toOption_map (x : Except ε α) (f : α → β) : (x.map f).toOption = x.toOption.map f := by
  cases x <;> rfl

/-- A value is had exactly by a success. -/
theorem toOption_eq_some_iff {x : Except ε α} {a : α} : x.toOption = some a ↔ x = .ok a := by
  cases x <;> simp [Except.toOption]

/-- Two outcomes with the same value are both that value or both failures. -/
theorem eq_ok_or_eq_error_of_toOption_eq {δ : Type} {x : Except ε α} {y : Except δ α}
    (h : x.toOption = y.toOption) :
    (∃ a, x = .ok a ∧ y = .ok a) ∨ ∃ e d, x = .error e ∧ y = .error d := by
  cases x <;> cases y <;> simp_all [Except.toOption]

/-- Whether a computation has only failures of a kind. -/
def FailsBy (P : ε → Prop) (x : Except ε α) : Prop := ∀ e, x = .error e → P e

namespace FailsBy

variable {P : ε → Prop} {x : Except ε α}

/-- A success does not fail. -/
theorem ok {a : α} : FailsBy P (.ok a) := fun e h => by cases h

/-- A failure of a kind fails by it. -/
theorem error {e : ε} (h : P e) : FailsBy P (.error e : Except ε α) := by
  rintro _ ⟨⟩
  exact h

/-- Two computations one after the other fail as the first one does or the second one. -/
theorem bind {f : α → Except ε β} (hx : FailsBy P x) (hf : ∀ a, FailsBy P (f a)) :
    FailsBy P (x >>= f) := by
  intro e h
  cases x with
  | ok a => exact hf a e h
  | error d =>
    obtain rfl := Except.error.inj h
    exact hx d rfl

/-- A function of a value fails as the value does. -/
theorem map {f : α → β} (hx : FailsBy P x) : FailsBy P (x.map f) := by
  intro e h
  cases x with
  | ok a => cases h
  | error d =>
    obtain rfl := Except.error.inj h
    exact hx d rfl

/-- The computations of a list fail as one of them does. -/
theorem mapM {f : β → Except ε α} (hf : ∀ b, FailsBy P (f b)) (bs : List β) :
    FailsBy P (bs.mapM f) := by
  induction bs with
  | nil => exact ok
  | cons b bs ih =>
    rw [List.mapM_cons]
    exact (hf b).bind fun a => ih.bind fun as => ok

end FailsBy

end Except

namespace EStateM

variable {ε σ α β : Type}

/-- The second of two computations begins in the state that the first one leaves. -/
theorem bind_apply (x : EStateM ε σ α) (f : α → EStateM ε σ β) (s : σ) :
    (x >>= f) s = match x s with
      | .ok a t => f a t
      | .error e t => .error e t := rfl

/-- A computation may begin by looking at its state. -/
theorem get_bind_apply (f : σ → EStateM ε σ α) (s : σ) : (get >>= f) s = f s s := rfl

/-- Two computations succeed one after the other exactly when both do. -/
theorem bind_eq_ok_iff {x : EStateM ε σ α} {f : α → EStateM ε σ β} {s t : σ} {b : β} :
    (x >>= f) s = .ok b t ↔ ∃ a u, x s = .ok a u ∧ f a u = .ok b t := by
  rw [bind_apply]
  cases x s with
  | ok a u =>
    constructor
    · exact fun h => ⟨a, u, rfl, h⟩
    · rintro ⟨_, _, ⟨⟩, h⟩
      exact h
  | error e u => simp

/-- Two computations fail one after the other when the first one does, or the second one then. -/
theorem bind_eq_error_iff {x : EStateM ε σ α} {f : α → EStateM ε σ β} {s t : σ} {e : ε} :
    (x >>= f) s = .error e t ↔
      x s = .error e t ∨ ∃ a u, x s = .ok a u ∧ f a u = .error e t := by
  rw [bind_apply]
  cases x s with
  | ok a u =>
    constructor
    · exact fun h => .inr ⟨a, u, rfl, h⟩
    · rintro (⟨⟨⟩⟩ | ⟨_, _, ⟨⟩, h⟩)
      exact h
  | error d u => simp

/-- Whether a computation ended with a value. -/
def Result.succeeds : Result ε σ α → Bool
  | .ok _ _ => true
  | .error _ _ => false

/-- A computation that ended with a value has that value and a state. -/
theorem Result.eq_ok_of_succeeds {r : Result ε σ α} (h : r.succeeds = true) :
    ∃ a s, r = .ok a s := by
  cases r with
  | ok a s => exact ⟨a, s, rfl⟩
  | error e s => cases h

/-- A computation that did not end with a value failed. -/
theorem Result.eq_error_of_not_succeeds {r : Result ε σ α} (h : r.succeeds = false) :
    ∃ e s, r = .error e s := by
  cases r with
  | ok a s => cases h
  | error e s => exact ⟨e, s, rfl⟩

/-- Whether a computation ended with a value and a state that pass a test. -/
def Result.passes (test : α → σ → Bool) : Result ε σ α → Bool
  | .ok a s => test a s
  | .error _ _ => false

/-- A computation that passes a test ended with a value and a state that do. -/
theorem Result.exists_of_passes (r : Result ε σ α) (test : α → σ → Bool)
    (h : r.passes test = true) : ∃ a s, r = .ok a s ∧ test a s = true := by
  cases r with
  | ok a s => exact ⟨a, s, rfl, h⟩
  | error e s => cases h

/-- Whether a computation ended with a failure and a state that pass a test. -/
def Result.fails (test : ε → σ → Bool) : Result ε σ α → Bool
  | .ok _ _ => false
  | .error e s => test e s

/-- A computation that fails with a test passed ended with a failure and a state that pass it. -/
theorem Result.exists_of_fails (r : Result ε σ α) (test : ε → σ → Bool)
    (h : r.fails test = true) : ∃ e s, r = .error e s ∧ test e s = true := by
  cases r with
  | ok a s => cases h
  | error e s => exact ⟨e, s, rfl, h⟩

/-- The state that a computation ends in, with a value or a failure. -/
def Result.finalState : Result ε σ α → σ
  | .ok _ s => s
  | .error _ s => s

/-- What computations keep that start in a state, they keep one after the other. -/
theorem finalState_bind {R : σ → σ → Prop} (htrans : ∀ r s t, R r s → R s t → R r t)
    {x : EStateM ε σ α} {f : α → EStateM ε σ β} {s : σ} (hx : R s (x s).finalState)
    (hf : ∀ a t, x s = .ok a t → R t (f a t).finalState) : R s ((x >>= f) s).finalState := by
  rw [bind_apply]
  cases h : x s with
  | ok a t =>
    rw [h] at hx
    exact htrans s t _ hx (hf a t h)
  | error e t =>
    rw [h] at hx
    exact hx

variable {τ δ : Type} {R : σ → τ → Prop}

/-- An outcome with its state seen otherwise. -/
def Result.mapState (view : σ → τ) : Result ε σ α → Result ε τ α
  | .ok a s => .ok a (view s)
  | .error e s => .error e (view s)

/-- Computations that go alike under a view go alike one after the other. -/
theorem bind_mapState {view : σ → τ} {x : EStateM ε σ α} {y : EStateM ε τ α}
    {f : α → EStateM ε σ β} {g : α → EStateM ε τ β} {s : σ}
    (h : y (view s) = (x s).mapState view)
    (hnext : ∀ a t, g a (view t) = (f a t).mapState view) :
    (y >>= g) (view s) = ((x >>= f) s).mapState view := by
  rw [bind_apply, bind_apply, h]
  cases x s with
  | ok a t => exact hnext a t
  | error e t => rfl

/-- Two outcomes agree when both are failures, or both are the same value with related states. -/
inductive Result.Agree (R : σ → τ → Prop) : Result ε σ α → Result δ τ α → Prop
  /-- The same values with related states agree. -/
  | ok {a : α} {s : σ} {t : τ} (h : R s t) : Agree R (.ok a s) (.ok a t)
  /-- Any two failures agree. -/
  | error {e : ε} {d : δ} {s : σ} {t : τ} : Agree R (.error e s) (.error d t)

/-- Computations that agree one by one agree one after the other. -/
theorem Result.Agree.bind {Q : σ → τ → Prop} {x : EStateM ε σ α} {y : EStateM δ τ α}
    {f : α → EStateM ε σ β} {g : α → EStateM δ τ β} {s : σ} {t : τ} (h : Agree R (x s) (y t))
    (hnext : ∀ a s t, R s t → Agree Q (f a s) (g a t)) :
    Agree Q ((x >>= f) s) ((y >>= g) t) := by
  rw [bind_apply, bind_apply]
  generalize x s = r, y t = r' at h
  cases h with
  | ok h => exact hnext _ _ _ h
  | error => exact .error

end EStateM
