import Mathlib.Tactic.Common

/-!
# Computations that succeed

The stages of a rule are computations that may fail.  These lemmas take the success of a composed
computation apart into the success of its parts, whatever its error type is.

Most theorems about success go through `bind_eq_ok`: rewriting with it turns a sequence of steps
that succeeded into the values that the steps gave, one equation each, with no step unfolded.  Some
theorems compare two computations that may word their errors differently.  For these, a result is
looked at through `Except.toOption`, which forgets the error and goes through sequences as well.
-/

namespace Cellular

variable {ε ε' α β : Type}

/-- A sequence of two computations succeeds exactly when both do. -/
lemma bind_eq_ok {x : Except ε α} {f : α → Except ε β} {b : β} :
    (x >>= f) = .ok b ↔ ∃ a, x = .ok a ∧ f a = .ok b := by
  cases x with
  | error e => simp [bind, Except.bind]
  | ok a => simp [bind, Except.bind]

lemma pure_eq_ok {a b : α} : (pure a : Except ε α) = .ok b ↔ a = b := by
  constructor
  · intro h
    cases h
    rfl
  · rintro rfl
    rfl

/-- Wording an error differently changes no success. -/
lemma mapError_eq_ok {x : Except ε α} {f : ε → ε'} {a : α} :
    x.mapError f = .ok a ↔ x = .ok a := by
  cases x <;> simp [Except.mapError]

/-- A success is seen from what its result is mapped to. -/
lemma exists_ok_of_toOption {x : Except ε α} {f : α → β} {b : β}
    (h : x.toOption.map f = some b) : ∃ a, x = .ok a ∧ f a = b := by
  cases x with
  | error e => simp [Except.toOption] at h
  | ok a => exact ⟨a, rfl, by simpa [Except.toOption] using h⟩

/-- What a sequence gives, if both computations give anything. -/
lemma toOption_bind (x : Except ε α) (f : α → Except ε β) :
    (x >>= f).toOption = x.toOption.bind fun a => (f a).toOption := by
  cases x <;> rfl

lemma toOption_eq_some {x : Except ε α} {a : α} : x.toOption = some a ↔ x = .ok a := by
  cases x <;> simp [Except.toOption]

/-- An error that is worded differently is left out all the same. -/
@[simp] lemma toOption_mapError (x : Except ε α) (f : ε → ε') :
    (x.mapError f).toOption = x.toOption := by
  cases x <;> rfl

/-- What gives the same, errors aside, succeeds alike. -/
lemma ok_of_toOption_eq {x : Except ε α} {y : Except ε' α} (h : x.toOption = y.toOption) {a : α}
    (hx : x = .ok a) : y = .ok a := by
  rwa [← toOption_eq_some, ← h, toOption_eq_some]

/-- A computation behind one that succeeds. -/
@[simp] lemma ok_bind (a : α) (f : α → Except ε β) : (Except.ok a >>= f) = f a := rfl

end Cellular
