import Mathlib.Data.Nat.Notation

/-!
# Procedures that are made of calls

A procedure of a library makes one call after another on a state that it shares
with everybody else. A call that fails ends the procedure, and what the calls
before it did stays done: there is no way back. `EStateM` is the monad of such
procedures, with the state left at the error as it is.

The rules here take a procedure apart at its calls. `bind_ok` and `bind_error`
say how a sequence succeeds and how it fails, `pure_ok` and `throw_error` how it
ends.
-/

namespace Coht.Lib

universe u

namespace Calls

variable {σ ε α β : Type u} {x : EStateM ε σ α} {f : α → EStateM ε σ β} {s s' : σ}

theorem bind_of_ok {a : α} {s₁ : σ} (h : x s = .ok a s₁) : (x >>= f) s = f a s₁ := by
  simp only [bind, EStateM.bind, h]

theorem bind_of_error {e : ε} (h : x s = .error e s') : (x >>= f) s = .error e s' := by
  simp only [bind, EStateM.bind, h]

theorem bind_ok {b : β} : (x >>= f) s = .ok b s' ↔
    ∃ a s₁, x s = .ok a s₁ ∧ f a s₁ = .ok b s' := by
  constructor
  · intro h
    cases hx : x s with
    | ok a s₁ => exact ⟨a, s₁, rfl, (bind_of_ok hx).symm.trans h⟩
    | error e s₁ => cases (bind_of_error hx).symm.trans h
  · intro ⟨a, s₁, hx, h⟩
    exact (bind_of_ok hx).trans h

/-- A sequence fails at its first call, or goes on after it and fails. -/
theorem bind_error {e : ε} : (x >>= f) s = .error e s' ↔
    x s = .error e s' ∨ ∃ a s₁, x s = .ok a s₁ ∧ f a s₁ = .error e s' := by
  constructor
  · intro h
    cases hx : x s with
    | ok a s₁ => exact .inr ⟨a, s₁, rfl, (bind_of_ok hx).symm.trans h⟩
    | error e' s₁ =>
      cases (bind_of_error (f := f) hx).symm.trans h
      exact .inl rfl
  · intro h
    rcases h with hx | ⟨a, s₁, hx, h⟩
    · exact bind_of_error hx
    · exact (bind_of_ok hx).trans h

theorem pure_ok {a b : α} : (pure a : EStateM ε σ α) s = .ok b s' ↔ b = a ∧ s' = s := by
  constructor
  · intro h
    cases h
    exact ⟨rfl, rfl⟩
  · intro ⟨hb, hs⟩
    rw [hb, hs]
    rfl

theorem not_pure_error {a : α} {e : ε} : (pure a : EStateM ε σ α) s ≠ .error e s' := by
  intro h
  cases h

theorem not_throw_ok {e : ε} {a : α} : (throw e : EStateM ε σ α) s ≠ .ok a s' := by
  intro h
  cases h

theorem throw_error {e e' : ε} : (throw e : EStateM ε σ α) s = .error e' s' ↔
    e' = e ∧ s' = s := by
  constructor
  · intro h
    cases h
    exact ⟨rfl, rfl⟩
  · intro ⟨he, hs⟩
    rw [he, hs]
    rfl

end Calls

end Coht.Lib
