import Mathlib.Data.Fintype.Card
import Mathlib.Data.Fintype.Option
import Mathlib.Algebra.BigOperators.Ring.Finset

/-!
# Counting the parties in a phase

A protocol between any number of parties is a function from the parties to
their phases, and a step of one party updates that function at one point.
`count` is the number of parties whose phase satisfies a test; `count_update`
says what one step does to it, which is all that accounting invariants such as
"free permits plus holders" need. `card_le_count` is the pigeonhole that turns
a family of distinct parties into a lower bound.
-/

namespace Coht.Lib

/-- Where a step of `i` leaves `b` at `j`, it is the step of `j` or `b` was there. -/
theorem update_cases {ι α : Type*} [DecidableEq ι] {f : ι → α} {i j : ι} {a b : α}
    (h : Function.update f i a j = b) : j = i ∧ a = b ∨ j ≠ i ∧ f j = b := by
  by_cases hj : j = i
  · subst hj
    rw [Function.update_self] at h
    exact .inl ⟨rfl, h⟩
  · rw [Function.update_of_ne hj] at h
    exact .inr ⟨hj, h⟩

variable {ι : Type*} {α : Type*} [Fintype ι]

/-- The number of parties whose phase satisfies `p`. -/
def count (p : α → Bool) (f : ι → α) : Nat :=
  (Finset.univ.filter fun i => p (f i) = true).card

theorem count_eq_sum (p : α → Bool) (f : ι → α) :
    count p f = ∑ i, (p (f i)).toNat := by
  unfold count
  rw [Finset.card_filter]
  apply Finset.sum_congr rfl
  intro i _
  cases p (f i) <;> rfl

theorem count_update [DecidableEq ι] (p : α → Bool) (f : ι → α) (i : ι)
    (a : α) :
    count p (Function.update f i a) + (p (f i)).toNat =
      count p f + (p a).toNat := by
  have hcongr : ∀ j, (p (Function.update f i a j)).toNat =
      Function.update (fun j => (p (f j)).toNat) i (p a).toNat j := by
    intro j
    by_cases hj : j = i
    · subst hj
      rw [Function.update_self, Function.update_self]
    · rw [Function.update_of_ne hj, Function.update_of_ne hj]
  rw [count_eq_sum, count_eq_sum, Finset.sum_congr rfl fun j _ => hcongr j,
    Finset.sum_update_of_mem (Finset.mem_univ i),
    Finset.sdiff_singleton_eq_erase,
    ← Finset.add_sum_erase _ (fun j => (p (f j)).toNat) (Finset.mem_univ i)]
  omega

theorem count_eq_zero {p : α → Bool} {f : ι → α}
    (h : ∀ i, p (f i) = false) : count p f = 0 := by
  rw [count_eq_sum]
  apply Finset.sum_eq_zero
  intro i _
  rw [h i]
  rfl

/-- As many distinct parties in the phase as there are indices. -/
theorem card_le_count {κ : Type*} [Fintype κ] {p : α → Bool} {f : ι → α}
    (h : κ → ι) (hinj : Function.Injective h)
    (hp : ∀ k, p (f (h k)) = true) : Fintype.card κ ≤ count p f := by
  unfold count
  apply Finset.card_le_card_of_injOn h
  · intro k _
    exact Finset.mem_coe.mpr (Finset.mem_filter.mpr ⟨Finset.mem_univ _, hp k⟩)
  · exact hinj.injOn

end Coht.Lib
