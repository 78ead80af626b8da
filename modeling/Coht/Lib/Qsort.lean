import Mathlib.Data.List.Sort

/-!
# Sorting with a comparison function

`qsort()` of the C library sorts an array by a function that says for two
elements whether the first belongs before the second (below 0), behind it (above
0) or neither. The function is asked to be consistent, that is to say a total
order up to ties, on the elements of the array. If it is not, nothing is said
about the order of the result; here it is still a permutation.

`Sorts` is what the caller may rely on. `exists_sorts` says that there is such a
result, whatever the function.
-/

namespace Coht.Lib.Qsort

variable {α : Type*} {cmp : α → α → Int} {xs ys : List α} {a b : α}

structure Consistent (cmp : α → α → Int) (xs : List α) : Prop where
  antisymm : ∀ a ∈ xs, ∀ b ∈ xs, cmp a b < 0 ↔ 0 < cmp b a
  trans : ∀ a ∈ xs, ∀ b ∈ xs, ∀ c ∈ xs, cmp a b ≤ 0 → cmp b c ≤ 0 → cmp a c ≤ 0

structure Sorts (cmp : α → α → Int) (xs ys : List α) : Prop where
  perm : ys.Perm xs
  sorted : Consistent cmp xs → ys.Pairwise fun a b => cmp a b ≤ 0

/-- Of two elements one may stand before the other. -/
theorem Consistent.total (h : Consistent cmp xs) (ha : a ∈ xs) (hb : b ∈ xs) :
    cmp a b ≤ 0 ∨ cmp b a ≤ 0 := by
  have := h.antisymm b hb a ha
  omega

theorem exists_sorts (cmp : α → α → Int) (xs : List α) :
    ∃ ys, Sorts cmp xs ys := by
  by_cases h : Consistent cmp xs
  · -- The function is an order on the elements of the list and nowhere else.
    let le : { x // x ∈ xs } → { x // x ∈ xs } → Bool :=
      fun a b => decide (cmp a b ≤ 0)
    have htrans : ∀ a b c, le a b = true → le b c = true → le a c = true := by
      intro a b c hab hbc
      have hac := h.trans a a.2 b b.2 c c.2 (of_decide_eq_true hab)
        (of_decide_eq_true hbc)
      exact decide_eq_true hac
    have htotal : ∀ a b, (le a b || le b a) = true := by
      intro a b
      simpa [le] using h.total a.2 b.2
    refine ⟨(xs.attach.mergeSort le).map Subtype.val, ?_, fun _ => ?_⟩
    · have hperm := (List.mergeSort_perm xs.attach le).map Subtype.val
      rwa [List.attach_map_subtype_val] at hperm
    · refine List.pairwise_map.mpr ((List.pairwise_mergeSort htrans htotal _).imp ?_)
      exact of_decide_eq_true
  · exact ⟨xs, List.Perm.refl xs, fun hc => absurd hc h⟩

/-- An inconsistent function allows for every order. -/
theorem Sorts.of_perm (h : ¬Consistent cmp xs) (hperm : ys.Perm xs) :
    Sorts cmp xs ys :=
  ⟨hperm, fun hc => absurd hc h⟩

/-- What is first does not belong behind anything. -/
theorem Sorts.head (h : Sorts cmp xs (a :: ys)) (hc : Consistent cmp xs)
    (hb : b ∈ ys) : cmp a b ≤ 0 :=
  List.rel_of_pairwise_cons (h.sorted hc) hb

end Coht.Lib.Qsort
