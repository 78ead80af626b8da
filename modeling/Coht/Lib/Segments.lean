import Mathlib.Data.List.TakeWhile

/-!
# Lists in segments

A predicate `p` says which elements of a list separate: in front of the first
one, between two of them and behind the last one are the segments. An
induction over a list can go from segment to segment, and a walk that ends at
an element that `f` is false of does not see what comes behind it.
-/

namespace Coht.Lib

universe u

variable {α : Type u} {s t : List α}

theorem takeWhile_append_stop {f : α → Bool}
    (ht : ∀ d ∈ t.head?, f d = false) :
    (s ++ t).takeWhile f = s.takeWhile f := by
  induction s with
  | nil =>
    cases t with
    | nil => rfl
    | cons d t => rw [List.nil_append, List.takeWhile_cons, ht d rfl]; rfl
  | cons c s ih =>
    rw [List.cons_append, List.takeWhile_cons, List.takeWhile_cons, ih]

theorem dropWhile_append_stop {f : α → Bool}
    (ht : ∀ d ∈ t.head?, f d = false) :
    (s ++ t).dropWhile f = s.dropWhile f ++ t := by
  induction s with
  | nil =>
    cases t with
    | nil => rfl
    | cons d t => rw [List.nil_append, List.dropWhile_cons, ht d rfl]; rfl
  | cons c s ih =>
    rw [List.cons_append, List.dropWhile_cons, List.dropWhile_cons, ih]
    split <;> rfl

/-- The last segment, and one more in front of a separator. -/
@[elab_as_elim]
theorem segments_induction (p : α → Bool) {motive : List α → Prop}
    (last : ∀ s, (∀ c ∈ s, p c = false) → motive s)
    (cons : ∀ s d t, (∀ c ∈ s, p c = false) → p d = true → motive t →
      motive (s ++ d :: t))
    (l : List α) : motive l := by
  suffices h : ∀ s, (∀ c ∈ s, p c = false) → motive (s ++ l) from
    h [] fun _ hc => by cases hc
  induction l with
  | nil =>
    intro s hs
    rw [List.append_nil]
    exact last s hs
  | cons d t ih =>
    intro s hs
    cases hd : p d with
    | true => exact cons s d t hs hd (ih [] fun _ hc => by cases hc)
    | false =>
      rw [List.append_cons]
      refine ih (s ++ [d]) fun c hc => ?_
      rcases List.mem_append.mp hc with hc | hc
      · exact hs c hc
      · rwa [List.mem_singleton.mp hc]

end Coht.Lib
