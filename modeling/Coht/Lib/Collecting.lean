import Mathlib.Data.List.Basic

/-!
# Loops that collect records

A loop goes over some items and appends records to a list. It may look through the
list for a record first and not append another one of the same kind; then of each
kind the first one wins. `Collects` is what such a loop does to one kind of records:
there is one in the list after it if there was one before it, and else the one that
the first item with any has given. Loops in loops collect too.
-/

namespace Coht.Lib

universe u v

variable {α : Type u} {β : Type v} {p : α → Bool} {step : List α → β → List α}
  {f : β → Option α} {l : List α} {bs : List β}

/-- After a round for `b` the first record of the kind is the one that was there, or
the one that `b` gives. -/
def Collects (p : α → Bool) (step : List α → β → List α) (f : β → Option α) : Prop :=
  ∀ l b, (step l b).find? p = (l.find? p).or (f b)

/-- A loop of such rounds. -/
theorem Collects.foldl (h : Collects p step f) :
    Collects p (fun l (bs : List β) => bs.foldl step l) fun bs => bs.findSome? f := by
  intro l bs
  induction bs generalizing l with
  | nil => exact Option.or_none.symm
  | cons b bs ih =>
    refine (ih (step l b)).trans ?_
    rw [h, Option.or_assoc]
    refine congrArg _ ?_
    show (f b).or (bs.findSome? f) = (b :: bs).findSome? f
    rw [List.findSome?_cons]
    cases f b with
    | none => rfl
    | some a => rfl

/-- A round that appends a record. -/
theorem find?_append_one (a : α) :
    (l ++ [a]).find? p = (l.find? p).or (if p a then some a else none) := by
  rw [List.find?_append, List.find?_cons]
  cases p a with
  | true => rfl
  | false => rfl

/-- What is in the list stays there. -/
theorem mem_foldl_of_mem (h : ∀ l b, l ⊆ step l b) {a : α} (ha : a ∈ l) :
    a ∈ bs.foldl step l := by
  induction bs generalizing l with
  | nil => exact ha
  | cons b bs ih => exact ih (h l b ha)

theorem mem_foldl_of_step (h : ∀ l b, l ⊆ step l b) {a : α} {b : β} (hb : b ∈ bs)
    (ha : ∀ l, a ∈ step l b) : a ∈ bs.foldl step l := by
  induction bs generalizing l with
  | nil => cases hb
  | cons b' bs ih =>
    rcases List.mem_cons.mp hb with rfl | hb
    · exact mem_foldl_of_mem (l := step l b) h (ha l)
    · exact ih hb

end Coht.Lib
