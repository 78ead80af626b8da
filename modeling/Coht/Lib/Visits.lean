import Mathlib.Data.List.Basic

/-!
# Loops that visit the slots of a table

A loop over the slots of a table that does its work on one slot after the other
is a fold over their numbers. When a visit changes the slot it is at and no
other, and what it does there depends on that slot alone, the fold does to each
slot what one visit would: `foldl_visit` says so for a `view` of the table by
slots. What the visits do to something the slots share, a mask for example, is
in `foldl_adds` and `foldl_drops`.

All are stated for a list of distinct numbers, so they hold for a loop over the
slots that meet a condition too.

A cell that the visits only write over has, in the end, what the last of them
wrote. `foldl_overwrites` says when that is still what it was cleared to.
-/

namespace Coht.Lib

universe u v w

variable {σ : Type u} {α : Type v} {β : Type w} {f : σ → Nat → σ} {slots : List Nat}
  {i : Nat} {s : σ}

/-- A visit changes no slot but the one it is at, as far as `view` shows. -/
def Separate (f : σ → Nat → σ) (view : σ → Nat → α) (slots : List Nat) : Prop :=
  ∀ s, ∀ i ∈ slots, ∀ j, j ≠ i → view (f s i) j = view s j

/-- What a visit makes of its slot depends on that slot alone. -/
def Local (f : σ → Nat → σ) (view : σ → Nat → α) (slots : List Nat) : Prop :=
  ∀ s s', ∀ i ∈ slots, view s i = view s' i → view (f s i) i = view (f s' i) i

variable {view : σ → Nat → α}

theorem foldl_not_mem (h : Separate f view slots) (hi : i ∉ slots) :
    view (slots.foldl f s) i = view s i := by
  induction slots generalizing s with
  | nil => rfl
  | cons j slots ih =>
    have hj : i ≠ j := List.ne_of_not_mem_cons hi
    have hrest : Separate f view slots := fun s i hi => h s i (List.mem_cons_of_mem _ hi)
    rw [List.foldl_cons, ih hrest (List.not_mem_of_not_mem_cons hi)]
    exact h s j List.mem_cons_self i hj

/-- A loop over distinct slots does to each of them what one visit would. -/
theorem foldl_visit (h : Separate f view slots) (hlocal : Local f view slots)
    (hnodup : slots.Nodup) (hi : i ∈ slots) :
    view (slots.foldl f s) i = view (f s i) i := by
  induction slots generalizing s with
  | nil => cases hi
  | cons j slots ih =>
    obtain ⟨hj, hrest⟩ := List.nodup_cons.mp hnodup
    have hsep : Separate f view slots :=
      fun s i hi => h s i (List.mem_cons_of_mem _ hi)
    have hown : Local f view slots :=
      fun s s' i hi => hlocal s s' i (List.mem_cons_of_mem _ hi)
    rw [List.foldl_cons]
    rcases List.mem_cons.mp hi with heq | hmem
    · subst heq
      exact foldl_not_mem hsep hj
    · have hne : i ≠ j := fun heq => hj (heq ▸ hmem)
      rw [ih hsep hown hrest hmem]
      exact hlocal _ _ i hi (h s j List.mem_cons_self i hne)

/-- A loop that reads something of the slot it is at before its visit could
have read it of all slots before the first visit. -/
theorem foldl_read {visit : α → σ → Nat → σ}
    (h : Separate (fun s i => visit (view s i) s i) view slots) (hnodup : slots.Nodup) :
    slots.foldl (fun s i => visit (view s i) s i) s =
      slots.foldl (fun t i => visit (view s i) t i) s := by
  induction slots generalizing s with
  | nil => rfl
  | cons j slots ih =>
    obtain ⟨hj, hrest⟩ := List.nodup_cons.mp hnodup
    rw [List.foldl_cons, List.foldl_cons,
      ih (fun s i hi => h s i (List.mem_cons_of_mem _ hi)) hrest]
    apply List.foldl_ext
    intro t i hi
    have hne : i ≠ j := fun heq => hj (heq ▸ hi)
    rw [h s j List.mem_cons_self i hne]

/-! ## What the visits add up to

`total` is a fact about the table as a whole that a visit may add to or take
away; `part` says of each slot whether its visit does. `kept` holds all
along. -/

section

variable {kept total : σ → Prop} {part : σ → Nat → Prop}

/-- What a visit adds stays, so it is there in the end if one visit adds it. -/
theorem foldl_adds (hkept : ∀ s, ∀ i ∈ slots, kept s → kept (f s i))
    (htotal : ∀ s, ∀ i ∈ slots, kept s → (total (f s i) ↔ total s ∨ part s i))
    (hpart : ∀ s, ∀ i ∈ slots, kept s → ∀ j, j ≠ i → (part (f s i) j ↔ part s j))
    (hnodup : slots.Nodup) (hs : kept s) :
    total (slots.foldl f s) ↔ total s ∨ ∃ i ∈ slots, part s i := by
  induction slots generalizing s with
  | nil => simp
  | cons j slots ih =>
    obtain ⟨hj, hrest⟩ := List.nodup_cons.mp hnodup
    have hhead := List.mem_cons_self (a := j) (l := slots)
    have hsame : (∃ i ∈ slots, part (f s j) i) ↔ ∃ i ∈ slots, part s i := by
      refine exists_congr fun i => and_congr_right fun hi => ?_
      exact hpart s j hhead hs i fun heq => hj (heq ▸ hi)
    rw [List.foldl_cons, ih (fun s i hi => hkept s i (List.mem_cons_of_mem _ hi))
      (fun s i hi => htotal s i (List.mem_cons_of_mem _ hi))
      (fun s i hi => hpart s i (List.mem_cons_of_mem _ hi)) hrest (hkept s j hhead hs),
      htotal s j hhead hs, hsame, or_assoc, List.exists_mem_cons_iff]

/-- What a visit takes away is gone, so it is there in the end if none does. -/
theorem foldl_drops (hkept : ∀ s, ∀ i ∈ slots, kept s → kept (f s i))
    (htotal : ∀ s, ∀ i ∈ slots, kept s → (total (f s i) ↔ total s ∧ ¬ part s i))
    (hpart : ∀ s, ∀ i ∈ slots, kept s → ∀ j, j ≠ i → (part (f s i) j ↔ part s j))
    (hnodup : slots.Nodup) (hs : kept s) :
    total (slots.foldl f s) ↔ total s ∧ ¬ ∃ i ∈ slots, part s i := by
  have hgone : ∀ s, ∀ i ∈ slots, kept s →
      (¬ total (f s i) ↔ ¬ total s ∨ part s i) := by
    intro s i hi hs
    rw [htotal s i hi hs, not_and_or, not_not]
  have hadds := not_congr
    (@foldl_adds _ f slots s kept (fun s => ¬ total s) part hkept hgone hpart hnodup hs)
  rw [not_not, not_or, not_not] at hadds
  exact hadds

end

/-- What every visit keeps, the loop keeps. -/
theorem foldl_keeps {P : σ → Prop} (h : ∀ s i, i ∈ slots → P s → P (f s i))
    (hs : P s) : P (slots.foldl f s) := by
  induction slots generalizing s with
  | nil => exact hs
  | cons j slots ih =>
    exact ih (fun s i hi => h s i (List.mem_cons_of_mem _ hi))
      (h s j List.mem_cons_self hs)

/-- A visit writes over a cell or leaves it. If no visit writes `z`, the cell
holds `z` in the end when it did before and no visit wrote. -/
theorem foldl_overwrites {cell : σ → α} {write : Nat → Option α} {z : α}
    (hstep : ∀ s, ∀ i ∈ slots, cell (f s i) = (write i).getD (cell s))
    (hz : ∀ i ∈ slots, write i ≠ some z) :
    cell (slots.foldl f s) = z ↔ cell s = z ∧ ∀ i ∈ slots, write i = none := by
  induction slots generalizing s with
  | nil => simp
  | cons j slots ih =>
    have hj := hstep s j List.mem_cons_self
    have hrest := @ih (f s j) (fun s i hi => hstep s i (List.mem_cons_of_mem _ hi))
      fun i hi => hz i (List.mem_cons_of_mem _ hi)
    rw [List.foldl_cons, hrest, hj, List.forall_mem_cons]
    cases hw : write j with
    | none => simp
    | some a =>
      have hne : a ≠ z := fun heq => hz j List.mem_cons_self (heq ▸ hw)
      simp [hne]

end Coht.Lib
