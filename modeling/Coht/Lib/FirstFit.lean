import Mathlib.Data.List.Range

/-!
# First fit in a row of slots

A row of numbered slots, some of them free, is searched from the left for
`want` free slots in a row. The search keeps one counter, the length of the
free run it stands at the end of, and starts it again at every slot that is
not free. It stops at the slot that makes the counter `want`.

A search that reaches the end of the row leaves whatever the counter then is.
`search_spec` therefore has two outcomes and not three: the counter is zero, or
it is the length of a free run, which is `want` unless the row ended first.
-/

namespace Coht.Lib

/-- The `k` slots from `f` on are all free. -/
def FreeRun (free : Nat → Bool) (f k : Nat) : Prop :=
  ∀ n, f ≤ n → n < f + k → free n = true

structure Search where
  last : Nat := 0
  start : Nat := 0
  count : Nat := 0
deriving DecidableEq

def search (free : Nat → Bool) (want : Nat) : List Nat → Search → Search
  | [], acc => acc
  | n :: ns, acc =>
    if free n = true then
      let start := if acc.count = 0 then n else acc.start
      if want ≤ acc.count + 1 then ⟨n, start, acc.count + 1⟩
      else search free want ns ⟨n, start, acc.count + 1⟩
    else search free want ns ⟨n, acc.start, 0⟩

section

variable {free : Nat → Bool} {want lo a n : Nat} {acc : Search}

/-- Where the search stands before slot `a` of a row that starts at `lo`. The
counter is the length of the free run that ends there, and `longest` says that
this run cannot be extended to the left. -/
structure Searching (free : Nat → Bool) (want lo a : Nat) (acc : Search) :
    Prop where
  short : acc.count < want
  fits : lo + acc.count ≤ a
  run : FreeRun free (a - acc.count) acc.count
  longest : lo + acc.count < a → free (a - acc.count - 1) = false
  start : 0 < acc.count → acc.start + acc.count = a
  last : lo < a → acc.last + 1 = a
  none : ∀ f, lo ≤ f → f + want ≤ a → ¬ FreeRun free f want

theorem Searching.begin (hwant : 0 < want) (lo : Nat) :
    Searching free want lo lo {} where
  short := hwant
  fits := Nat.le_refl _
  run := by
    intro n hn hlt
    have hlt : n < lo := hlt
    have hn : lo ≤ n := hn
    omega
  longest := by
    intro h
    exact absurd h (Nat.lt_irrefl _)
  start := by
    intro h
    exact absurd h (Nat.lt_irrefl _)
  last := by
    intro h
    exact absurd h (Nat.lt_irrefl _)
  none := by
    intro f hf hle
    omega

/-- The free run grows by a free slot. -/
theorem Searching.run_succ (h : Searching free want lo a acc)
    (hfree : free a = true) :
    FreeRun free (a - acc.count) (acc.count + 1) := by
  intro n hn hlt
  have hfits := h.fits
  by_cases hna : n = a
  · rw [hna]
    exact hfree
  · exact h.run n hn (by omega)

theorem Searching.start_succ (h : Searching free want lo a acc) :
    (if acc.count = 0 then a else acc.start) + (acc.count + 1) = a + 1 := by
  split
  · omega
  · have hstart := h.start (by omega)
    omega

theorem Searching.skip (h : Searching free want lo a acc)
    (hfree : free a = false) :
    Searching free want lo (a + 1) ⟨a, acc.start, 0⟩ where
  short := Nat.lt_of_le_of_lt (Nat.zero_le _) h.short
  fits := by
    have := h.fits
    show lo + 0 ≤ a + 1
    omega
  run := by
    intro n hn hlt
    have hlt : n < a + 1 := hlt
    have hn : a + 1 ≤ n := hn
    omega
  longest := by
    intro _
    exact hfree
  start := by
    intro hpos
    exact absurd hpos (Nat.lt_irrefl _)
  last := by
    intro _
    rfl
  none := by
    intro f hlo hle hrun
    have hshort := h.short
    rcases Nat.lt_or_ge a (f + want) with hlt | hge
    · have hfa := hrun a (by omega) hlt
      rw [hfree] at hfa
      cases hfa
    · exact h.none f hlo hge hrun

theorem Searching.take (h : Searching free want lo a acc)
    (hfree : free a = true) (hshort : acc.count + 1 < want) :
    Searching free want lo (a + 1)
      ⟨a, if acc.count = 0 then a else acc.start, acc.count + 1⟩ where
  short := hshort
  fits := by
    have := h.fits
    show lo + (acc.count + 1) ≤ a + 1
    omega
  run := by
    have hsub : a + 1 - (acc.count + 1) = a - acc.count := by omega
    show FreeRun free (a + 1 - (acc.count + 1)) (acc.count + 1)
    rw [hsub]
    exact h.run_succ hfree
  longest := by
    intro hlt
    have hlt : lo + (acc.count + 1) < a + 1 := hlt
    show free (a + 1 - (acc.count + 1) - 1) = false
    have hsub : a + 1 - (acc.count + 1) - 1 = a - acc.count - 1 := by omega
    rw [hsub]
    exact h.longest (by omega)
  start := by
    intro _
    exact h.start_succ
  last := by
    intro _
    rfl
  none := by
    intro f hlo hle hrun
    have hfits := h.fits
    rcases Nat.lt_or_ge a (f + want) with hlt | hge
    · -- the run would end at `a`, and so reach over the left end of the
      -- longest one
      have hocc := h.longest (by omega)
      have hin := hrun (a - acc.count - 1) (by omega) (by omega)
      rw [hocc] at hin
      cases hin
    · exact h.none f hlo hge hrun

/-- A search that found free slots in the row from `lo` up to `hi`. They are
the first `want` of them in a row, or, where there is no such run, those that
end the row. -/
structure Found (free : Nat → Bool) (want lo hi : Nat) (r : Search) :
    Prop where
  pos : 0 < r.count
  le : r.count ≤ want
  low : lo ≤ r.start
  high : r.start + r.count ≤ hi
  last : r.last + 1 = r.start + r.count
  run : FreeRun free r.start r.count
  first : ∀ f, lo ≤ f → f + want ≤ hi → FreeRun free f want → r.start ≤ f
  full : r.count = want ∨
    (r.start + r.count = hi ∧
      ∀ f, lo ≤ f → f + want ≤ hi → ¬ FreeRun free f want)

/-- The row ends in a slot that is not free, and there is no room in it. -/
def NoFit (free : Nat → Bool) (want lo hi : Nat) : Prop :=
  free (hi - 1) = false ∧
    ∀ f, lo ≤ f → f + want ≤ hi → ¬ FreeRun free f want

theorem Searching.full (h : Searching free want lo a acc) {hi : Nat}
    (hhi : a < hi) (hfree : free a = true) (hfull : want ≤ acc.count + 1) :
    Found free want lo hi
      ⟨a, if acc.count = 0 then a else acc.start, acc.count + 1⟩ := by
  have hshort := h.short
  have hfits := h.fits
  have hwant : want = acc.count + 1 := by omega
  have hstart := h.start_succ
  refine ⟨Nat.succ_pos _, Nat.le_of_eq hwant.symm, ?_, ?_, ?_, ?_, ?_,
    .inl hwant.symm⟩
  · show lo ≤ (if acc.count = 0 then a else acc.start)
    omega
  · show (if acc.count = 0 then a else acc.start) + (acc.count + 1) ≤ hi
    omega
  · exact hstart.symm
  · have heq : (if acc.count = 0 then a else acc.start) = a - acc.count := by
      omega
    show FreeRun free (if acc.count = 0 then a else acc.start) (acc.count + 1)
    rw [heq]
    exact h.run_succ hfree
  · intro f hlo hle hrun
    show (if acc.count = 0 then a else acc.start) ≤ f
    rcases Nat.lt_or_ge a (f + want) with hlt | hge
    · omega
    · exact absurd hrun (h.none f hlo hge)

theorem Searching.finish (h : Searching free want lo a acc) (hlo : lo < a) :
    (acc.count = 0 ∧ NoFit free want lo a) ∨ Found free want lo a acc := by
  have hfits := h.fits
  rcases Nat.eq_zero_or_pos acc.count with hzero | hpos
  · have hlong := h.longest (by omega)
    rw [hzero] at hlong
    exact .inl ⟨hzero, hlong, h.none⟩
  · have hstart := h.start hpos
    refine .inr ⟨hpos, Nat.le_of_lt h.short, by omega, by omega, ?_, ?_, ?_,
      .inr ⟨hstart, h.none⟩⟩
    · rw [h.last hlo]
      exact hstart.symm
    · have heq : acc.start = a - acc.count := by omega
      rw [heq]
      exact h.run
    · intro f hf hle hrun
      exact absurd hrun (h.none f hf hle)

theorem Searching.search (h : Searching free want lo a acc)
    (hrow : lo < a + n) :
    ((search free want (List.range' a n) acc).count = 0 ∧
        NoFit free want lo (a + n)) ∨
      Found free want lo (a + n)
        (search free want (List.range' a n) acc) := by
  induction n generalizing a acc with
  | zero => exact h.finish hrow
  | succ n ih =>
    rw [List.range'_succ, search]
    have hend : a + (n + 1) = a + 1 + n := by omega
    cases hfree : free a with
    | false =>
      rw [if_neg Bool.false_ne_true, hend]
      exact ih (h.skip hfree) (by omega)
    | true =>
      rw [if_pos rfl]
      by_cases hfull : want ≤ acc.count + 1
      · rw [if_pos hfull]
        exact .inr (h.full (by omega) hfree hfull)
      · rw [if_neg hfull, hend]
        exact ih (h.take hfree (by omega)) (by omega)

/-- What a search over the row from `lo` up to `lo + n` comes back with. -/
theorem search_spec (free : Nat → Bool) (lo : Nat) (hwant : 0 < want)
    (hn : 0 < n) :
    ((search free want (List.range' lo n) {}).count = 0 ∧
        NoFit free want lo (lo + n)) ∨
      Found free want lo (lo + n)
        (search free want (List.range' lo n) {}) :=
  (Searching.begin hwant lo).search (by omega)

end

end Coht.Lib
