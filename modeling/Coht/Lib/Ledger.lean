import Mathlib.Logic.Function.Basic
import Mathlib.Data.List.Perm.Basic

/-!
# Books on what is acquired and released

A `Ledger` counts, for each resource, how often it is held, and remembers
whether something was released that was not held. Cleaning up is correct when
the books are balanced at the end: nothing is held and nothing stray was
released.
-/

namespace Coht.Lib

universe u

structure Ledger (ρ : Type u) where
  held : ρ → Nat := fun _ => 0
  stray : Bool := false

namespace Ledger

variable {ρ : Type u}

structure Balanced (l : Ledger ρ) : Prop where
  none : ∀ r, l.held r = 0
  clean : l.stray = false

theorem not_balanced_of_held {l : Ledger ρ} {r : ρ} (h : l.held r ≠ 0) :
    ¬ l.Balanced :=
  fun hb => h (hb.none r)

theorem not_balanced_of_stray {l : Ledger ρ} (h : l.stray = true) :
    ¬ l.Balanced := by
  intro hb
  rw [hb.clean] at h
  cases h

variable [DecidableEq ρ]

def acquire (r : ρ) (l : Ledger ρ) : Ledger ρ :=
  { l with held := Function.update l.held r (l.held r + 1) }

def release (r : ρ) (l : Ledger ρ) : Ledger ρ :=
  if l.held r = 0 then { l with stray := true }
  else { l with held := Function.update l.held r (l.held r - 1) }

variable {l : Ledger ρ} {r q : ρ}

theorem acquire_held : (l.acquire r).held q =
    if q = r then l.held r + 1 else l.held q := by
  unfold acquire
  by_cases hq : q = r
  · subst hq
    rw [if_pos rfl]
    exact Function.update_self q _ l.held
  · rw [if_neg hq]
    exact Function.update_of_ne hq _ l.held

@[simp] theorem acquire_stray : (l.acquire r).stray = l.stray := rfl

theorem release_held (h : l.held r ≠ 0) : (l.release r).held q =
    if q = r then l.held r - 1 else l.held q := by
  unfold release
  rw [if_neg h]
  by_cases hq : q = r
  · subst hq
    rw [if_pos rfl]
    exact Function.update_self q _ l.held
  · rw [if_neg hq]
    exact Function.update_of_ne hq _ l.held

theorem release_stray (h : l.held r ≠ 0) : (l.release r).stray = l.stray := by
  unfold release
  rw [if_neg h]

theorem release_of_none (h : l.held r = 0) : (l.release r).stray = true := by
  unfold release
  rw [if_pos h]

/-- What is stray stays stray. -/
theorem release_stray_of_stray (h : l.stray = true) :
    (l.release r).stray = true := by
  unfold release
  split
  · rfl
  · exact h

theorem release_acquire : (l.acquire r).release r = l := by
  unfold release acquire
  simp

/-- What is acquired after something else is released may as well have been before. -/
theorem release_acquire_of_ne (h : q ≠ r) :
    (l.release r).acquire q = (l.acquire q).release r := by
  have hheld : (l.acquire q).held r = l.held r := by
    rw [acquire_held, if_neg (Ne.symm h)]
  unfold release
  rw [hheld]
  split
  · rfl
  · simp only [acquire, Function.update_of_ne h, Function.update_comm (Ne.symm h)]

/-- The resources of a list, one after the other. -/
def acquireAll : List ρ → Ledger ρ → Ledger ρ
  | [], l => l
  | r :: rs, l => acquireAll rs (l.acquire r)

theorem acquireAll_append {rs qs : List ρ} :
    acquireAll (rs ++ qs) l = acquireAll qs (acquireAll rs l) := by
  induction rs generalizing l with
  | nil => rfl
  | cons r rs ih => exact ih

theorem acquireAll_held {rs : List ρ} :
    (acquireAll rs l).held q = rs.count q + l.held q := by
  induction rs generalizing l with
  | nil => simp [acquireAll]
  | cons r rs ih =>
    rw [acquireAll, ih, acquire_held, List.count_cons]
    by_cases hq : q = r
    · subst hq
      rw [if_pos rfl, if_pos (beq_self_eq_true q)]
      omega
    · rw [if_neg hq, if_neg (by simpa using Ne.symm hq)]
      omega

theorem release_held_of_ne (h : q ≠ r) : (l.release r).held q = l.held q := by
  unfold release
  split
  · rfl
  · exact Function.update_of_ne h _ l.held

def releaseAll : List ρ → Ledger ρ → Ledger ρ
  | [], l => l
  | r :: rs, l => releaseAll rs (l.release r)

theorem releaseAll_append {rs qs : List ρ} :
    releaseAll (rs ++ qs) l = releaseAll qs (releaseAll rs l) := by
  induction rs generalizing l with
  | nil => rfl
  | cons r rs ih => exact ih

theorem acquireAll_stray {rs : List ρ} : (acquireAll rs l).stray = l.stray := by
  induction rs generalizing l with
  | nil => rfl
  | cons r rs ih => exact ih

theorem releaseAll_of_stray {rs : List ρ} (h : l.stray = true) :
    (releaseAll rs l).stray = true := by
  induction rs generalizing l with
  | nil => exact h
  | cons r rs ih => exact ih (release_stray_of_stray h)

theorem releaseAll_held_of_notMem {rs : List ρ} (h : q ∉ rs) :
    (releaseAll rs l).held q = l.held q := by
  induction rs generalizing l with
  | nil => rfl
  | cons r rs ih =>
    rw [releaseAll, ih (fun hq => h (List.mem_cons_of_mem r hq)),
      release_held_of_ne (List.ne_of_not_mem_cons h)]

/-- Releasing a list balances the books if it names each resource as often as
it is held. -/
theorem releaseAll_balanced_iff {rs : List ρ} (hclean : l.stray = false) :
    (releaseAll rs l).Balanced ↔ ∀ q, rs.count q = l.held q := by
  induction rs generalizing l with
  | nil =>
    constructor
    · intro h q
      exact (h.none q).symm
    · intro h
      exact ⟨fun q => (h q).symm, hclean⟩
  | cons r rs ih =>
    by_cases hr : l.held r = 0
    · constructor
      · intro h
        have hstray : (releaseAll rs (l.release r)).stray = true :=
          releaseAll_of_stray (release_of_none hr)
        exact absurd h (not_balanced_of_stray hstray)
      · intro h
        have hcount := h r
        rw [List.count_cons_self, hr] at hcount
        cases hcount
    · rw [releaseAll, ih ((release_stray hr).trans hclean)]
      apply forall_congr'
      intro q
      rw [release_held hr, List.count_cons]
      by_cases hq : q = r
      · subst hq
        rw [if_pos rfl, if_pos (beq_self_eq_true q)]
        omega
      · rw [if_neg hq, if_neg (by simpa using Ne.symm hq), Nat.add_zero]

theorem balanced_iff_perm {rs qs : List ρ} :
    (releaseAll rs (acquireAll qs {})).Balanced ↔ rs.Perm qs := by
  rw [releaseAll_balanced_iff acquireAll_stray, List.perm_iff_count]
  apply forall_congr'
  intro q
  rw [acquireAll_held, Nat.add_zero]

/-! ## Resources inside others

What is registered lies inside something else, and releasing it without that is
stray too. `inside` says where a resource lies. -/

section Inside

variable {inside : ρ → Option ρ} {b : ρ}

def releaseInside (inside : ρ → Option ρ) (r : ρ) (l : Ledger ρ) : Ledger ρ :=
  match inside r with
  | some b => if l.held b = 0 then { l with stray := true } else l.release r
  | none => l.release r

theorem releaseInside_of_none (h : inside r = none) :
    l.releaseInside inside r = l.release r := by
  rw [releaseInside, h]

theorem releaseInside_of_held (h : inside r = some b) (hb : l.held b ≠ 0) :
    l.releaseInside inside r = l.release r := by
  rw [releaseInside, h]
  exact if_neg hb

theorem releaseInside_lost (h : inside r = some b) (hb : l.held b = 0) :
    (l.releaseInside inside r).stray = true := by
  rw [releaseInside, h]
  dsimp only
  rw [if_pos hb]

theorem releaseInside_of_stray (h : l.stray = true) :
    (l.releaseInside inside r).stray = true := by
  unfold releaseInside
  split
  · split
    · rfl
    · exact release_stray_of_stray h
  · exact release_stray_of_stray h

theorem releaseInside_held_of_ne (h : q ≠ r) :
    (l.releaseInside inside r).held q = l.held q := by
  unfold releaseInside
  split
  · split
    · rfl
    · exact release_held_of_ne h
  · exact release_held_of_ne h

end Inside

end Ledger

end Coht.Lib
