import Mathlib.Data.List.Basic

/-!
# Cutting ranges into pieces

`Tiles ss ps` says that the pieces `ps` come from cutting the ranges `ss`:
read in order, the pieces cover the first range from its start to its end,
then the second, and so on, and no piece is empty or reaches over the end of
the range it lies in.

The relation is deterministic in the ranges: the first piece starts where the
first range starts and what is left to tile after it is fixed. So a prefix
that is known to tile the first range can be cancelled (`Tiles.cancel`), and
one piece that is too long anywhere refutes the whole tiling (`Tiles.len_le`).
-/

namespace Coht.Lib

/-- The range `[start, start + len)`. -/
structure Seg where
  start : Nat
  len : Nat
  deriving DecidableEq, Repr

inductive Tiles : List Seg → List Seg → Prop
  | nil : Tiles [] []
  | whole {a n : Nat} {ss ps : List Seg} :
      0 < n → Tiles ss ps → Tiles (⟨a, n⟩ :: ss) (⟨a, n⟩ :: ps)
  | cut {a k m : Nat} {ss ps : List Seg} :
      0 < k → 0 < m → Tiles (⟨a + k, m⟩ :: ss) ps →
      Tiles (⟨a, k + m⟩ :: ss) (⟨a, k⟩ :: ps)

namespace Tiles

variable {a n m : Nat} {s p : Seg} {ss ts ps qs : List Seg}

theorem append (h : Tiles ss ps) (h' : Tiles ts qs) :
    Tiles (ss ++ ts) (ps ++ qs) := by
  induction h with
  | nil => exact h'
  | whole hn _ ih => exact .whole hn ih
  | cut hk hm _ ih => exact .cut hk hm ih

theorem pos (h : Tiles ss ps) : ∀ p ∈ ps, 0 < p.len := by
  induction h with
  | nil => simp
  | whole hn _ ih =>
    intro p hp
    rcases List.mem_cons.mp hp with rfl | hp
    · exact hn
    · exact ih p hp
  | cut hk _ _ ih =>
    intro p hp
    rcases List.mem_cons.mp hp with rfl | hp
    · exact hk
    · exact ih p hp

/-- The first piece either ends where the first range ends or leaves its
remainder to tile. -/
theorem cons_inv (h : Tiles (s :: ss) (p :: ps)) :
    (p.len = s.len ∧ Tiles ss ps) ∨
      (p.len < s.len ∧
        Tiles (⟨s.start + p.len, s.len - p.len⟩ :: ss) ps) := by
  generalize hss : s :: ss = rs at h
  generalize hps : p :: ps = qs at h
  cases h with
  | nil => cases hss
  | whole _ h =>
    cases hss
    cases hps
    exact .inl ⟨rfl, h⟩
  | cut _ hm h =>
    cases hss
    cases hps
    refine .inr ⟨Nat.lt_add_of_pos_right hm, ?_⟩
    simpa using h

/-- The first piece does not reach over the end of the first range. -/
theorem len_le (h : Tiles (s :: ss) (p :: ps)) : p.len ≤ s.len := by
  rcases h.cons_inv with ⟨heq, _⟩ | ⟨hlt, _⟩
  · exact Nat.le_of_eq heq
  · exact Nat.le_of_lt hlt

/-- What is left to tile after a first piece that is too short. -/
theorem rest_of_lt (h : Tiles (s :: ss) (p :: ps)) (hlt : p.len < s.len) :
    Tiles (⟨s.start + p.len, s.len - p.len⟩ :: ss) ps := by
  rcases h.cons_inv with ⟨heq, _⟩ | ⟨_, hrest⟩
  · exact absurd heq (Nat.ne_of_lt hlt)
  · exact hrest

theorem rest_of_eq (h : Tiles (s :: ss) (p :: ps)) (heq : p.len = s.len) :
    Tiles ss ps := by
  rcases h.cons_inv with ⟨_, hrest⟩ | ⟨hlt, _⟩
  · exact hrest
  · exact absurd heq (Nat.ne_of_lt hlt)

theorem cancel (h : Tiles [s] ps) (h' : Tiles (s :: ss) (ps ++ qs)) :
    Tiles ss qs := by
  generalize hr : [s] = r at h
  induction h generalizing s with
  | nil => cases hr
  | whole _ h _ =>
    cases hr
    cases h
    exact h'.rest_of_eq rfl
  | cut hk hm _ ih =>
    cases hr
    refine ih ?_ rfl
    have hrest := h'.rest_of_lt (Nat.lt_add_of_pos_right hm)
    simpa using hrest

/-- Two tilings of adjacent ranges are one of their union. -/
theorem join (h : Tiles [⟨a, n⟩] ps) (h' : Tiles [⟨a + n, m⟩] qs)
    (hm : 0 < m) : Tiles [⟨a, n + m⟩] (ps ++ qs) := by
  generalize hr : [(⟨a, n⟩ : Seg)] = r at h
  induction h generalizing a n with
  | nil => cases hr
  | whole hn h _ =>
    cases hr
    cases h
    exact .cut hn hm h'
  | cut hk hj _ ih =>
    rename_i b k j _ _ _
    cases hr
    rw [Nat.add_assoc]
    refine .cut hk (by omega) (ih ?_ rfl)
    rwa [Nat.add_assoc]

end Tiles

end Coht.Lib
