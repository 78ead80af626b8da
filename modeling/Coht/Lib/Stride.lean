import Mathlib.Algebra.Order.Ring.Int
import Mathlib.Tactic.Linarith

/-!
# Walks with a fixed step

A pointer that moves on by the same step each time is a word and wraps. In a
window of at most half the words it cannot come round unseen: all its places
are in the window if and only if the first one is, and the last one counted in
integers, with the step as a signed number.
-/

namespace Coht.Lib

variable {w : Nat}

/-- Where a walk from `o` by steps of `d` is after `i` of them. -/
def place (o d : BitVec w) (i : Nat) : BitVec w := o + BitVec.ofNat w i * d

@[simp] theorem place_zero (o d : BitVec w) : place o d 0 = o := by
  simp [place]

theorem place_succ (o d : BitVec w) (i : Nat) : place o d (i + 1) = place o d i + d := by
  simp only [place]
  rw [BitVec.ofNat_add, BitVec.add_mul, BitVec.one_mul, BitVec.add_assoc]

/-- The first and the last place of `n`, each of `b` cells, are in a window of
`W` cells. -/
def EndsInside (W b o : Nat) (d : Int) (n : Nat) : Prop :=
  o + b ≤ W ∧ 0 ≤ (o : Int) + (n - 1) * d ∧ (o : Int) + (n - 1) * d + b ≤ W

instance (W b o : Nat) (d : Int) (n : Nat) : Decidable (EndsInside W b o d n) := by
  unfold EndsInside
  infer_instance

variable {o d : BitVec w} {W b n i : Nat}

/-- A step that ends inside a small window does not wrap. -/
theorem toNat_add_of_inside (hw : 0 < w) (hW : W ≤ 2 ^ (w - 1)) (hb : 0 < b)
    (ho : o.toNat + b ≤ W) (h : (o + d).toNat + b ≤ W) :
    ((o + d).toNat : Int) = o.toNat + d.toInt := by
  have hhalf : 2 ^ w = 2 * 2 ^ (w - 1) := by
    rw [← Nat.pow_succ', Nat.succ_eq_add_one, Nat.sub_add_cancel hw]
  have hd := d.isLt
  have hsum := BitVec.toNat_add o d
  rw [BitVec.toInt_eq_toNat_cond]
  rcases Nat.lt_or_ge (o.toNat + d.toNat) (2 ^ w) with hlt | hge
  · rw [Nat.mod_eq_of_lt hlt] at hsum
    split <;> omega
  · rw [Nat.mod_eq_sub_mod hge, Nat.mod_eq_of_lt (by omega)] at hsum
    split <;> omega

/-- A walk inside a small window goes in integers. -/
theorem toNat_place (hw : 0 < w) (hW : W ≤ 2 ^ (w - 1)) (hb : 0 < b)
    (h : ∀ i < n, (place o d i).toNat + b ≤ W) (hi : i < n) :
    ((place o d i).toNat : Int) = o.toNat + i * d.toInt := by
  induction i with
  | zero => simp
  | succ i ih =>
    have hprev := ih (Nat.lt_of_succ_lt hi)
    have hnext := h (i + 1) hi
    rw [place_succ] at hnext ⊢
    rw [toNat_add_of_inside hw hW hb (h i (Nat.lt_of_succ_lt hi)) hnext, hprev]
    push_cast
    rw [Int.add_mul, Int.one_mul, Int.add_assoc]

/-- A place that fits in a word is where the integers say. -/
theorem toNat_place_of_fits (hlo : 0 ≤ (o.toNat : Int) + i * d.toInt)
    (hhi : (o.toNat : Int) + i * d.toInt < 2 ^ w) :
    ((place o d i).toNat : Int) = o.toNat + i * d.toInt := by
  have hmod : ((place o d i).toNat : Int) = (o.toNat + i * d.toNat : Int) % 2 ^ w := by
    simp only [place, BitVec.toNat_add, BitVec.toNat_mul, BitVec.toNat_ofNat]
    push_cast
    rw [Int.add_emod, Int.emod_emod_of_dvd _ (dvd_refl _), ← Int.add_emod, Int.add_emod,
      Int.mul_emod, Int.emod_emod_of_dvd _ (dvd_refl _), ← Int.mul_emod, ← Int.add_emod]
  have hd : (d.toNat : Int) % 2 ^ w = d.toInt % 2 ^ w := by
    rw [BitVec.toInt_eq_toNat_cond]
    split
    · rfl
    · push_cast
      rw [Int.sub_emod_right]
  rw [hmod, Int.add_emod, Int.mul_emod, hd, ← Int.mul_emod, ← Int.add_emod,
    Int.emod_eq_of_lt hlo hhi]

/-- What lies between the ends is inside if they are. -/
theorem EndsInside.between {x : Int} {a : Nat} (h : EndsInside W b a x n) (hi : i < n) :
    0 ≤ (a : Int) + i * x ∧ (a : Int) + i * x + b ≤ W := by
  obtain ⟨hfirst, hlo, hhi⟩ := h
  have hle : (i : Int) ≤ n - 1 := by omega
  have hpos : (0 : Int) ≤ i := Int.natCast_nonneg i
  rcases Int.le_total 0 x with hx | hx
  · have hmul := mul_le_mul_of_nonneg_right hle hx
    have hzero := mul_nonneg hpos hx
    constructor <;> linarith
  · have hmul := mul_le_mul_of_nonpos_right hle hx
    have hzero := mul_nonpos_of_nonneg_of_nonpos hpos hx
    have hcast : (a : Int) + b ≤ W := by exact_mod_cast hfirst
    constructor <;> linarith

/-- All places of a walk are in a small window if and only if its ends are. -/
theorem places_inside_iff (hw : 0 < w) (hW : W ≤ 2 ^ (w - 1)) (hb : 0 < b) (hn : 0 < n) :
    (∀ i < n, (place o d i).toNat + b ≤ W) ↔ EndsInside W b o.toNat d.toInt n := by
  have hcast : ((n - 1 : Nat) : Int) = n - 1 := by omega
  constructor
  · intro h
    have hlast := toNat_place hw hW hb h (i := n - 1) (by omega)
    have hin := h (n - 1) (by omega)
    rw [hcast] at hlast
    refine ⟨?_, ?_, ?_⟩
    · simpa using h 0 hn
    · omega
    · omega
  · intro h i hi
    obtain ⟨hlo, hhi⟩ := h.between hi
    have hword : (2 : Int) ^ w = 2 * 2 ^ (w - 1) := by
      rw [← pow_succ', Nat.sub_add_cancel hw]
    have hpow : (W : Int) ≤ 2 ^ (w - 1) := by exact_mod_cast hW
    have hplace := toNat_place_of_fits (o := o) (d := d) (i := i) hlo (by omega)
    omega

end Coht.Lib
