import Mathlib.Data.List.Basic
import Mathlib.Data.Nat.Find
import Mathlib.Algebra.Group.Nat.Defs

/-!
# Pieces packed one after another

Pieces of any sizes are laid into a memory one after another, each at the
address where the one before it ends. The memory is written in units of `w`
bytes: a piece that starts at byte `a` fills units from `a / w` on, and a last
unit that it fills only in part is still written whole.

`Snug` is when no unit is written for two pieces: every piece whose size is no
multiple of `w` has nothing but empty pieces after it. The units never reach
over a bound that is a multiple of `w` and holds the sum of the sizes, snug or
not (`units_below`).
-/

namespace Coht.Lib.Packing

variable {size : Nat → Nat} {w n i j k cap : Nat}

/-- Where piece `i` starts. -/
def start (size : Nat → Nat) : Nat → Nat
  | 0 => 0
  | i + 1 => start size i + size i

/-- The units written for a piece of `len` bytes at byte `a`. -/
def units (w a len : Nat) : List Nat := List.range' (a / w) ((len + w - 1) / w)

def Snug (w n : Nat) (size : Nat → Nat) : Prop :=
  ∀ i j, i < j → j < n → size i % w = 0 ∨ size j = 0

theorem mem_units : k ∈ units w i j ↔
    i / w ≤ k ∧ k < i / w + (j + w - 1) / w := by
  unfold units
  rw [List.mem_range'_1]

theorem start_mono (size : Nat → Nat) (hij : i ≤ j) : start size i ≤ start size j := by
  induction hij with
  | refl => exact Nat.le_refl _
  | step _ ih => exact Nat.le_trans ih (Nat.le_add_right _ _)

theorem start_add_size_le (size : Nat → Nat) (hij : i < j) :
    start size i + size i ≤ start size j :=
  start_mono (i := i + 1) size hij

/-- Pieces of whole units keep the starts on unit boundaries. -/
theorem start_mod (h : ∀ k, k < i → size k % w = 0) : start size i % w = 0 := by
  induction i with
  | zero => exact Nat.zero_mod w
  | succ i ih =>
    have hstart := ih fun k hk => h k (Nat.lt_succ_of_lt hk)
    show (start size i + size i) % w = 0
    rw [Nat.add_mod, hstart, h i (Nat.lt_succ_self i)]
    exact Nat.zero_mod w

/-- Empty pieces take no room. -/
theorem start_skip (hij : i ≤ j) (h : ∀ k, i ≤ k → k < j → size k = 0) :
    start size j = start size i := by
  induction hij with
  | refl => rfl
  | step hij ih =>
    show start size _ + size _ = _
    rw [h _ hij (Nat.lt_succ_self _), Nat.add_zero]
    exact ih fun k hk hlt => h k hk (Nat.lt_succ_of_lt hlt)

/-- A piece that is followed by a nonempty one starts on a unit boundary, and
so does the nonempty one itself. -/
theorem Snug.start_mod (h : Snug w n size) (hi : i < n) (hpos : size i ≠ 0) :
    start size i % w = 0 :=
  Packing.start_mod fun k hk => (h k i hk hi).resolve_right hpos

theorem units_count (hw : 0 < w) (h : i % w = 0) :
    (i + w - 1) / w = i / w := by
  obtain ⟨q, rfl⟩ := Nat.dvd_of_mod_eq_zero h
  rw [Nat.mul_div_cancel_left q hw, Nat.add_sub_assoc hw, Nat.mul_add_div hw,
    Nat.div_eq_of_lt (Nat.sub_lt hw Nat.one_pos), Nat.add_zero]

theorem units_count_pos (hw : 0 < w) (hpos : i ≠ 0) : 0 < (i + w - 1) / w :=
  Nat.div_pos (by omega) hw

/-- The last unit of a piece that ends inside it is the next piece's first. -/
theorem units_count_succ (hw : 0 < w) (h : i % w ≠ 0) :
    (i + w - 1) / w = i / w + 1 := by
  have hlt := Nat.mod_lt i hw
  have hsplit : i + w - 1 = w * (i / w + 1) + (i % w - 1) := by
    have := Nat.div_add_mod i w
    rw [Nat.mul_add, Nat.mul_one]
    omega
  rw [hsplit, Nat.mul_add_div hw,
    Nat.div_eq_of_lt (show i % w - 1 < w by omega), Nat.add_zero]

theorem Snug.disjoint (hw : 0 < w) (h : Snug w n size) (hij : i < j)
    (hj : j < n) :
    List.Disjoint (units w (start size i) (size i))
      (units w (start size j) (size j)) := by
  intro k hki hkj
  rw [mem_units] at hki hkj
  by_cases hpos : size j = 0
  · rw [hpos, Nat.zero_add, Nat.div_eq_of_lt (Nat.sub_lt hw Nat.one_pos)] at hkj
    omega
  · have hmod := (h i j hij hj).resolve_right hpos
    rw [units_count hw hmod] at hki
    have hle := Nat.div_le_div_right (c := w) (start_add_size_le size hij)
    have hadd : start size i / w + size i / w ≤ (start size i + size i) / w :=
      Nat.div_add_div_le_add_div
    omega

/-- The first piece that is not whole units shares its last unit with the next
piece that is not empty. -/
theorem snug_of_disjoint (hw : 0 < w)
    (h : ∀ i j, i < j → j < n →
      List.Disjoint (units w (start size i) (size i))
        (units w (start size j) (size j))) :
    Snug w n size := by
  intro i j hij hj
  by_contra hne
  obtain ⟨hmod, hpos⟩ := not_or.mp hne
  have hex : ∃ i, size i % w ≠ 0 := ⟨i, hmod⟩
  have hfirst : Nat.find hex ≤ i := Nat.find_min' hex hmod
  have hspec : size (Nat.find hex) % w ≠ 0 := Nat.find_spec hex
  have hbefore : ∀ k, k < Nat.find hex → size k % w = 0 := fun k hk =>
    not_not.mp (Nat.find_min hex hk)
  generalize Nat.find hex = a at hfirst hspec hbefore
  have hex' : ∃ j, a < j ∧ size j ≠ 0 :=
    ⟨j, Nat.lt_of_le_of_lt hfirst hij, hpos⟩
  have hnext : Nat.find hex' ≤ j :=
    Nat.find_min' hex' ⟨Nat.lt_of_le_of_lt hfirst hij, hpos⟩
  obtain ⟨hab, hbpos⟩ := Nat.find_spec hex'
  have hbetween : ∀ k, a + 1 ≤ k → k < Nat.find hex' → size k = 0 := by
    intro k hk hlt
    by_contra hk0
    exact Nat.find_min hex' hlt ⟨hk, hk0⟩
  generalize Nat.find hex' = b at hnext hab hbpos hbetween
  have hstart : start size b = start size a + size a := start_skip hab hbetween
  obtain ⟨q, hq⟩ := Nat.dvd_of_mod_eq_zero (start_mod hbefore)
  refine h a b hab (Nat.lt_of_le_of_lt hnext hj) (a := start size b / w) ?_ ?_
  · rw [mem_units, hstart, units_count_succ hw hspec, hq, Nat.mul_add_div hw,
      Nat.mul_div_cancel_left q hw]
    exact ⟨Nat.le_add_right _ _, Nat.add_lt_add_left (Nat.lt_succ_self _) q⟩
  · rw [mem_units]
    have := units_count_pos hw hbpos
    omega

theorem units_below (hw : 0 < w) (hcap : w ∣ cap) (hle : i + j ≤ cap)
    (hk : k ∈ units w i j) : k * w + w ≤ cap := by
  rw [mem_units] at hk
  obtain ⟨c, rfl⟩ := hcap
  have hlt : k < c := by
    by_contra hge
    have hi : i / w * w ≤ i := Nat.div_mul_le_self i w
    have hj : (j + w - 1) / w * w ≤ j + w - 1 := Nat.div_mul_le_self _ w
    have hk' : (k + 1) * w ≤ (i / w + (j + w - 1) / w) * w :=
      Nat.mul_le_mul_right w hk.2
    have hc : w * c ≤ w * k := Nat.mul_le_mul_left w (Nat.not_lt.mp hge)
    rw [Nat.add_mul, Nat.one_mul, Nat.add_mul, Nat.mul_comm k] at hk'
    omega
  calc k * w + w = w * (k + 1) := by rw [Nat.mul_add, Nat.mul_one, Nat.mul_comm]
    _ ≤ w * c := Nat.mul_le_mul_left w hlt

end Coht.Lib.Packing
