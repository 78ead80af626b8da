import Coht.Lib.Word
import Coht.Sis33.FetchedData

/-!
# The time stamps of an acquisition (`sis3320.c`)

A client is to get the ticks of each event from the first one on. The driver fills its
table with the time stamps of the module and subtracts the first element of the table from
each element in place, from the first one on. The first element is zero when the others
have their turn, and so they keep the time of the module.

An unsigned difference of 64 bits is the difference of the stamps where they do not
decrease.
-/

namespace Coht.Sis33

open Coht.Lib

/-- The time stamp of an event, of 48 bits. -/
def stamp (raw : Nat → BitVec 32) (i : Nat) : Nat :=
  join (raw (i * 2) &&& sis3302TstampUpperMask) (raw (i * 2 + 1))

/-- The table has the ticks of `n` events from the first one on. -/
structure Relative (raw : Nat → BitVec 32) (n : Nat) (ptCache : List (BitVec 64)) : Prop where
  length : ptCache.length = n
  entry : ∀ i, i < n → ptCache.getD i 0 =
    BitVec.ofNat 64 (stamp raw i) - BitVec.ofNat 64 (stamp raw 0)
  first : ptCache.getD 0 0 = 0
  /-- Stamps that do not decrease are as far apart as the events. -/
  ordered : (∀ i j, i ≤ j → j < n → stamp raw i ≤ stamp raw j) → ∀ i j, i ≤ j → j < n →
    (ptCache.getD i 0).toNat ≤ (ptCache.getD j 0).toNat ∧
      (ptCache.getD j 0).toNat - (ptCache.getD i 0).toNat = stamp raw j - stamp raw i

section

variable {raw : Nat → BitVec 32} {i n : Nat}

theorem toNat_words (hi lo : BitVec 32) :
    (hi.setWidth 64 <<< 32 ||| lo.setWidth 64).toNat = join hi lo := by
  have hlo := lo.isLt
  have hhi := hi.isLt
  rw [BitVec.toNat_or, BitVec.toNat_shiftLeft, BitVec.toNat_setWidth_of_le (by decide),
    BitVec.toNat_setWidth_of_le (by decide), Nat.shiftLeft_eq, Nat.mod_eq_of_lt (by omega),
    ← Nat.shiftLeft_eq, ← Nat.shiftLeft_add_eq_or_of_lt hlo, Nat.shiftLeft_eq, join]

theorem stamp_lt : stamp raw i < 2 ^ 64 := join_lt ..

theorem sis3302PtCacheFill_getD (hi : i < n) :
    (sis3302PtCacheFill raw n).getD i 0 = BitVec.ofNat 64 (stamp raw i) := by
  apply BitVec.eq_of_toNat_eq
  rw [BitVec.toNat_ofNat, Nat.mod_eq_of_lt stamp_lt, sis3302PtCacheFill,
    List.getD_eq_getElem?_getD, List.getElem?_map, List.getElem?_range hi]
  exact toNat_words ..

theorem length_sis3302PtCacheFill : (sis3302PtCacheFill raw n).length = n := by
  rw [sis3302PtCacheFill, List.length_map, List.length_range]

theorem normalize_getD (hi : i < n) :
    (sis3302PtCacheNormalize (sis3302PtCacheFill raw n)).getD i 0 =
      if i = 0 then 0 else BitVec.ofNat 64 (stamp raw i) := by
  rw [sis3302PtCacheNormalize_eq, List.getD_eq_getElem?_getD]
  have hlen : i < (sis3302PtCacheFill raw n).length := by
    rwa [length_sis3302PtCacheFill]
  split
  · next hzero =>
    subst hzero
    rw [List.getElem?_set_self hlen]
    rfl
  · next hne =>
    rw [List.getElem?_set_ne (Ne.symm hne), ← List.getD_eq_getElem?_getD]
    exact sis3302PtCacheFill_getD hi

theorem toNat_stamp : (BitVec.ofNat 64 (stamp raw i)).toNat = stamp raw i := by
  rw [BitVec.toNat_ofNat, Nat.mod_eq_of_lt stamp_lt]

theorem normalize_of_zero (hzero : stamp raw 0 = 0) (hi : i < n) :
    (sis3302PtCacheNormalize (sis3302PtCacheFill raw n)).getD i 0 =
      BitVec.ofNat 64 (stamp raw i) := by
  rw [normalize_getD hi]
  split
  · next hi =>
    rw [hi, hzero]
    rfl
  · rfl

end

/-- The ticks are counted from the first event if and only if the module had counted none
there, or there is no other event. -/
theorem ticks_relative_iff (raw : Nat → BitVec 32) (n : Nat) :
    Relative raw n (sis3302PtCacheNormalize (sis3302PtCacheFill raw n)) ↔
      n ≤ 1 ∨ stamp raw 0 = 0 := by
  have hlen : (sis3302PtCacheNormalize (sis3302PtCacheFill raw n)).length = n := by
    rw [sis3302PtCacheNormalize_eq, List.length_set, length_sis3302PtCacheFill]
  constructor
  · intro h
    by_contra hnot
    obtain ⟨hn, hfirst⟩ := not_or.mp hnot
    have hone : 1 < n := by omega
    have hentry := h.entry 1 hone
    rw [normalize_getD hone, if_neg (by decide)] at hentry
    have hsum := congrArg (· + BitVec.ofNat 64 (stamp raw 0)) hentry
    simp only [BitVec.sub_add_cancel] at hsum
    have hzero : BitVec.ofNat 64 (stamp raw 0) = 0 := by
      simpa using hsum
    exact hfirst (toNat_stamp.symm.trans (congrArg BitVec.toNat hzero))
  · rintro (hn | hzero)
    · have hentry {i : Nat} (hi : i < n) :
          i = 0 ∧ (sis3302PtCacheNormalize (sis3302PtCacheFill raw n)).getD i 0 = 0 := by
        have hi0 : i = 0 := by omega
        exact ⟨hi0, (normalize_getD hi).trans (if_pos hi0)⟩
      constructor
      · exact hlen
      · intro i hi
        rw [(hentry hi).2, (hentry hi).1, BitVec.sub_self]
        rfl
      · cases n with
        | zero => rfl
        | succ n => exact (hentry (Nat.succ_pos n)).2
      · intro _ i j hij hj
        rw [(hentry (Nat.lt_of_le_of_lt hij hj)).2, (hentry hj).2, (hentry hj).1,
          (hentry (Nat.lt_of_le_of_lt hij hj)).1]
        exact ⟨Nat.le_refl _, (Nat.sub_self _).symm⟩
    · constructor
      · exact hlen
      · intro i hi
        rw [normalize_of_zero hzero hi, hzero]
        exact (BitVec.sub_zero _).symm
      · cases n with
        | zero => rfl
        | succ n => exact (normalize_getD (Nat.succ_pos n)).trans (if_pos rfl)
      · intro hordered i j hij hj
        rw [normalize_of_zero hzero (Nat.lt_of_le_of_lt hij hj), normalize_of_zero hzero hj,
          toNat_stamp, toNat_stamp]
        exact ⟨hordered i j hij hj, rfl⟩

/-- Two events, one tick and two ticks after the module was started. -/
theorem ticks_not_relative : ¬ ∀ (raw : Nat → BitVec 32) (n : Nat), 1 ≤ n →
    Relative raw n (sis3302PtCacheNormalize (sis3302PtCacheFill raw n)) := by
  intro h
  have hentry := (h (fun k => if k = 1 then 1 else if k = 3 then 2 else 0) 2 (by decide)).entry 1
    (by decide)
  exact absurd hentry (by decide)

end Coht.Sis33
