import Coht.Cvorg.LoadSeq

/-!
# The books of a load

What the copy of one waveform does is independent of the books: it acquires
`acquired w i` and leaves `entry w i` in the array. So the copy of all of them
acquires a list of addresses, the clean-up releases the list of those that it
finds in the array, and the books balance if one list is a permutation of the
other.

The clean-up walks the whole array. The entries of the waveforms that were
copied give back what was acquired for them; what it finds at the waveform
whose copy failed and in all entries behind it decides (`CleanAt`).
-/

namespace Coht.Cvorg

open Coht.Lib

/-- The descriptor of waveform `i` when it is copied. -/
def World.desc (w : World) (i : Nat) : WvDesc := (w.mem (.desc i)).wave i

/-- Nothing is freed for this descriptor. -/
def WvDesc.Harmless (wv : WvDesc) : Prop :=
  wv.form ≤ ZERO_SIZE_PTR ∨ wv.size = 0

instance (wv : WvDesc) : Decidable wv.Harmless := by
  unfold WvDesc.Harmless
  infer_instance

/-- Waveform `i` is copied whole. -/
structure Copies (w : World) (i : Nat) : Prop where
  desc : sizeofCvorgWv ≤ w.copied (.desc i)
  buffer : (w.desc i).size = 0 ∨ (w.buffer i).isSome
  data : (w.desc i).size.toNat ≤ w.copied (.data i)

/-- The copy of waveform `k` may fail without harm: what was copied of its
descriptor is harmless, and so is what the array holds behind it. -/
structure CleanAt (w : World) (n k : Nat) : Prop where
  torn : w.copied (.desc k) < sizeofCvorgWv →
    ((w.desc k).upTo (w.copied (.desc k))).Harmless
  stale : ∀ i, k < i → i < n → (w.stale i).Harmless

/-- The address of the buffer that is acquired for waveform `i`, if there is
one. -/
def acquired (w : World) (i : Nat) : List Nat :=
  if w.copied (.desc i) < sizeofCvorgWv then []
  else if (w.desc i).size = 0 then []
  else
    match w.buffer i with
    | none => []
    | some p => [p.1]

def entry (w : World) (i : Nat) : WvDesc := (copyWvFromUser w i {}).2.1

def freed (wv : WvDesc) : List Nat := if wv.Harmless then [] else [wv.form]

section Copy

variable {w : World} {i j k m n : Nat} {books : Ledger Nat}
  {waves : Nat → WvDesc} {wv : WvDesc}

theorem copyWvFromUser_eq (books : Ledger Nat) : copyWvFromUser w i books =
    ((copyWvFromUser w i {}).1, entry w i,
      Ledger.acquireAll (acquired w i) books) := by
  unfold entry copyWvFromUser acquired kmalloc World.desc
  dsimp only
  by_cases htorn : w.copied (.desc i) < sizeofCvorgWv
  · simp only [if_pos htorn]
    rfl
  · simp only [if_neg htorn]
    by_cases hsize : ((w.mem (.desc i)).wave i).size = 0
    · simp only [if_pos hsize]
      split <;> rfl
    · simp only [if_neg hsize]
      cases w.buffer i with
      | none => rfl
      | some p =>
        dsimp only
        split <;> rfl

theorem copyWvFromUser_ret :
    (copyWvFromUser w i books).1 = 0 ↔ Copies w i := by
  unfold copyWvFromUser kmalloc
  dsimp only
  by_cases htorn : w.copied (.desc i) < sizeofCvorgWv
  · rw [if_pos htorn]
    exact ⟨fun h => (by cases h), fun h => absurd h.desc (Nat.not_le.mpr htorn)⟩
  · have hdesc := Nat.not_lt.mp htorn
    rw [if_neg htorn]
    by_cases hsize : ((w.mem (.desc i)).wave i).size = 0
    · have hdata : ¬ w.copied (.data i) <
          ((w.mem (.desc i)).wave i).size.toNat := by
        rw [hsize]
        exact Nat.not_lt_zero _
      rw [if_pos hsize]
      dsimp only
      rw [if_neg hdata]
      refine ⟨fun _ => ⟨hdesc, .inl hsize, ?_⟩, fun _ => rfl⟩
      rw [World.desc, hsize]
      exact Nat.zero_le _
    · rw [if_neg hsize]
      cases hbuf : w.buffer i with
      | none =>
        refine ⟨fun h => (by cases h), fun h => ?_⟩
        rcases h.buffer with h0 | h0
        · exact absurd h0 hsize
        · rw [hbuf] at h0
          cases h0
      | some p =>
        dsimp only
        by_cases hdata : w.copied (.data i) <
            ((w.mem (.desc i)).wave i).size.toNat
        · rw [if_pos hdata]
          exact ⟨fun h => (by cases h),
            fun h => absurd h.data (Nat.not_le.mpr hdata)⟩
        · rw [if_neg hdata]
          refine ⟨fun _ => ⟨hdesc, .inr ?_, Nat.not_lt.mp hdata⟩, fun _ => rfl⟩
          rw [hbuf]
          rfl

theorem freed_entry (hdesc : sizeofCvorgWv ≤ w.copied (.desc i)) :
    freed (entry w i) = acquired w i := by
  have htorn : ¬ w.copied (.desc i) < sizeofCvorgWv := Nat.not_lt.mpr hdesc
  unfold freed entry copyWvFromUser acquired kmalloc World.desc WvDesc.Harmless
  dsimp only
  simp only [if_neg htorn]
  by_cases hsize : ((w.mem (.desc i)).wave i).size = 0
  · simp only [if_pos hsize]
    split <;> rw [if_pos (.inr hsize)]
  · simp only [if_neg hsize]
    cases w.buffer i with
    | none => rfl
    | some p =>
      have hharm : ¬ (p.1 ≤ ZERO_SIZE_PTR ∨
          ((w.mem (.desc i)).wave i).size = 0) := by
        have := p.2
        rintro (h | h)
        · omega
        · exact hsize h
      by_cases hdata : w.copied (.data i) <
          ((w.mem (.desc i)).wave i).size.toNat
      · simp only [if_pos hdata, if_neg hharm]
      · simp only [if_neg hdata, if_neg hharm]

theorem entry_torn (htorn : w.copied (.desc i) < sizeofCvorgWv) :
    entry w i = (w.desc i).upTo (w.copied (.desc i)) ∧ acquired w i = [] := by
  unfold entry copyWvFromUser acquired
  dsimp only
  rw [if_pos htorn, if_pos htorn]
  exact ⟨rfl, rfl⟩

theorem freeWv_eq : freeWv wv books = Ledger.releaseAll (freed wv) books := by
  unfold freeWv kfree
  by_cases hharm : wv.Harmless
  · rw [freed, if_pos hharm]
    rcases hharm with hform | hsize
    · rw [if_pos hform]
      exact ite_self _
    · rw [if_pos (.inr hsize)]
      rfl
  · have hform : ¬ wv.form ≤ ZERO_SIZE_PTR := fun h => hharm (.inl h)
    have hsize : wv.size ≠ 0 := fun h => hharm (.inr h)
    have hne : ¬ (wv.form = 0 ∨ wv.size = 0) := by
      rintro (h | h)
      · rw [h] at hform
        exact hform (Nat.zero_le _)
      · exact hsize h
    rw [freed, if_neg hharm, if_neg hne, if_neg hform]
    rfl

theorem freeWaves_eq : freeWaves waves n books =
    Ledger.releaseAll ((List.range n).flatMap fun i => freed (waves i)) books := by
  unfold freeWaves
  induction n generalizing books with
  | zero => rfl
  | succ n ih =>
    rw [List.range_succ, List.foldl_append, ih, List.flatMap_append,
      Ledger.releaseAll_append]
    simp only [List.foldl_cons, List.foldl_nil, List.flatMap_singleton]
    exact freeWv_eq

theorem freeSeq_eq {p : Block} (hn : n ≠ 0) :
    freeSeq n (some p) waves books = Ledger.releaseAll
      (((List.range n).flatMap fun i => freed (waves i)) ++ [p.1]) books := by
  unfold freeSeq kfree
  dsimp only
  rw [if_neg hn, if_neg (Nat.not_le.mpr p.2), freeWaves_eq,
    Ledger.releaseAll_append]
  rfl

theorem entries_succ {P : Nat → Prop} [DecidablePred P] (hi : P i) :
    (fun j => if i + 1 ≤ j ∧ P j then entry w j
      else Function.update waves i (entry w i) j) =
    fun j => if i ≤ j ∧ P j then entry w j else waves j := by
  funext j
  by_cases hj : j = i
  · subst hj
    rw [if_neg (by omega), if_pos ⟨Nat.le_refl j, hi⟩, Function.update_self]
  · rw [Function.update_of_ne hj]
    by_cases hin : i + 1 ≤ j ∧ P j
    · rw [if_pos hin, if_pos ⟨by omega, hin.2⟩]
    · rw [if_neg hin, if_neg fun h => hin ⟨by omega, h.2⟩]

theorem copyWaves_ok (h : ∀ j, i ≤ j → j < i + m → Copies w j) :
    copyWaves w m i waves books =
      (0, (fun j => if i ≤ j ∧ j < i + m then entry w j else waves j),
        Ledger.acquireAll ((List.range' i m).flatMap (acquired w)) books) := by
  induction m generalizing i waves books with
  | zero =>
    simp only [copyWaves, Nat.add_zero]
    congr 1
    congr 1
    funext j
    rw [if_neg (by omega)]
  | succ m ih =>
    have hi : (copyWvFromUser w i {}).1 = 0 :=
      copyWvFromUser_ret.mpr (h i (Nat.le_refl i) (by omega))
    simp only [copyWaves, copyWvFromUser_eq books, hi, ne_eq,
      not_true_eq_false, if_false]
    rw [ih fun j hj hlt => h j (by omega) (by omega), List.range'_succ,
      List.flatMap_cons, Ledger.acquireAll_append,
      show i + 1 + m = i + (m + 1) by omega]
    congr 1
    congr 1
    exact entries_succ (P := (· < i + (m + 1))) (by omega)

theorem copyWaves_fails (hik : i ≤ k) (hk : k < i + m)
    (hbefore : ∀ j, i ≤ j → j < k → Copies w j) (hfail : ¬ Copies w k) :
    copyWaves w m i waves books =
      (-1, (fun j => if i ≤ j ∧ j ≤ k then entry w j else waves j),
        Ledger.acquireAll ((List.range' i (k + 1 - i)).flatMap (acquired w))
          books) := by
  induction m generalizing i waves books with
  | zero => omega
  | succ m ih =>
    by_cases heq : i = k
    · subst heq
      have hi : (copyWvFromUser w i {}).1 ≠ 0 :=
        fun h => hfail (copyWvFromUser_ret.mp h)
      simp only [copyWaves, copyWvFromUser_eq books]
      rw [if_pos hi, show i + 1 - i = 1 by omega]
      simp only [List.range'_one, List.flatMap_singleton]
      congr 1
      congr 1
      funext j
      by_cases hj : j = i
      · subst hj
        rw [if_pos (by omega), Function.update_self]
      · rw [if_neg (by omega), Function.update_of_ne hj]
    · have hi : (copyWvFromUser w i {}).1 = 0 :=
        copyWvFromUser_ret.mpr (hbefore i (Nat.le_refl i) (by omega))
      simp only [copyWaves, copyWvFromUser_eq books, hi, ne_eq,
        not_true_eq_false, if_false]
      rw [ih (by omega) (by omega) fun j hj hlt => hbefore j (by omega) hlt,
        show k + 1 - i = k + 1 - (i + 1) + 1 by omega, List.range'_succ,
        List.flatMap_cons, Ledger.acquireAll_append]
      congr 1
      congr 1
      exact entries_succ (P := (· ≤ k)) hik

end Copy

/-! ## When the books balance -/

section Balance

variable {w : World} {k n : Nat} {p : Block}

theorem flatMap_freed_eq_nil {waves : Nat → WvDesc} {is : List Nat} :
    (is.flatMap fun i => freed (waves i)) = [] ↔
      ∀ i ∈ is, (waves i).Harmless := by
  rw [List.flatMap_eq_nil_iff]
  apply forall₂_congr
  intro i _
  unfold freed
  split
  · next h => exact ⟨fun _ => h, fun _ => rfl⟩
  · next h => exact ⟨fun hnil => (by cases hnil), fun hharm => absurd hharm h⟩

theorem fails_perm_iff (hk : k < n) (hbefore : ∀ j, j < k → Copies w j) :
    (((List.range n).flatMap fun i =>
          freed (if 0 ≤ i ∧ i ≤ k then entry w i else w.stale i)) ++ [p.1]).Perm
        (p.1 :: (List.range (k + 1)).flatMap (acquired w)) ↔
      CleanAt w n k := by
  have hsplit : List.range n =
      List.range k ++ k :: List.range' (k + 1) (n - (k + 1)) := by
    have happ : List.range' 0 k ++ List.range' (0 + k) (n - (k + 1) + 1) =
        List.range' 0 (k + (n - (k + 1) + 1)) := List.range'_append_1
    rw [Nat.zero_add, show k + (n - (k + 1) + 1) = n by omega] at happ
    rw [List.range_eq_range', List.range_eq_range', ← List.range'_succ, happ]
  have hhead : ((List.range k).flatMap fun i =>
      freed (if 0 ≤ i ∧ i ≤ k then entry w i else w.stale i)) =
        (List.range k).flatMap (acquired w) := by
    apply List.flatMap_congr
    intro i hi
    have hik := List.mem_range.mp hi
    rw [if_pos ⟨Nat.zero_le i, Nat.le_of_lt hik⟩]
    exact freed_entry (hbefore i hik).desc
  have hrest : ((List.range' (k + 1) (n - (k + 1))).flatMap fun i =>
      freed (if 0 ≤ i ∧ i ≤ k then entry w i else w.stale i)) =
        (List.range' (k + 1) (n - (k + 1))).flatMap fun i => freed (w.stale i) := by
    apply List.flatMap_congr
    intro i hi
    have hik := (List.mem_range'_1.mp hi).1
    rw [if_neg (by omega)]
  have hstale : ((List.range' (k + 1) (n - (k + 1))).flatMap fun i =>
      freed (w.stale i)) = [] ↔ ∀ i, k < i → i < n → (w.stale i).Harmless := by
    rw [flatMap_freed_eq_nil]
    constructor
    · intro h i hki hin
      exact h i (List.mem_range'_1.mpr ⟨hki, by omega⟩)
    · intro h i hi
      have := List.mem_range'_1.mp hi
      exact h i this.1 (by omega)
  rw [hsplit, List.flatMap_append, List.flatMap_cons, hhead, hrest,
    if_pos ⟨Nat.zero_le k, Nat.le_refl k⟩, List.range_succ, List.flatMap_append,
    List.flatMap_singleton]
  generalize (List.range' (k + 1) (n - (k + 1))).flatMap
    (fun i => freed (w.stale i)) = rest at hstale ⊢
  generalize (List.range k).flatMap (acquired w) = head
  -- the array and what was copied before `k` are on both sides
  have hcancel : (head ++ (freed (entry w k) ++ rest) ++ [p.1]).Perm
      (p.1 :: (head ++ acquired w k)) ↔
        (freed (entry w k) ++ rest).Perm (acquired w k) := by
    rw [(List.perm_append_singleton p.1 _).congr_left, List.perm_cons]
    exact List.perm_append_left_iff head
  rw [hcancel]
  by_cases htorn : w.copied (.desc k) < sizeofCvorgWv
  · obtain ⟨hentry, hacq⟩ := entry_torn htorn
    rw [hacq, hentry, List.perm_nil, List.append_eq_nil_iff, hstale]
    constructor
    · rintro ⟨hfreed, hrest'⟩
      refine ⟨fun _ => ?_, hrest'⟩
      by_contra hharm
      rw [freed, if_neg hharm] at hfreed
      cases hfreed
    · intro h
      exact ⟨if_pos (h.torn htorn), h.stale⟩
  · rw [freed_entry (Nat.not_lt.mp htorn)]
    constructor
    · intro hperm
      have hlen := hperm.length_eq
      rw [List.length_append] at hlen
      refine ⟨fun h => absurd h htorn, hstale.mp ?_⟩
      exact List.eq_nil_of_length_eq_zero (by omega)
    · intro h
      rw [hstale.mpr h.stale, List.append_nil]

end Balance

end Coht.Cvorg
