import Mathlib.Data.List.Nodup

/-!
# A table of records with distinct keys

A driver that keeps its objects in an array with a counter finds one by its
key, appends a new one, and removes one by moving the last into its place. The
order of the records then means nothing, and what counts is which records there
are: the lemmas are about membership and about the keys, for a list whose keys
are distinct.
-/

namespace Coht.Lib

universe u v

variable {α : Type u} {κ : Type v} [DecidableEq κ] {key : α → κ} {k : κ} {a b : α}
  {l : List α}

/-- The record with the key. -/
def lookup (key : α → κ) (k : κ) (l : List α) : Option α :=
  l.find? fun a => key a = k

/-- The last record takes the place of the one with the key. -/
def swapRemove (key : α → κ) (k : κ) (l : List α) : List α :=
  match l.findIdx? (fun a => key a = k), l.getLast? with
  | some i, some last => (l.set i last).dropLast
  | _, _ => l

/-- The record with the key is changed in its place. -/
def alter (key : α → κ) (k : κ) (f : α → α) (l : List α) : List α :=
  l.modify (l.findIdx fun a => key a = k) f

/-- No key occurs twice. -/
def Keyed (key : α → κ) (l : List α) : Prop := (l.map key).Nodup

theorem lookup_none : lookup key k l = none ↔ ∀ a ∈ l, key a ≠ k := by
  unfold lookup
  rw [List.find?_eq_none]
  simp

theorem lookup_split (h : lookup key k l = some a) :
    key a = k ∧ ∃ before after, l = before ++ a :: after ∧
      ∀ b ∈ before, key b ≠ k := by
  obtain ⟨hkey, before, after, hl, hbefore⟩ := List.find?_eq_some_iff_append.mp h
  exact ⟨of_decide_eq_true hkey, before, after, hl,
    fun b hb => by simpa using hbefore b hb⟩

theorem lookup_mem (h : lookup key k l = some a) : a ∈ l ∧ key a = k := by
  obtain ⟨hkey, before, after, hl, -⟩ := lookup_split h
  rw [hl]
  exact ⟨by simp, hkey⟩

omit [DecidableEq κ] in
theorem Keyed.eq (hl : Keyed key l) (ha : a ∈ l) (hb : b ∈ l)
    (hkey : key a = key b) : a = b :=
  List.inj_on_of_nodup_map hl ha hb hkey

theorem Keyed.lookup_iff (hl : Keyed key l) :
    lookup key k l = some a ↔ a ∈ l ∧ key a = k := by
  constructor
  · exact lookup_mem
  · intro ⟨ha, hkey⟩
    cases hfound : lookup key k l with
    | none => exact absurd hkey (lookup_none.mp hfound a ha)
    | some b =>
      obtain ⟨hb, hbkey⟩ := lookup_mem hfound
      rw [hl.eq hb ha (hbkey.trans hkey.symm)]

theorem Keyed.lookup_self (hl : Keyed key l) (ha : a ∈ l) :
    lookup key (key a) l = some a :=
  hl.lookup_iff.mpr ⟨ha, rfl⟩

theorem lookup_of_notMem (hk : k ∉ l.map key) : lookup key k l = none := by
  refine lookup_none.mpr fun a ha hkey => hk ?_
  exact hkey ▸ List.mem_map_of_mem ha

omit [DecidableEq κ] in
theorem Keyed.append (hl : Keyed key l) (hnew : ∀ b ∈ l, key b ≠ key a) :
    Keyed key (l ++ [a]) := by
  unfold Keyed
  rw [List.map_append, List.nodup_append]
  refine ⟨hl, List.nodup_singleton _, ?_⟩
  intro k hk k' hk' heq
  obtain ⟨b, hb, hbk⟩ := List.mem_map.mp hk
  have hk' : k' = key a := by simpa using hk'
  exact hnew b hb (hbk.trans (heq.trans hk'))

/-- Where the record with the key is. -/
theorem findIdx?_split {before after : List α}
    (hbefore : ∀ b ∈ before, key b ≠ k) (hkey : key a = k) :
    (before ++ a :: after).findIdx? (fun a => key a = k) = some before.length := by
  rw [List.findIdx?_append]
  have hnone : before.findIdx? (fun a => key a = k) = none :=
    List.findIdx?_eq_none_iff.mpr fun b hb => by simpa using hbefore b hb
  have hhere : (a :: after).findIdx? (fun a => key a = k) = some 0 := by
    rw [List.findIdx?_cons, if_pos (decide_eq_true hkey)]
  rw [hnone, hhere]
  simp

theorem findIdx_split {before after : List α}
    (hbefore : ∀ b ∈ before, key b ≠ k) (hkey : key a = k) :
    (before ++ a :: after).findIdx (fun a => key a = k) = before.length := by
  have h := @findIdx?_split _ _ _ key k a before after hbefore hkey
  exact (List.findIdx?_eq_some_iff_findIdx_eq.mp h).2

/-- One record goes, and the others stay. -/
theorem swapRemove_perm (h : lookup key k l = some a) :
    l.Perm (a :: swapRemove key k l) := by
  obtain ⟨hkey, before, after, rfl, hbefore⟩ := lookup_split h
  unfold swapRemove
  rw [findIdx?_split hbefore hkey]
  rcases List.eq_nil_or_concat after with rfl | ⟨after, last, rfl⟩
  · rw [List.getLast?_concat]
    dsimp only
    rw [List.set_append_right _ _ (Nat.le_refl _), Nat.sub_self, List.set_cons_zero,
      List.dropLast_concat]
    exact List.perm_append_singleton a before
  · have hassoc : before ++ a :: (after ++ [last]) = (before ++ a :: after) ++ [last] := by
      simp
    rw [List.concat_eq_append, hassoc, List.getLast?_concat]
    dsimp only
    rw [List.set_append_left _ _ (by simp), List.dropLast_concat,
      List.set_append_right _ _ (Nat.le_refl _), Nat.sub_self, List.set_cons_zero]
    calc before ++ a :: after ++ [last]
        |>.Perm (last :: (before ++ a :: after)) := List.perm_append_singleton _ _
      _ |>.Perm (last :: a :: (before ++ after)) := List.perm_middle.cons _
      _ |>.Perm (a :: last :: (before ++ after)) := List.Perm.swap _ _ _
      _ |>.Perm (a :: (before ++ last :: after)) := (List.perm_middle.symm).cons _

theorem mem_of_mem_swapRemove (h : lookup key k l = some a)
    (hb : b ∈ swapRemove key k l) : b ∈ l :=
  (swapRemove_perm h).mem_iff.mpr (List.mem_cons_of_mem _ hb)

theorem mem_of_swapRemove (h : b ∈ swapRemove key k l) : b ∈ l := by
  unfold swapRemove at h
  split at h
  · next i last _ hlast =>
    rcases List.mem_or_eq_of_mem_set (List.dropLast_subset _ h) with hmem | heq
    · exact hmem
    · rw [heq]
      exact List.mem_of_getLast? hlast
  · exact h

theorem Keyed.mem_swapRemove (hl : Keyed key l) (h : lookup key k l = some a) :
    b ∈ swapRemove key k l ↔ b ∈ l ∧ key b ≠ k := by
  have hperm := swapRemove_perm h
  have hnodup : ((a :: swapRemove key k l).map key).Nodup :=
    (hperm.map key).nodup_iff.mp hl
  obtain ⟨-, hkey⟩ := lookup_mem h
  rw [List.map_cons, List.nodup_cons] at hnodup
  constructor
  · intro hb
    refine ⟨hperm.mem_iff.mpr (List.mem_cons_of_mem _ hb), fun hbk => ?_⟩
    exact hnodup.1 (List.mem_map.mpr ⟨b, hb, hbk.trans hkey.symm⟩)
  · intro ⟨hb, hbk⟩
    rcases List.mem_cons.mp (hperm.mem_iff.mp hb) with rfl | hmem
    · exact absurd hkey hbk
    · exact hmem

theorem Keyed.swapRemove (hl : Keyed key l) (h : lookup key k l = some a) :
    Keyed key (swapRemove key k l) := by
  have hnodup := ((swapRemove_perm h).map key).nodup_iff.mp hl
  rw [List.map_cons, List.nodup_cons] at hnodup
  exact hnodup.2

variable {f : α → α}

theorem alter_split {before after : List α}
    (hbefore : ∀ b ∈ before, key b ≠ k) (hkey : key a = k) :
    alter key k f (before ++ a :: after) = before ++ f a :: after := by
  unfold alter
  rw [findIdx_split hbefore hkey, List.modify_eq_set_getElem?]
  simp

theorem mem_of_mem_alter (h : lookup key k l = some a) (hb : b ∈ alter key k f l) :
    b ∈ l ∨ b = f a := by
  obtain ⟨hkey, before, after, rfl, hbefore⟩ := lookup_split h
  rw [alter_split hbefore hkey] at hb
  rcases List.mem_append.mp hb with hold | hrest
  · exact .inl (List.mem_append_left _ hold)
  · rcases List.mem_cons.mp hrest with hnew | hold
    · exact .inr hnew
    · exact .inl (List.mem_append_right _ (List.mem_cons_of_mem _ hold))

theorem Keyed.mem_alter (hl : Keyed key l) (h : lookup key k l = some a) :
    b ∈ alter key k f l ↔ (b ∈ l ∧ key b ≠ k) ∨ b = f a := by
  obtain ⟨hkey, before, after, rfl, hbefore⟩ := lookup_split h
  rw [alter_split hbefore hkey]
  have hafter : ∀ b ∈ after, key b ≠ k := by
    intro b hb hbk
    have hnodup := hl
    unfold Keyed at hnodup
    rw [List.map_append, List.map_cons, List.nodup_append, List.nodup_cons] at hnodup
    exact hnodup.2.1.1 (List.mem_map.mpr ⟨b, hb, hbk.trans hkey.symm⟩)
  simp only [List.mem_append, List.mem_cons]
  constructor
  · rintro (hb | rfl | hb)
    · exact .inl ⟨.inl hb, hbefore b hb⟩
    · exact .inr rfl
    · exact .inl ⟨.inr (.inr hb), hafter b hb⟩
  · rintro (⟨hb | rfl | hb, hbk⟩ | rfl)
    · exact .inl hb
    · exact absurd hkey hbk
    · exact .inr (.inr hb)
    · exact .inr (.inl rfl)

theorem Keyed.alter (hl : Keyed key l) (h : lookup key k l = some a)
    (hf : ∀ a, key (f a) = key a) : Keyed key (alter key k f l) := by
  obtain ⟨hkey, before, after, rfl, hbefore⟩ := lookup_split h
  rw [alter_split hbefore hkey]
  unfold Keyed at hl ⊢
  rw [List.map_append, List.map_cons] at hl ⊢
  rw [hf]
  exact hl

end Coht.Lib
