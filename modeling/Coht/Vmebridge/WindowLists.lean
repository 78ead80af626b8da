import Coht.Vmebridge.WindowTable

/-!
# The lists of mappings

What each section and each call does to the lists of the eight windows: a find
adds one mapping at the end of one list, a release takes the first match out
of one list, a close filters every list by owner, and creating a window leaves
all lists as they are.
-/

namespace Coht.Vmebridge

/-- The fields a release compares. -/
def VmeMapping.key (desc : VmeMapping) : Word × Word × Word × Word × Nat :=
  (desc.vmeAddru, desc.vmeAddrl, desc.sizeu, desc.sizel, desc.kernelVa)

theorem Mapping.matches_iff {desc : VmeMapping} {file : Option File}
    {m : Mapping} :
    m.matches desc file = true ↔
      m.desc.key = desc.key ∧ (file = none ∨ m.file = file) := by
  simp only [Mapping.matches, VmeMapping.key, Bool.and_eq_true, Bool.or_eq_true,
    beq_iff_eq, Option.isNone_iff_eq_none, Prod.mk.injEq, and_assoc]

section Lists

variable {env : Env} {b b' : Bridge} {desc desc' m m' : VmeMapping}
variable {file : Option File} {force : Bool} {rc : Rc}

theorem vmeCreateWindow_mappings (h : vmeCreateWindow env desc b = (rc, desc', b'))
    (n : Fin numOutWindows) :
    (b'.window n).mappings = (b.window n).mappings := by
  cases rc with
  | error rc =>
    rcases vmeCreateWindow_error h with rfl | ⟨k, _, rfl⟩
    · rfl
    · rw [setWindow_window]
      split
      · next hk =>
        subst hk
        rfl
      · rfl
  | ok =>
    obtain ⟨k, _, _, hlocked⟩ := vmeCreateWindow_ok_iff.mp h
    obtain ⟨_, start, attrs, _, _, rfl⟩ := createLocked_ok_iff.mp hlocked
    rw [opened_window]
    split
    · next hk =>
      subst hk
      rfl
    · rfl

theorem attach_mappings {n : Fin numOutWindows}
    (h : attach env file n m b = (.ok (), m', b')) :
    m'.windowNum = n.val ∧ ∃ id, ∀ k, (b'.window k).mappings =
      if k = n then (b.window k).mappings ++ [⟨id, m', file⟩]
      else (b.window k).mappings := by
  obtain ⟨_, rfl, rfl⟩ := attach_ok_iff.mp h
  refine ⟨rfl, b.nextMapping, ?_⟩
  intro k
  rw [withMapping_window]
  split
  · next hk =>
    subst hk
    rfl
  · rfl

theorem vmeFindMapping_mappings_ok
    (h : vmeFindMapping env m force file b = (.ok (), m', b')) :
    ∃ n : Fin numOutWindows, m'.windowNum = n.val ∧ ∃ id, ∀ k,
      (b'.window k).mappings =
        if k = n then (b.window k).mappings ++ [⟨id, m', file⟩]
        else (b.window k).mappings := by
  have hcase := findCase env m force file b
  generalize hr : vmeFindMapping env m force file b = r at hcase
  rw [h] at hr
  cases hcase with
  | outOfRange | notForced | full | refused => simp at hr
  | @found n => exact ⟨n, attach_mappings hr.symm⟩
  | @created n desc b₁ _ _ _ _ create =>
    obtain ⟨hnum, id, hlists⟩ := attach_mappings hr.symm
    refine ⟨n, hnum, id, ?_⟩
    intro k
    rw [hlists k, vmeCreateWindow_mappings create]

theorem vmeFindMapping_mappings_error {rc : Errno}
    (h : vmeFindMapping env m force file b = (.error rc, m', b'))
    (n : Fin numOutWindows) :
    (b'.window n).mappings = (b.window n).mappings := by
  have hcase := findCase env m force file b
  generalize hr : vmeFindMapping env m force file b = r at hcase
  rw [h] at hr
  cases hcase with
  | outOfRange | notForced | full =>
    simp only [Prod.mk.injEq] at hr
    rw [hr.2.2]
  | found =>
    obtain ⟨_, rfl⟩ := attach_error hr.symm
    rfl
  | refused _ _ create =>
    simp only [Prod.mk.injEq] at hr
    rw [hr.2.2]
    exact vmeCreateWindow_mappings create n
  | created _ _ _ _ create =>
    obtain ⟨_, rfl⟩ := attach_error hr.symm
    exact vmeCreateWindow_mappings create n

theorem vmeDestroyWindow_mappings (hb : b.Sound) {windowNum : Int}
    (hempty : ∀ n, windowIndex? windowNum = some n →
      (b.window n).mappings = []) (n : Fin numOutWindows) :
    (((vmeDestroyWindow windowNum b).2).window n).mappings =
      (b.window n).mappings := by
  simp only [vmeDestroyWindow]
  split
  · rfl
  · next k hk =>
    rcases h : destroyLocked k b with ⟨rc | _, b'⟩
    · rw [(destroyLocked_error h).2]
    · obtain ⟨_, rfl⟩ := destroyLocked_ok_iff.mp h
      show ((b.setWindow k (b.window k).shut).window n).mappings = _
      rw [setWindow_window]
      split
      · next hn =>
        subst hn
        rw [(hb n).shut_empty.1, hempty n hk]
      · rfl

theorem closeLocked_mappings (file : File) (n k : Fin numOutWindows)
    (hb : b.Sound) :
    ((closeLocked file n b).window k).mappings =
      if k = n then (b.window k).mappings.filter fun m => m.file != some file
      else (b.window k).mappings := by
  rcases closeLocked_eq file n b with ⟨heq, hidle⟩ | ⟨_, heq⟩
  · rw [heq]
    split
    · next hk =>
      subst hk
      have hnil : (b.window k).mappings = [] := by
        rcases hidle with hact | hnil
        · exact ((hb k).idle hact).1
        · exact hnil
      rw [hnil]
      rfl
    · rfl
  · rw [heq, setWindow_window]
    split
    · next hk =>
      subst hk
      rfl
    · rfl

theorem vmeWindowRelease_mappings (file : File) (hb : b.Sound)
    (k : Fin numOutWindows) :
    ((vmeWindowRelease file b).window k).mappings =
      (b.window k).mappings.filter fun m => m.file != some file := by
  have hrounds : ∀ (windows : List (Fin numOutWindows)), windows.Nodup →
      ∀ {b : Bridge}, b.Sound →
      ((windows.foldl (fun b n => closeLocked file n b) b).window k).mappings =
        if k ∈ windows then
          (b.window k).mappings.filter fun m => m.file != some file
        else (b.window k).mappings := by
    intro windows
    induction windows with
    | nil => simp
    | cons n windows ih =>
      intro hnodup b hb
      obtain ⟨hn, hnodup⟩ := List.nodup_cons.mp hnodup
      rw [List.foldl_cons, ih hnodup (closeLocked_sound hb),
        closeLocked_mappings file n k hb]
      by_cases hk : k = n
      · subst hk
        rw [if_neg hn, if_pos rfl, if_pos List.mem_cons_self]
      · rw [if_neg hk]
        simp only [List.mem_cons, hk, false_or]
  have hall := hrounds (List.finRange numOutWindows) (List.nodup_finRange _) hb
  rw [if_pos (List.mem_finRange k)] at hall
  exact hall

theorem vmeReleaseMapping_mappings (force : Bool) (hb : b.Sound) {n : Fin numOutWindows}
    (hnum : desc.windowNum = n.val)
    (hany : ∃ mp ∈ (b.window n).mappings, mp.matches desc file = true) :
    (vmeReleaseMapping desc force file b).1 = .ok () ∧
      ∃ mp l₁ l₂, (∀ m ∈ l₁, ¬ m.matches desc file = true) ∧
        mp.matches desc file = true ∧
        (b.window n).mappings = l₁ ++ mp :: l₂ ∧
        ∀ k, (((vmeReleaseMapping desc force file b).2).window k).mappings =
          if k = n then l₁ ++ l₂ else (b.window k).mappings := by
  obtain ⟨mp₀, hmem, hmatch⟩ := hany
  have hact : (b.window n).active = true := by
    cases ha : (b.window n).active with
    | true => rfl
    | false =>
      rw [((hb n).idle ha).1] at hmem
      cases hmem
  obtain ⟨mp, l₁, l₂, hl₁, hmp, hsplit, herase⟩ :=
    List.exists_of_eraseP hmem hmatch
  have hlocked := releaseLocked_ok_iff.mpr
    ⟨hact, List.any_eq_true.mpr ⟨mp₀, hmem, hmatch⟩, rfl⟩
  have hsound : (releaseLocked n desc file b).2.Sound := releaseLocked_sound hb
  rw [hlocked] at hsound
  have hlists : ∀ k, ((b.setWindow n { b.window n with
      mappings := (b.window n).mappings.eraseP (Mapping.matches desc file)
      users := (b.window n).users - 1 }).window k).mappings =
      if k = n then l₁ ++ l₂ else (b.window k).mappings := by
    intro k
    rw [setWindow_window]
    split
    · exact herase
    · rfl
  have hidx : windowIndex? desc.windowNum = some n := by
    rw [hnum, windowIndex?_cast]
  simp only [vmeReleaseMapping, hidx, hlocked]
  split
  · next hlast =>
    have hempty := List.length_eq_zero_iff.mp
      (Int.ofNat_eq_zero.mp ((hsound n).users.symm.trans hlast.1))
    refine ⟨?_, mp, l₁, l₂, hl₁, hmp, hsplit, ?_⟩
    · simp only [vmeDestroyWindow, hidx]
      rw [destroyLocked_ok_iff.mpr ⟨?_, rfl⟩]
      rw [setWindow_window, if_pos rfl]
      exact hact
    · intro k
      rw [vmeDestroyWindow_mappings hsound, hlists]
      intro k' hk'
      rw [hidx, Option.some.injEq] at hk'
      subst hk'
      exact hempty
  · exact ⟨rfl, mp, l₁, l₂, hl₁, hmp, hsplit, hlists⟩

end Lists

end Coht.Vmebridge
