import Coht.Vmebridge.WindowTable

/-!
# What a failed request leaves behind

`vme_create_window()` undoes everything on each of its failing exits. The
creation path of `__vme_find_mapping()` does one more thing after it, the
allocation of the mapping record, and has no exit of its own for the case that
this fails: the window it has just opened stays, with its PCI resource, its
remapping and its registers. `unchanged_iff` says that this is the only
failure that leaves anything behind.
-/

namespace Coht.Vmebridge

open Coht.Lib

/-- Nothing a client or the hardware can see differs, and the kernel has back
what it handed out in between. -/
structure Unchanged (b b' : Bridge) : Prop where
  active : ∀ n, (b'.window n).active = (b.window n).active
  users : ∀ n, (b'.window n).users = (b.window n).users
  mappings : ∀ n, (b'.window n).mappings = (b.window n).mappings
  rsrc : ∀ n, (b'.window n).rsrc = (b.window n).rsrc
  otrans : b'.otrans = b.otrans
  regions : b'.regions = b.regions
  remaps : b'.remaps = b.remaps

theorem Unchanged.refl (b : Bridge) : Unchanged b b where
  active _ := rfl
  users _ := rfl
  mappings _ := rfl
  rsrc _ := rfl
  otrans := rfl
  regions := rfl
  remaps := rfl

/-- The request opens a window and the mapping record for it cannot be
allocated. -/
structure StrandsWindow (env : Env) (m : VmeMapping) (b : Bridge) : Prop where
  sanity : vmeMappingSanityCheck m = .ok ()
  search : findWindow b m = none
  opens : ∃ n, firstUnused b = some n ∧ (windowFor m n).sizel ≠ 0 ∧
    ∃ start attrs, Accepts env (createAlign (windowFor m n)) start attrs
  kzalloc : env.kzalloc = false

section

variable {env : Env} {n : Fin numOutWindows} {b b' : Bridge}
variable {desc m m' : VmeMapping} {file : Option File} {rc : Errno}

theorem not_unchanged_opened {start : Nat} {attrs : Word}
    (hact : (b.window n).active = false) :
    ¬ Unchanged b (b.opened env n desc start attrs) := by
  intro h
  have hn := h.active n
  rw [opened_window, if_pos rfl, hact] at hn
  cases hn

theorem vmeCreateWindow_windowFor (hunused : firstUnused b = some n)
    (hsize : (windowFor m n).sizel ≠ 0) {start : Nat} {attrs : Word}
    (hacc : Accepts env (createAlign (windowFor m n)) start attrs) :
    vmeCreateWindow env (windowFor m n) b =
      (.ok (), openedDesc env (createAlign (windowFor m n)) start,
        b.opened env n (createAlign (windowFor m n)) start attrs) := by
  rw [vmeCreateWindow_ok_iff]
  refine ⟨n, ?_, hsize, ?_⟩
  · rw [windowFor_windowNum, windowIndex?_cast]
  · exact createLocked_ok_iff.mpr
      ⟨firstUnused_inactive hunused, start, attrs, hacc, rfl, rfl⟩

end

/-- After any sequence of calls, a request with `force` that fails leaves
everything as it was exactly when it has not opened a window it then cannot
put a mapping on. -/
theorem unchanged_iff {b b' : Bridge} (hb : windowTable.Reachable b) (env : Env)
    (m : VmeMapping) (file : Option File) {m' : VmeMapping} {rc : Errno}
    (h : vmeFindMapping env m true file b = (.error rc, m', b')) :
    Unchanged b b' ↔ ¬ StrandsWindow env m b := by
  have hsound := windowTable_sound hb
  have hcase := findCase env m true file b
  generalize hr : vmeFindMapping env m true file b = r at hcase
  rw [h] at hr
  cases hcase with
  | outOfRange sanity =>
    simp only [Prod.mk.injEq] at hr
    rw [hr.2.2]
    refine iff_of_true (Unchanged.refl b) fun hs => ?_
    have hok := hs.sanity
    rw [sanity] at hok
    cases hok
  | found _ search =>
    obtain ⟨_, rfl⟩ := attach_error hr.symm
    refine iff_of_true (Unchanged.refl b') fun hs => ?_
    rw [hs.search] at search
    cases search
  | notForced _ hforce => cases hforce
  | full _ unused =>
    simp only [Prod.mk.injEq] at hr
    rw [hr.2.2]
    refine iff_of_true (Unchanged.refl b) fun hs => ?_
    obtain ⟨n, hn, _⟩ := hs.opens
    rw [unused] at hn
    cases hn
  | @refused n _ _ _ _ unused create =>
    simp only [Prod.mk.injEq] at hr
    rw [hr.2.2, vmeCreateWindow_atomic hsound create]
    refine iff_of_true (Unchanged.refl b) fun hs => ?_
    obtain ⟨k, hk, hsize, start, attrs, hacc⟩ := hs.opens
    rw [unused, Option.some.injEq] at hk
    subst hk
    rw [vmeCreateWindow_windowFor unused hsize hacc] at create
    simp at create
  | @created n _ _ sanity search _ unused create =>
    obtain ⟨hsize, hact, start, attrs, hacc, _, rfl⟩ :=
      windowFor_created create
    obtain ⟨hk, rfl⟩ := attach_error hr.symm
    refine iff_of_false (not_unchanged_opened hact) (not_not_intro ?_)
    exact ⟨sanity, search, ⟨n, unused, hsize, start, attrs, hacc⟩, hk⟩

/-- A kernel that places and maps a window and then is out of memory for the
mapping record. -/
def exhaustedEnv : Env := { roomyEnv with kzalloc := false }

/-- One megabyte of A32 space. -/
def megabyte : VmeMapping :=
  { am := .a32UserDataSct, dataWidth := .d32, vmeAddrl := 0x100000,
    sizel := 0x100000 }

theorem unchanged_iff_megabyte :
    Unchanged ({} : Bridge)
        (vmeFindMapping exhaustedEnv megabyte true none {}).2.2 ↔
      ¬ StrandsWindow exhaustedEnv megabyte {} :=
  unchanged_iff windowTable_fresh exhaustedEnv megabyte none
    (show vmeFindMapping exhaustedEnv megabyte true none {} =
      (.error .enomem, placeOn _ ⟨0, by decide⟩ megabyte, _) from rfl)

/-- The window of a request that could not be recorded stays active. -/
theorem not_unchanged_megabyte :
    windowTable.Reachable ({} : Bridge) ∧
      (vmeFindMapping exhaustedEnv megabyte true none {}).1 = .error .enomem ∧
      ¬ Unchanged ({} : Bridge)
        (vmeFindMapping exhaustedEnv megabyte true none {}).2.2 := by
  refine ⟨windowTable_fresh, rfl, fun h => ?_⟩
  exact absurd (h.active ⟨0, by decide⟩) (by decide)

end Coht.Vmebridge
