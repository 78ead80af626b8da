import Coht.Vmebridge.Decode
import Coht.Vmebridge.Window

/-!
# What the operations do to the window table

Each section under one window's lock gets one lemma that says all it can do,
and the composed operations get theirs from these, so no later module unfolds
an operation again. A failing section leaves the bridge as it was; an accepted
`vme_create_window()` opens a window (`Bridge.opened`), and that is the only
way a window becomes active.
-/

namespace Coht.Vmebridge

section Sections

variable {env : Env} {n : Fin numOutWindows} {b b' : Bridge}
variable {desc desc' m m' : VmeMapping} {file : Option File} {rc : Errno}

/-! ## Updates of one window -/

@[simp] theorem setWindow_window (b : Bridge) (n k : Fin numOutWindows)
    (w : Window) :
    (b.setWindow n w).window k = if k = n then w else b.window k := by
  simp only [Bridge.setWindow, Function.update_apply]

theorem setWindow_self (b : Bridge) (n : Fin numOutWindows) :
    b.setWindow n (b.window n) = b := by
  simp only [Bridge.setWindow, Function.update_eq_self]

/-! ## Creating a window -/

/-- What `vme_create_window()` needs to open a window from an aligned
descriptor: each of its failing exits is one field. -/
structure Accepts (env : Env) (desc : VmeMapping) (start : Nat) (attrs : Word) :
    Prop where
  alloc : env.pciBusAllocResource desc.sizel = .ok start
  remap : env.ioremap start desc.sizel ≠ 0
  aligned : BitVec.ofNat 32 start &&& 0xffff = 0
  attributes : tsi148SetupWindowAttributes desc.v2esstMode desc.dataWidth
    desc.am = .ok attrs

def openedDesc (env : Env) (desc : VmeMapping) (start : Nat) : VmeMapping :=
  { chipAlign { desc with
      kernelVa := env.ioremap start desc.sizel
      pciAddrl := BitVec.ofNat 32 start } with windowEnabled := 1 }

def Bridge.opened (b : Bridge) (env : Env) (n : Fin numOutWindows)
    (desc : VmeMapping) (start : Nat) (attrs : Word) : Bridge :=
  { b.setWindow n { b.window n with
      rsrc := windowRsrc env n start desc.sizel
      desc := openedDesc env desc start
      active := true } with
    otrans := Function.update b.otrans n
      (windowRegs (chipAlign { desc with
        kernelVa := env.ioremap start desc.sizel
        pciAddrl := BitVec.ofNat 32 start }) attrs)
    remaps := env.ioremap start desc.sizel :: b.remaps
    regions := (windowRsrc env n start desc.sizel).range :: b.regions }

@[simp] theorem opened_window (b : Bridge) (env : Env)
    (n k : Fin numOutWindows) (desc : VmeMapping) (start : Nat) (attrs : Word) :
    (b.opened env n desc start attrs).window k =
      if k = n then { b.window n with
        rsrc := windowRsrc env n start desc.sizel
        desc := openedDesc env desc start
        active := true }
      else b.window k :=
  setWindow_window b n k _

theorem openedDesc_created {start : Nat} {attrs : Word}
    (hacc : Accepts env desc start attrs) (regs : Otrans) :
    tsi148CreateWindow { desc with
        kernelVa := env.ioremap start desc.sizel
        pciAddrl := BitVec.ofNat 32 start } regs =
      (.ok (), openedDesc env desc start,
        windowRegs (chipAlign { desc with
          kernelVa := env.ioremap start desc.sizel
          pciAddrl := BitVec.ofNat 32 start }) attrs) := by
  simp only [tsi148CreateWindow, chipAlign, hacc.aligned, hacc.attributes,
    openedDesc, ne_eq, not_true_eq_false, if_false]

theorem createLocked_ok_iff :
    createLocked env n desc b = (.ok (), desc', b') ↔
      (b.window n).active = false ∧ ∃ start attrs,
        Accepts env desc start attrs ∧ desc' = openedDesc env desc start ∧
        b' = b.opened env n desc start attrs := by
  constructor
  · intro h
    simp only [createLocked] at h
    split at h
    · simp at h
    · next hact =>
      split at h
      · simp at h
      · next start halloc =>
        split at h
        · simp at h
        · next hmap =>
          split at h
          · simp at h
          · next d regs hchip =>
            obtain ⟨hal, attrs, hattrs, rfl, rfl⟩ :=
              tsi148CreateWindow_ok hchip
            simp only [Prod.mk.injEq, true_and] at h
            obtain ⟨rfl, rfl⟩ := h
            exact ⟨by simpa using hact, start, attrs,
              ⟨halloc, hmap, hal, hattrs⟩, rfl, rfl⟩
  · rintro ⟨hact, start, attrs, hacc, rfl, rfl⟩
    have hchip := openedDesc_created hacc (b.otrans n)
    simp only [createLocked, hact, hacc.alloc, hacc.remap, hchip,
      Bool.false_eq_true, if_false, Bridge.opened]

theorem createLocked_error
    (h : createLocked env n desc b = (.error rc, desc', b')) :
    b' = b ∨ ((b.window n).active = false ∧
      b' = b.setWindow n { b.window n with rsrc := {} }) := by
  simp only [createLocked] at h
  split at h
  · simp only [Prod.mk.injEq] at h
    exact .inl h.2.2.symm
  · next hact =>
    right
    refine ⟨by simpa using hact, ?_⟩
    split at h
    · simp only [Prod.mk.injEq] at h
      exact h.2.2.symm
    · split at h
      · simp only [List.erase_cons_head, Prod.mk.injEq] at h
        exact h.2.2.symm
      · split at h
        · next d regs hchip =>
          obtain ⟨rfl, rfl⟩ := tsi148CreateWindow_error hchip
          simp only [chipAlign, List.erase_cons_head,
            Function.update_eq_self, Prod.mk.injEq] at h
          exact h.2.2.symm
        · simp at h

/-! ## Adding and removing a mapping -/

def Bridge.withMapping (b : Bridge) (n : Fin numOutWindows) (desc : VmeMapping)
    (file : Option File) : Bridge :=
  { b.setWindow n { b.window n with
      mappings := (b.window n).mappings ++ [⟨b.nextMapping, desc, file⟩]
      users := (b.window n).users + 1 } with
    nextMapping := b.nextMapping + 1 }

@[simp] theorem withMapping_window (b : Bridge) (n k : Fin numOutWindows)
    (desc : VmeMapping) (file : Option File) :
    (b.withMapping n desc file).window k =
      if k = n then { b.window n with
        mappings := (b.window n).mappings ++ [⟨b.nextMapping, desc, file⟩]
        users := (b.window n).users + 1 }
      else b.window k :=
  setWindow_window b n k _

theorem attach_ok_iff :
    attach env file n m b = (.ok (), m', b') ↔
      env.kzalloc = true ∧ m' = placeOn (b.window n) n m ∧
        b' = b.withMapping n m' file := by
  simp only [attach, addMapping]
  split
  · next hk =>
    simp only [hk, Prod.mk.injEq, true_and]
    constructor
    · rintro ⟨rfl, rfl⟩
      exact ⟨rfl, rfl⟩
    · rintro ⟨rfl, rfl⟩
      exact ⟨rfl, rfl⟩
  · next hk => simp [hk]

theorem attach_error (h : attach env file n m b = (.error rc, m', b')) :
    env.kzalloc = false ∧ b' = b := by
  simp only [attach, addMapping] at h
  split at h
  · simp at h
  · next hk =>
    simp only [Prod.mk.injEq] at h
    exact ⟨by simpa using hk, h.2.2.symm⟩

theorem releaseLocked_ok_iff :
    releaseLocked n desc file b = (.ok (), b') ↔
      (b.window n).active = true ∧
        (b.window n).mappings.any (Mapping.matches desc file) = true ∧
        b' = b.setWindow n { b.window n with
          mappings := (b.window n).mappings.eraseP (Mapping.matches desc file)
          users := (b.window n).users - 1 } := by
  simp only [releaseLocked, removeMapping]
  split
  · next hact => simp [hact]
  · next hact =>
    have hact : (b.window n).active = true := by simpa using hact
    split
    · next hany =>
      simp only [hact, hany, Prod.mk.injEq, true_and]
      exact eq_comm
    · next hany => simp [hany]

theorem releaseLocked_error
    (h : releaseLocked n desc file b = (.error rc, b')) : b' = b := by
  simp only [releaseLocked, removeMapping] at h
  split at h
  · simp only [Prod.mk.injEq] at h
    exact h.2.symm
  · split at h
    · simp at h
    · simp only [setWindow_self, Prod.mk.injEq] at h
      exact h.2.symm

/-! ## Destroying a window and closing a file -/

def Window.shut (w : Window) : Window where
  active := false
  rsrc := {}
  desc := { w.desc with kernelVa := 0, windowEnabled := 0 }
  mappings := if w.users > 0 then [] else w.mappings
  users := if w.users > 0 then w.users - w.mappings.length else w.users

theorem destroyLocked_ok_iff :
    destroyLocked n b = (.ok (), b') ↔
      (b.window n).active = true ∧
        b' = { b.setWindow n (b.window n).shut with
          otrans := (tsi148RemoveWindow (b.window n).desc b.otrans).2
          remaps := b.remaps.erase (b.window n).desc.kernelVa
          regions := b.regions.erase (b.window n).rsrc.range } := by
  simp only [destroyLocked]
  split
  · next hact => simp [hact]
  · next hact =>
    have hact : (b.window n).active = true := by simpa using hact
    simp only [hact, Prod.mk.injEq, true_and, tsi148RemoveWindow,
      Window.shut]
    split <;> exact eq_comm

theorem destroyLocked_error
    (h : destroyLocked n b = (.error rc, b')) :
    (b.window n).active = false ∧ b' = b := by
  simp only [destroyLocked] at h
  split at h
  · next hact =>
    simp only [Prod.mk.injEq] at h
    exact ⟨hact, h.2.symm⟩
  · simp at h

def Window.without (w : Window) (file : File) : Window :=
  { w with
    mappings := w.mappings.filter fun m => m.file != some file
    users := w.users -
      (w.mappings.filter fun m => m.file == some file).length }

theorem closeLocked_eq (file : File) (n : Fin numOutWindows) (b : Bridge) :
    closeLocked file n b = b ∧
        ((b.window n).active = false ∨ (b.window n).mappings = []) ∨
      (b.window n).active = true ∧
        closeLocked file n b = b.setWindow n ((b.window n).without file) := by
  simp only [closeLocked]
  split
  · next h => exact .inl ⟨rfl, h⟩
  · next h =>
    rw [not_or] at h
    exact .inr ⟨by simpa using h.1, rfl⟩

/-! ## The composed operations -/

/-- The window descriptor `vme_create_window()` works on once both alignments
are done. -/
def createAlign (desc : VmeMapping) : VmeMapping :=
  roundSizel (alignVmeAddrl desc)

theorem createAlign_eq (desc : VmeMapping) :
    createAlign desc = { desc with
      vmeAddrl := (createAlign desc).vmeAddrl
      sizel := (createAlign desc).sizel } := by
  simp only [createAlign, roundSizel, alignVmeAddrl]
  split <;> split <;> rfl

theorem createAlign_vmeAddrl (desc : VmeMapping) :
    (createAlign desc).vmeAddrl.toNat =
      desc.vmeAddrl.toNat - desc.vmeAddrl.toNat % 0x10000 := by
  have hround : (createAlign desc).vmeAddrl =
      (alignVmeAddrl desc).vmeAddrl := by
    simp only [createAlign, roundSizel]
    split <;> rfl
  rw [hround]
  simp only [alignVmeAddrl]
  split
  · exact toNat_and_not_ffff desc.vmeAddrl
  · next hz =>
    have hz := and_ffff_eq_zero.mp (Decidable.of_not_not hz)
    omega

theorem createAlign_sizel (desc : VmeMapping) :
    (createAlign desc).sizel.toNat =
      if desc.sizel.toNat % 0x10000 = 0 then desc.sizel.toNat
      else (desc.sizel.toNat + 0x10000) / 0x10000 * 0x10000 % 2 ^ 32 := by
  have halign : (alignVmeAddrl desc).sizel = desc.sizel := by
    simp only [alignVmeAddrl]
    split
    · show desc.sizel + (_ - _) = desc.sizel
      rw [BitVec.sub_self, BitVec.add_zero]
    · rfl
  simp only [createAlign, roundSizel, halign]
  by_cases hz : desc.sizel &&& 0xffff = 0
  · rw [if_neg (not_not_intro hz), if_pos (and_ffff_eq_zero.mp hz), halign]
  · have hsum : (desc.sizel + 0x10000).toNat =
        (desc.sizel.toNat + 0x10000) % 2 ^ 32 := BitVec.toNat_add _ _
    rw [if_pos hz, if_neg (fun h => hz (and_ffff_eq_zero.mpr h)),
      toNat_and_not_ffff, hsum, mod_sub_granule]

theorem openedDesc_createAlign (env : Env) (desc : VmeMapping) (start : Nat) :
    openedDesc env (createAlign desc) start = { createAlign desc with
      kernelVa := env.ioremap start (createAlign desc).sizel
      pciAddrl := BitVec.ofNat 32 start
      windowEnabled := 1 } := by
  have hvme : (createAlign desc).vmeAddrl &&& 0xffff = 0 := by
    have := createAlign_vmeAddrl desc
    rw [and_ffff_eq_zero]
    omega
  have hsize : (createAlign desc).sizel &&& 0xffff = 0 := by
    have := createAlign_sizel desc
    rw [and_ffff_eq_zero]
    split at this <;> omega
  simp only [openedDesc, chipAlign, chipVmeAddrl, chipSizel, hvme, hsize,
    ne_eq, not_true_eq_false, if_false]

theorem createAlign_windowNum (desc : VmeMapping) :
    (createAlign desc).windowNum = desc.windowNum := by
  simp only [createAlign, roundSizel, alignVmeAddrl]
  split <;> split <;> rfl

theorem vmeCreateWindow_ok_iff :
    vmeCreateWindow env desc b = (.ok (), desc', b') ↔
      ∃ n, windowIndex? desc.windowNum = some n ∧ desc.sizel ≠ 0 ∧
        createLocked env n (createAlign desc) b = (.ok (), desc', b') := by
  simp only [vmeCreateWindow]
  split
  · next h => simp [h]
  · next n h =>
    split
    · next hs => simp [hs]
    · next hs =>
      constructor
      · intro hc
        exact ⟨n, h, hs, hc⟩
      · rintro ⟨k, hk, _, hc⟩
        rw [h, Option.some.injEq] at hk
        subst hk
        exact hc

theorem vmeCreateWindow_error
    (h : vmeCreateWindow env desc b = (.error rc, desc', b')) :
    b' = b ∨ ∃ n, (b.window n).active = false ∧
      b' = b.setWindow n { b.window n with rsrc := {} } := by
  simp only [vmeCreateWindow] at h
  split at h
  · simp only [Prod.mk.injEq] at h
    exact .inl h.2.2.symm
  · next n _ =>
    split at h
    · simp only [Prod.mk.injEq] at h
      exact .inl h.2.2.symm
    · rcases createLocked_error h with rfl | hwiped
      · exact .inl rfl
      · exact .inr ⟨n, hwiped⟩

inductive FindCase (env : Env) (m : VmeMapping) (force : Bool)
    (file : Option File) (b : Bridge) : Rc × VmeMapping × Bridge → Prop
  | outOfRange {rc : Errno} (sanity : vmeMappingSanityCheck m = .error rc) :
      FindCase env m force file b (.error rc, m, b)
  | found {n : Fin numOutWindows}
      (sanity : vmeMappingSanityCheck m = .ok ())
      (search : findWindow b m = some n) :
      FindCase env m force file b (attach env file n m b)
  | notForced (search : findWindow b m = none) (hforce : force = false) :
      FindCase env m force file b (.error .ebusy, m, b)
  | full (search : findWindow b m = none) (unused : firstUnused b = none) :
      FindCase env m force file b (.error .ebusy, m, b)
  | refused {n : Fin numOutWindows} {rc : Errno} {desc : VmeMapping}
      {b' : Bridge} (search : findWindow b m = none)
      (unused : firstUnused b = some n)
      (create : vmeCreateWindow env (windowFor m n) b = (.error rc, desc, b')) :
      FindCase env m force file b (.error rc, m, b')
  | created {n : Fin numOutWindows} {desc : VmeMapping} {b' : Bridge}
      (sanity : vmeMappingSanityCheck m = .ok ())
      (search : findWindow b m = none) (hforce : force = true)
      (unused : firstUnused b = some n)
      (create : vmeCreateWindow env (windowFor m n) b = (.ok (), desc, b')) :
      FindCase env m force file b (attach env file n m b')

theorem findCase (env : Env) (m : VmeMapping) (force : Bool)
    (file : Option File) (b : Bridge) :
    FindCase env m force file b (vmeFindMapping env m force file b) := by
  simp only [vmeFindMapping]
  split
  · next hs => exact .outOfRange hs
  · next hs =>
    split
    · next hf => exact .found hs hf
    · next hf =>
      split
      · next hforce => exact .notForced hf hforce
      · next hforce =>
        split
        · next hu => exact .full hf hu
        · next hu =>
          split
          · next hc => exact .refused hf hu hc
          · next hc => exact .created hs hf (by simpa using hforce) hu hc

theorem findWindow_matches (h : findWindow b m = some n) :
    (b.window n).matches m = true := by
  have := List.find?_some h
  exact this

theorem firstUnused_inactive (h : firstUnused b = some n) :
    (b.window n).active = false := by
  have := List.find?_some h
  simpa using this

theorem windowFor_windowNum (m : VmeMapping) (n : Fin numOutWindows) :
    (windowFor m n).windowNum = n.val := by
  simp only [windowFor, vmeOptimizeWindowSize]
  split <;> rfl

theorem windowFor_created
    (h : vmeCreateWindow env (windowFor m n) b = (.ok (), desc', b')) :
    (windowFor m n).sizel ≠ 0 ∧ (b.window n).active = false ∧
      ∃ start attrs, Accepts env (createAlign (windowFor m n)) start attrs ∧
        desc' = openedDesc env (createAlign (windowFor m n)) start ∧
        b' = b.opened env n (createAlign (windowFor m n)) start attrs := by
  obtain ⟨k, hk, hsize, hcreate⟩ := vmeCreateWindow_ok_iff.mp h
  rw [windowFor_windowNum, windowIndex?_cast, Option.some.injEq] at hk
  subst hk
  exact ⟨hsize, createLocked_ok_iff.mp hcreate⟩

end Sections

end Coht.Vmebridge
