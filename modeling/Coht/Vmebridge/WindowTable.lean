import Coht.Lib.System
import Coht.Vmebridge.WindowSpec

/-!
# The window table over whole runs

`Window.Sound` is what the driver keeps true of a window between any two
operations: the count agrees with the list, an idle window is empty, and an
active one carries its own number and lies below 4 GB on the PCI bus.
`windowTable` is the system of all operations in any order, each run to its end
before the next one starts; `windowTable_sound` is the invariant of its runs.
-/

namespace Coht.Vmebridge

open Coht.Lib

structure Window.Sound (n : Fin numOutWindows) (w : Window) : Prop where
  users : w.users = w.mappings.length
  idle : w.active = false → w.mappings = [] ∧ w.rsrc = {}
  number : w.active = true → w.desc.windowNum = n.val
  placed : w.active = true →
    w.desc.pciAddrl.toNat + w.desc.sizel.toNat ≤ 2 ^ 32
  mapped : ∀ m ∈ w.mappings, m.desc.windowNum = n.val

def Bridge.Sound (b : Bridge) : Prop :=
  ∀ n, (b.window n).Sound n

theorem Window.sound_init (n : Fin numOutWindows) : Window.Sound n {} where
  users := rfl
  idle _ := ⟨rfl, rfl⟩
  number h := by cases h
  placed h := by cases h
  mapped _ h := by cases h

section Sections

variable {env : Env} {n : Fin numOutWindows} {b b' : Bridge} {w : Window}
variable {desc m m' : VmeMapping} {file : Option File}

theorem Bridge.Sound.setWindow (hb : b.Sound) (hw : w.Sound n) :
    (b.setWindow n w).Sound := by
  intro k
  rw [setWindow_window]
  split
  · next hk =>
    subst hk
    exact hw
  · exact hb k

/-! ## One window -/

theorem openedDesc_placed {start : Nat} {attrs : Word}
    (hacc : Accepts env (createAlign desc) start attrs) :
    (openedDesc env (createAlign desc) start).pciAddrl.toNat = start ∧
      start + (openedDesc env (createAlign desc) start).sizel.toNat ≤
        2 ^ 32 := by
  obtain ⟨hstart, hend⟩ := env.fits hacc.alloc
  rw [openedDesc_createAlign]
  exact ⟨by rw [BitVec.toNat_ofNat]; exact Nat.mod_eq_of_lt hstart, hend⟩

theorem Window.Sound.opened {start : Nat} {attrs : Word}
    (hw : w.Sound n) (hact : w.active = false) (hnum : desc.windowNum = n.val)
    (hacc : Accepts env (createAlign desc) start attrs) :
    Window.Sound n { w with
      rsrc := windowRsrc env n start (createAlign desc).sizel
      desc := openedDesc env (createAlign desc) start
      active := true } where
  users := hw.users
  idle h := by cases h
  number _ := by
    show (openedDesc env (createAlign desc) start).windowNum = n.val
    rw [openedDesc_createAlign]
    exact (createAlign_windowNum desc).trans hnum
  placed _ := by
    obtain ⟨hstart, hend⟩ := openedDesc_placed hacc
    show (openedDesc env (createAlign desc) start).pciAddrl.toNat + _ ≤ _
    rw [hstart]
    exact hend
  mapped m hm := by
    rw [(hw.idle hact).1] at hm
    cases hm

theorem Window.Sound.withMapping {id : Nat}
    (hw : w.Sound n) (hact : w.active = true) (hnum : desc.windowNum = n.val) :
    Window.Sound n { w with
      mappings := w.mappings ++ [⟨id, desc, file⟩]
      users := w.users + 1 } where
  users := by
    show w.users + 1 = ((w.mappings ++ [_]).length : Nat)
    rw [hw.users, List.length_append]
    rfl
  idle h := by
    rw [hact] at h
    cases h
  number := hw.number
  placed := hw.placed
  mapped m hm := by
    rcases List.mem_append.mp hm with hm | hm
    · exact hw.mapped m hm
    · rw [List.mem_singleton] at hm
      subst hm
      exact hnum

theorem Window.Sound.released
    (hw : w.Sound n) (hact : w.active = true)
    (hany : w.mappings.any (Mapping.matches desc file) = true) :
    Window.Sound n { w with
      mappings := w.mappings.eraseP (Mapping.matches desc file)
      users := w.users - 1 } where
  users := by
    obtain ⟨m, hm, hmatch⟩ := List.any_eq_true.mp hany
    have hlen := List.length_eraseP_of_mem hm hmatch
    have hpos := List.length_pos_of_mem hm
    have husers := hw.users
    show w.users - 1 = ((w.mappings.eraseP _).length : Nat)
    omega
  idle h := by
    rw [hact] at h
    cases h
  number := hw.number
  placed := hw.placed
  mapped m hm := hw.mapped m (List.mem_of_mem_eraseP hm)

theorem Window.Sound.shut_empty (hw : w.Sound n) :
    w.shut.mappings = [] ∧ w.shut.users = 0 := by
  have husers := hw.users
  simp only [Window.shut]
  split
  · exact ⟨rfl, by omega⟩
  · have hlen : w.mappings.length = 0 := by omega
    exact ⟨List.length_eq_zero_iff.mp hlen, by omega⟩

theorem Window.Sound.shut (hw : w.Sound n) : w.shut.Sound n where
  users := by
    rw [hw.shut_empty.1, hw.shut_empty.2]
    rfl
  idle _ := ⟨hw.shut_empty.1, rfl⟩
  number h := by cases h
  placed h := by cases h
  mapped m hm := by
    rw [hw.shut_empty.1] at hm
    cases hm

theorem Window.Sound.without {file : File}
    (hw : w.Sound n) (hact : w.active = true) : (w.without file).Sound n where
  users := by
    have hsplit := List.length_eq_countP_add_countP
      (fun m : Mapping => m.file == some file) (l := w.mappings)
    rw [List.countP_eq_length_filter, List.countP_eq_length_filter] at hsplit
    have hkeep : w.mappings.filter (fun m => m.file != some file) =
        w.mappings.filter (fun m => decide ¬(m.file == some file) = true) := by
      congr 1
      funext m
      cases h : m.file == some file <;> simp [bne, h]
    have husers := hw.users
    show w.users - ((w.mappings.filter fun m => m.file == some file).length : Nat) =
      ((w.mappings.filter fun m => m.file != some file).length : Nat)
    rw [hkeep]
    omega
  idle h := by
    change w.active = false at h
    rw [hact] at h
    cases h
  number := hw.number
  placed := hw.placed
  mapped m hm := hw.mapped m ((List.mem_filter.mp hm).1)

/-! ## The sections and the composed operations -/

theorem vmeCreateWindow_atomic {desc' : VmeMapping} {rc : Errno}
    (hb : b.Sound)
    (h : vmeCreateWindow env desc b = (.error rc, desc', b')) : b' = b := by
  rcases vmeCreateWindow_error h with rfl | ⟨n, hact, rfl⟩
  · rfl
  · have hrsrc := ((hb n).idle hact).2
    rw [← hrsrc, setWindow_self]

theorem vmeCreateWindow_sound (hb : b.Sound) :
    (vmeCreateWindow env desc b).2.2.Sound := by
  rcases h : vmeCreateWindow env desc b with ⟨rc | _, desc', b'⟩
  · rw [vmeCreateWindow_atomic hb h]
    exact hb
  · obtain ⟨n, hnum, _, hcreate⟩ := vmeCreateWindow_ok_iff.mp h
    obtain ⟨hact, start, attrs, hacc, _, rfl⟩ := createLocked_ok_iff.mp hcreate
    exact hb.setWindow ((hb n).opened hact (windowIndex?_val hnum) hacc)

theorem attach_sound (hb : b.Sound) (hact : (b.window n).active = true) :
    (attach env file n m b).2.2.Sound := by
  rcases h : attach env file n m b with ⟨rc | _, m', b'⟩
  · obtain ⟨_, rfl⟩ := attach_error h
    exact hb
  · obtain ⟨_, rfl, rfl⟩ := attach_ok_iff.mp h
    exact hb.setWindow ((hb n).withMapping hact rfl)

theorem releaseLocked_sound (hb : b.Sound) :
    (releaseLocked n desc file b).2.Sound := by
  rcases h : releaseLocked n desc file b with ⟨rc | _, b'⟩
  · rw [releaseLocked_error h]
    exact hb
  · obtain ⟨hact, hany, rfl⟩ := releaseLocked_ok_iff.mp h
    exact hb.setWindow ((hb n).released hact hany)

theorem destroyLocked_sound (hb : b.Sound) : (destroyLocked n b).2.Sound := by
  rcases h : destroyLocked n b with ⟨rc | _, b'⟩
  · rw [(destroyLocked_error h).2]
    exact hb
  · obtain ⟨_, rfl⟩ := destroyLocked_ok_iff.mp h
    exact hb.setWindow (hb n).shut

theorem closeLocked_sound {file : File} (hb : b.Sound) :
    (closeLocked file n b).Sound := by
  rcases closeLocked_eq file n b with ⟨heq, _⟩ | ⟨hact, heq⟩
  · rw [heq]
    exact hb
  · rw [heq]
    exact hb.setWindow ((hb n).without hact)

theorem vmeDestroyWindow_sound {windowNum : Int} (hb : b.Sound) :
    (vmeDestroyWindow windowNum b).2.Sound := by
  simp only [vmeDestroyWindow]
  split
  · exact hb
  · exact destroyLocked_sound hb

theorem Window.matches_active (h : w.matches m = true) : w.active = true := by
  simp only [Window.matches, Bool.and_eq_true] at h
  exact h.1.1.1.1.1.1.1

theorem vmeFindMapping_sound {force : Bool} (hb : b.Sound) :
    (vmeFindMapping env m force file b).2.2.Sound := by
  have hcase := findCase env m force file b
  generalize vmeFindMapping env m force file b = r at hcase ⊢
  cases hcase with
  | outOfRange => exact hb
  | found _ search =>
    exact attach_sound hb (Window.matches_active (findWindow_matches search))
  | notForced => exact hb
  | full => exact hb
  | refused _ _ create =>
    have hb' := congrArg (fun r => r.2.2.Sound) create
    exact hb'.mp (vmeCreateWindow_sound hb)
  | created _ _ _ unused create =>
    have hb' := (congrArg (fun r => r.2.2.Sound) create).mp
      (vmeCreateWindow_sound hb)
    obtain ⟨_, _, start, attrs, _, _, rfl⟩ := windowFor_created create
    exact attach_sound hb' (by simp [Bridge.opened])

theorem vmeReleaseMapping_sound {force : Bool} (hb : b.Sound) :
    (vmeReleaseMapping desc force file b).2.Sound := by
  simp only [vmeReleaseMapping]
  split
  · exact hb
  · next n _ =>
    have hrel : (releaseLocked n desc file b).2.Sound :=
      releaseLocked_sound hb
    split
    · next h =>
      rw [h] at hrel
      exact hrel
    · next h =>
      rw [h] at hrel
      split
      · exact vmeDestroyWindow_sound hrel
      · exact hrel

theorem vmeWindowRelease_sound {file : File} (hb : b.Sound) :
    (vmeWindowRelease file b).Sound := by
  unfold vmeWindowRelease
  generalize List.finRange numOutWindows = windows
  induction windows generalizing b with
  | nil => exact hb
  | cons n windows ih => exact ih (closeLocked_sound hb)

end Sections

/-! ## Runs -/

/-- A call of one of the driver's entry points. -/
inductive Op
  | create (env : Env) (desc : VmeMapping)
  | destroy (windowNum : Int)
  | find (env : Env) (m : VmeMapping) (force : Bool) (file : Option File)
  | release (desc : VmeMapping) (force : Bool) (file : Option File)
  | close (file : File)

/-- The bridge after a call. -/
def Op.run : Op → Bridge → Bridge
  | .create env desc, b => (vmeCreateWindow env desc b).2.2
  | .destroy windowNum, b => (vmeDestroyWindow windowNum b).2
  | .find env m force file, b => (vmeFindMapping env m force file b).2.2
  | .release desc force file, b => (vmeReleaseMapping desc force file b).2
  | .close file, b => vmeWindowRelease file b

/-- All sequences of calls from a fresh window table. What the chip's registers
hold before the first window is created is left open. -/
def windowTable : System Bridge Op where
  init b := ∀ n, b.window n = {}
  step b op b' := b' = op.run b

theorem windowTable_fresh : windowTable.Reachable {} :=
  .init fun _ => rfl

theorem Op.run_sound {b : Bridge} (op : Op) (hb : b.Sound) :
    (op.run b).Sound := by
  cases op with
  | create => exact vmeCreateWindow_sound hb
  | destroy => exact vmeDestroyWindow_sound hb
  | find => exact vmeFindMapping_sound hb
  | release => exact vmeReleaseMapping_sound hb
  | close => exact vmeWindowRelease_sound hb

theorem windowTable_invariant : windowTable.Invariant Bridge.Sound where
  init hb n := by
    rw [hb n]
    exact Window.sound_init n
  step hb hstep := by
    cases hstep
    exact Op.run_sound _ hb

theorem windowTable_sound {b : Bridge} (hb : windowTable.Reachable b) :
    b.Sound :=
  windowTable_invariant.reachable hb

end Coht.Vmebridge
