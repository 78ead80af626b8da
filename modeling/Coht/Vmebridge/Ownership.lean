import Coht.Vmebridge.WindowLists

/-!
# Who owns a mapping

A client is a `struct file`, or the kernel. The descriptor a find returned is
all a client has to name its mapping with, and a release looks the mapping up
by address, size and virtual address, so two clients that map the same range
name their mappings alike. For a client with a file the lookup also compares
the file; for the kernel it does not, and a release from the kernel takes the
first mapping in the list that has the key, whoever made it.

`Clients` adds to the bridge the descriptors that were returned and not yet
released. `Accounted` says that for each window, owner and key there are as
many mappings as outstanding descriptors. It is kept by every call as long as
a release from the kernel meets a mapping of the kernel (`KernelFirst`), and
from it follows what every release and every close removes.
-/

namespace Coht.Vmebridge

open Coht.Lib

/-! ## Clients that keep to their own descriptors -/

/-- A descriptor a find returned, with the client it was returned to. -/
abbrev Held := Option File × VmeMapping

structure Clients where
  bridge : Bridge := {}
  held : List Held := []

/-- The outstanding descriptors after a call. -/
def Op.held (op : Op) (s : Clients) : List Held :=
  match op with
  | .find env m force file =>
    match vmeFindMapping env m force file s.bridge with
    | (.ok _, m', _) => (file, m') :: s.held
    | (.error _, _, _) => s.held
  | .release desc _ file => s.held.erase (file, desc)
  | .close file => s.held.filter fun h => h.1 != some file
  | .create _ _ | .destroy _ => s.held

/-- What the clients promise: to release only what is theirs, and not to
destroy a window under a mapping. -/
def Op.Fair (op : Op) (s : Clients) : Prop :=
  match op with
  | .release desc _ file => (file, desc) ∈ s.held
  | .destroy windowNum => ∀ n, windowIndex? windowNum = some n →
      (s.bridge.window n).mappings = []
  | .find .. | .close _ | .create .. => True

/-- All sequences of calls by clients that keep their promises. -/
def clientSystem : System Clients Op where
  init s := (∀ n, s.bridge.window n = {}) ∧ s.held = []
  step s op s' := op.Fair s ∧ s' = ⟨op.run s.bridge, op.held s⟩

/-- The first mapping a release of `desc` meets is one of the client's own.
Only the kernel can fail this. -/
def MeetsOwn (b : Bridge) (desc : VmeMapping) (file : Option File) : Prop :=
  ∀ n, windowIndex? desc.windowNum = some n → ∀ mp,
    (b.window n).mappings.find? (Mapping.matches desc file) = some mp →
      mp.file = file

/-- Releases from the kernel meet mappings of the kernel. -/
def KernelFirst (s : Clients) (op : Op) : Prop :=
  match op with
  | .release desc _ none => MeetsOwn s.bridge desc none
  | _ => True

def mapped (b : Bridge) (n : Fin numOutWindows) (file : Option File)
    (key : Word × Word × Word × Word × Nat) : Nat :=
  (b.window n).mappings.countP fun m => m.file == file && m.desc.key == key

def outstanding (held : List Held) (n : Fin numOutWindows)
    (file : Option File) (key : Word × Word × Word × Word × Nat) : Nat :=
  held.countP fun h =>
    h.1 == file && (h.2.windowNum == (n.val : Int) && h.2.key == key)

structure Accounted (s : Clients) : Prop where
  sound : s.bridge.Sound
  number : ∀ h ∈ s.held, ∃ n : Fin numOutWindows, h.2.windowNum = n.val
  counts : ∀ n file key,
    mapped s.bridge n file key = outstanding s.held n file key

section Steps

variable {s : Clients} {desc : VmeMapping} {file : Option File}
variable {n : Fin numOutWindows}

theorem Accounted.same_lists {b' : Bridge} (h : Accounted s) (hb' : b'.Sound)
    (hlists : ∀ n, (b'.window n).mappings = (s.bridge.window n).mappings) :
    Accounted ⟨b', s.held⟩ where
  sound := hb'
  number := h.number
  counts n file key := by
    rw [← h.counts]
    unfold mapped
    rw [hlists]

theorem Accounted.exists_match (h : Accounted s) (hheld : (file, desc) ∈ s.held)
    (hnum : desc.windowNum = n.val) :
    ∃ mp ∈ (s.bridge.window n).mappings, mp.matches desc file = true := by
  have hpos : 0 < outstanding s.held n file desc.key := by
    unfold outstanding
    rw [List.countP_pos_iff]
    exact ⟨(file, desc), hheld, by simp [hnum]⟩
  rw [← h.counts] at hpos
  unfold mapped at hpos
  rw [List.countP_pos_iff] at hpos
  obtain ⟨mp, hmem, hmp⟩ := hpos
  simp only [Bool.and_eq_true, beq_iff_eq] at hmp
  exact ⟨mp, hmem, Mapping.matches_iff.mpr ⟨hmp.2, .inr hmp.1⟩⟩

theorem Accounted.found {b' : Bridge} {m' : VmeMapping} {id : Nat}
    (h : Accounted s) (hb' : b'.Sound) (hnum : m'.windowNum = n.val)
    (hlists : ∀ k, (b'.window k).mappings =
      if k = n then (s.bridge.window k).mappings ++ [⟨id, m', file⟩]
      else (s.bridge.window k).mappings) :
    Accounted ⟨b', (file, m') :: s.held⟩ where
  sound := hb'
  number held hheld := by
    rcases List.mem_cons.mp hheld with rfl | hheld
    · exact ⟨n, hnum⟩
    · exact h.number held hheld
  counts k f key := by
    have hcounts := h.counts k f key
    unfold mapped outstanding at hcounts ⊢
    rw [hlists k, List.countP_cons, ← hcounts]
    by_cases hk : k = n
    · subst hk
      rw [if_pos rfl, List.countP_append, List.countP_singleton]
      simp [hnum]
    · have hne : (m'.windowNum == (k.val : Int)) = false := by
        rw [hnum, beq_eq_false_iff_ne]
        intro heq
        exact hk (Fin.ext (Int.ofNat_inj.mp heq)).symm
      rw [if_neg hk]
      simp [hne]

theorem Accounted.find (h : Accounted s) (env : Env) (m : VmeMapping)
    (force : Bool) :
    Accounted ⟨(Op.find env m force file).run s.bridge,
      (Op.find env m force file).held s⟩ := by
  have hsound : (vmeFindMapping env m force file s.bridge).2.2.Sound :=
    vmeFindMapping_sound h.sound
  simp only [Op.run, Op.held]
  generalize hr : vmeFindMapping env m force file s.bridge = r at hsound
  obtain ⟨rc | _, m', b'⟩ := r
  · exact h.same_lists hsound (vmeFindMapping_mappings_error hr)
  · obtain ⟨n, hnum, id, hlists⟩ := vmeFindMapping_mappings_ok hr
    exact h.found hsound hnum hlists

theorem Accounted.released {b' : Bridge} {mp : Mapping} {l₁ l₂ : List Mapping}
    (h : Accounted s) (hb' : b'.Sound) (hheld : (file, desc) ∈ s.held)
    (hnum : desc.windowNum = n.val) (hkey : mp.desc.key = desc.key)
    (howner : mp.file = file)
    (hsplit : (s.bridge.window n).mappings = l₁ ++ mp :: l₂)
    (hlists : ∀ k, (b'.window k).mappings =
      if k = n then l₁ ++ l₂ else (s.bridge.window k).mappings) :
    Accounted ⟨b', s.held.erase (file, desc)⟩ where
  sound := hb'
  number held hmem := h.number held (List.mem_of_mem_erase hmem)
  counts k f key := by
    have hcounts := h.counts k f key
    unfold mapped outstanding at hcounts ⊢
    rw [List.Perm.countP_eq _ (List.perm_cons_erase hheld), List.countP_cons]
      at hcounts
    rw [hlists k]
    by_cases hk : k = n
    · subst hk
      rw [hsplit, List.countP_append, List.countP_cons] at hcounts
      rw [if_pos rfl, List.countP_append]
      simp only [hnum, hkey, howner, BEq.rfl, Bool.true_and] at hcounts
      show _ = List.countP _ (s.held.erase (file, desc))
      omega
    · have hne : (desc.windowNum == (k.val : Int)) = false := by
        rw [hnum, beq_eq_false_iff_ne]
        intro heq
        exact hk (Fin.ext (Int.ofNat_inj.mp heq)).symm
      rw [if_neg hk, hcounts]
      simp [hne]

/-- What a release does to the lists of the windows. -/
structure RemovesOne (b b' : Bridge) (n : Fin numOutWindows) (mp : Mapping)
    (desc : VmeMapping) (file : Option File) : Prop where
  first : (b.window n).mappings.find? (Mapping.matches desc file) = some mp
  key : mp.desc.key = desc.key
  lists : ∃ l₁ l₂, (b.window n).mappings = l₁ ++ mp :: l₂ ∧
    ∀ k, (b'.window k).mappings =
      if k = n then l₁ ++ l₂ else (b.window k).mappings

theorem Accounted.release (h : Accounted s) (hheld : (file, desc) ∈ s.held)
    (force : Bool) :
    (vmeReleaseMapping desc force file s.bridge).1 = .ok () ∧
      ∃ n mp, desc.windowNum = n.val ∧
        RemovesOne s.bridge (vmeReleaseMapping desc force file s.bridge).2 n mp
          desc file ∧
        (file ≠ none ∨ MeetsOwn s.bridge desc file → mp.file = file) := by
  obtain ⟨n, hnum⟩ := h.number _ hheld
  obtain ⟨hrc, mp, l₁, l₂, hl₁, hmp, hsplit, hlists⟩ :=
    vmeReleaseMapping_mappings force h.sound hnum (h.exists_match hheld hnum)
  have hfirst : (s.bridge.window n).mappings.find?
      (Mapping.matches desc file) = some mp :=
    List.find?_eq_some_iff_append.mpr
      ⟨hmp, l₁, l₂, hsplit, fun a ha => by simpa using hl₁ a ha⟩
  obtain ⟨hkey, hfile⟩ := Mapping.matches_iff.mp hmp
  refine ⟨hrc, n, mp, hnum, ⟨hfirst, hkey, l₁, l₂, hsplit, hlists⟩, ?_⟩
  rintro (hsome | hown)
  · exact hfile.resolve_left hsome
  · exact hown n (by rw [hnum, windowIndex?_cast]) mp hfirst

theorem Accounted.closed {file : File} (h : Accounted s) :
    Accounted ⟨vmeWindowRelease file s.bridge,
      s.held.filter fun h => h.1 != some file⟩ where
  sound := vmeWindowRelease_sound h.sound
  number held hmem := h.number held (List.mem_filter.mp hmem).1
  counts k f key := by
    have hcounts := h.counts k f key
    unfold mapped outstanding at hcounts ⊢
    rw [vmeWindowRelease_mappings file h.sound, List.countP_filter,
      List.countP_filter]
    by_cases hf : f = some file
    · subst hf
      rw [List.countP_eq_zero.mpr, List.countP_eq_zero.mpr]
      · intro x _
        cases hx : x.1 == some file <;> simp [bne, hx]
      · intro x _
        cases hx : x.file == some file <;> simp [bne, hx]
    · have hmaps : ∀ x : Mapping, (x.file == f && x.desc.key == key &&
          x.file != some file) = (x.file == f && x.desc.key == key) := by
        intro x
        by_cases hx : x.file = f
        · simp [hx, hf]
        · simp [hx]
      have hheld : ∀ x : Held, (x.1 == f && (x.2.windowNum == (k.val : Int) &&
          x.2.key == key) && x.1 != some file) =
          (x.1 == f && (x.2.windowNum == (k.val : Int) && x.2.key == key)) := by
        intro x
        by_cases hx : x.1 = f
        · simp [hx, hf]
        · simp [hx]
      simp only [hmaps, hheld]
      exact hcounts

theorem Accounted.step {op : Op} (h : Accounted s) (hok : KernelFirst s op)
    (hfair : op.Fair s) : Accounted ⟨op.run s.bridge, op.held s⟩ := by
  cases op with
  | create env desc =>
    exact h.same_lists (vmeCreateWindow_sound h.sound)
      (vmeCreateWindow_mappings
        (show vmeCreateWindow env desc s.bridge = (_, _, _) from rfl))
  | destroy windowNum =>
    exact h.same_lists (vmeDestroyWindow_sound h.sound)
      (vmeDestroyWindow_mappings h.sound hfair)
  | find env m force file => exact h.find env m force
  | release desc force file =>
    obtain ⟨_, n, mp, hnum, hone, howner⟩ := h.release hfair force
    obtain ⟨l₁, l₂, hsplit, hlists⟩ := hone.lists
    have hown : file ≠ none ∨ MeetsOwn s.bridge desc file := by
      cases file with
      | none => exact .inr hok
      | some f => exact .inl nofun
    exact h.released (vmeReleaseMapping_sound h.sound) hfair hnum hone.key
      (howner hown) hsplit hlists
  | close file => exact h.closed

end Steps

theorem clientSystem_invariant :
    (clientSystem.guarded KernelFirst).Invariant Accounted where
  init {s} hs := by
    obtain ⟨hfresh, hnone⟩ := hs
    refine ⟨fun n => ?_, fun h hmem => ?_, fun n file key => ?_⟩
    · rw [hfresh n]
      exact Window.sound_init n
    · rw [hnone] at hmem
      cases hmem
    · unfold mapped outstanding
      rw [hfresh n, hnone]
      rfl
  step {s s' op} h hstep := by
    obtain ⟨hok, hfair, rfl⟩ := hstep
    exact h.step hok hfair

/-- In every run of clients that keep their promises and in which releases
from the kernel meet mappings of the kernel: the release of a descriptor that
is held succeeds and takes one mapping out, the first with its key, which is
the client's own unless the client is the kernel and somebody else's comes
first; and closing a file leaves exactly the mappings of the others. -/
theorem ownership {s : Clients}
    (hs : (clientSystem.guarded KernelFirst).Reachable s) :
    (∀ desc file force, (file, desc) ∈ s.held →
      (vmeReleaseMapping desc force file s.bridge).1 = .ok () ∧
        ∃ n mp, desc.windowNum = n.val ∧
          RemovesOne s.bridge (vmeReleaseMapping desc force file s.bridge).2 n
            mp desc file ∧
          (file ≠ none ∨ MeetsOwn s.bridge desc file → mp.file = file)) ∧
      ∀ file n, ((vmeWindowRelease file s.bridge).window n).mappings =
        (s.bridge.window n).mappings.filter fun m => m.file != some file := by
  have h := clientSystem_invariant.reachable hs
  constructor
  · intro desc file force hheld
    exact h.release hheld force
  · intro file n
    exact vmeWindowRelease_mappings file h.sound n

/-- One megabyte of A32 space. -/
def sharedRange : VmeMapping :=
  { am := .a32UserDataSct, dataWidth := .d32, vmeAddrl := 0x100000,
    sizel := 0x100000 }

/-- The descriptor a client that maps it in window 0 is left with. -/
def sharedDesc : VmeMapping :=
  { sharedRange with kernelVa := 2 ^ 31, pciAddrl := 0x80000000 }

def sharedCalls : List Op :=
  [.find roomyEnv sharedRange true (some 1),
    .find roomyEnv sharedRange true none, .release sharedDesc false none]

/-- The state after a list of calls. -/
def Clients.after (s : Clients) (ops : List Op) : Clients :=
  ops.foldl (fun s op => ⟨op.run s.bridge, op.held s⟩) s

theorem Clients.reachable_after {s : Clients} (h : clientSystem.Reachable s)
    (op : Op) (hfair : op.Fair s) :
    clientSystem.Reachable (s.after [op]) :=
  h.step ⟨hfair, rfl⟩

theorem ownership_sharedRange :
    (vmeReleaseMapping sharedDesc true (some 1) (Clients.after {}
      [.find roomyEnv sharedRange true (some 1)]).bridge).1 = .ok () := by
  have hfresh : (clientSystem.guarded KernelFirst).Reachable {} :=
    .init ⟨fun _ => rfl, rfl⟩
  have hfile : (clientSystem.guarded KernelFirst).Reachable
      (Clients.after {} [.find roomyEnv sharedRange true (some 1)]) :=
    hfresh.step (e := .find roomyEnv sharedRange true (some 1))
      ⟨trivial, trivial, rfl⟩
  exact ((ownership hfile).1 sharedDesc (some 1) true
    (List.mem_cons_self ..)).1

/-- The kernel's release takes the file's mapping, and the file can no longer
release what it was given. -/
theorem not_ownership :
    ¬ ∀ s, clientSystem.Reachable s → ∀ desc file force,
      (file, desc) ∈ s.held →
        (vmeReleaseMapping desc force file s.bridge).1 = .ok () := by
  intro hall
  have hfresh : clientSystem.Reachable {} := .init ⟨fun _ => rfl, rfl⟩
  have hfile := Clients.reachable_after hfresh
    (.find roomyEnv sharedRange true (some 1)) trivial
  have hkernel := Clients.reachable_after hfile
    (.find roomyEnv sharedRange true none) trivial
  have hreleased : clientSystem.Reachable (Clients.after {} sharedCalls) :=
    Clients.reachable_after hkernel (.release sharedDesc false none)
      (List.mem_cons_self ..)
  have h := hall _ hreleased sharedDesc (some 1) false (List.mem_cons_self ..)
  cases h

end Coht.Vmebridge
