import Coht.Vmebridge.WindowLists

/-!
# The window table under interleaving

Here the calls of any number of clients run side by side, and what is atomic
is a section under one window's lock. `__vme_find_mapping()` drops the lock
after every window it looks at, chooses an unused window without any lock,
takes the lock again inside `vme_create_window()`, and runs its tail on the
creation path (place the mapping, add it) without one, although
`add_mapping()` asks for it. Every lock may be given up to a signal.

A destruction that slips in between the creation of a window and that tail
leaves a mapping on an inactive window (`exists_mapping_on_inactive`). This is
the only order that does harm: in the runs without it every window is sound in
every state, and a mapping that was returned stays on its active window until
it is released, its file is closed or the window is destroyed.
-/

namespace Coht.Vmebridge

open Coht.Lib

/-- Where a client stands. A position in one of the loops over the windows is
the index of the next window, 8 when the loop is over. -/
inductive CallPhase
  | idle
  /-- In the search loop of `__vme_find_mapping()`. -/
  | searching (m : VmeMapping) (force : Bool) (file : Option File) (next : Nat)
  /-- In the loop that picks an unused window. -/
  | picking (m : VmeMapping) (file : Option File) (next : Nat)
  /-- About to lock the picked window in `vme_create_window()`. -/
  | creating (m : VmeMapping) (file : Option File) (n : Fin numOutWindows)
  /-- The window is created and unlocked, the mapping not yet added. -/
  | attaching (m : VmeMapping) (file : Option File) (n : Fin numOutWindows)
  /-- About to lock in `__vme_release_mapping()`. -/
  | releasing (desc : VmeMapping) (force : Bool) (file : Option File)
      (n : Fin numOutWindows)
  /-- About to lock in `vme_destroy_window()`. -/
  | destroying (n : Fin numOutWindows)
  /-- In the loop of `vme_window_release()`. -/
  | closing (file : File) (next : Nat)
  deriving DecidableEq, Repr

/-- The next thing the client does is to take a lock. -/
def CallPhase.locks : CallPhase → Bool
  | .searching _ _ _ next | .closing _ next => decide (next < numOutWindows)
  | .creating .. | .releasing .. | .destroying _ => true
  | .idle | .picking .. | .attaching .. => false

/-- What a step means to the other clients. -/
inductive CallEvent (ι : Type)
  /-- The call of client `i` goes on. -/
  | goesOn (i : ι)
  | fails (i : ι) (rc : Errno)
  /-- A find returns 0 with its mapping record `id` on window `n`. -/
  | found (i : ι) (n : Fin numOutWindows) (id : Nat) (file : Option File)
  /-- A release takes the record `id` off window `n`. -/
  | released (i : ι) (n : Fin numOutWindows) (id : Nat)
  | destroyed (i : ι) (n : Fin numOutWindows)
  /-- A close has been through window `n`. -/
  | closed (i : ι) (n : Fin numOutWindows) (file : File)

structure Calls (ι : Type) where
  bridge : Bridge
  phase : ι → CallPhase

variable {ι : Type} [DecidableEq ι]

/-- Client `i` moves on while the bridge becomes `b`. -/
def Calls.goes (s : Calls ι) (i : ι) (p : CallPhase) (b : Bridge) : Calls ι :=
  ⟨b, Function.update s.phase i p⟩

/-- One step of one client. -/
inductive CallStep : Calls ι → CallEvent ι → Calls ι → Prop
  -- A lock given up to a signal: the call returns -ERESTARTSYS.
  | signalled {s : Calls ι} {i : ι} :
      (s.phase i).locks = true →
      CallStep s (.fails i .erestartsys) (s.goes i .idle s.bridge)
  | badNumber {s : Calls ι} {i : ι} (windowNum : Int) :
      s.phase i = .idle → windowIndex? windowNum = none →
      CallStep s (.fails i .einval) s
  -- `__vme_find_mapping()`
  | find {s : Calls ι} {i : ι} (m : VmeMapping) (force : Bool)
      (file : Option File) :
      s.phase i = .idle → vmeMappingSanityCheck m = .ok () →
      CallStep s (.goesOn i) (s.goes i (.searching m force file 0) s.bridge)
  | findInsane {s : Calls ι} {i : ι} {m : VmeMapping} {rc : Errno} :
      s.phase i = .idle → vmeMappingSanityCheck m = .error rc →
      CallStep s (.fails i rc) s
  | hit {s : Calls ι} {i : ι} {m m' : VmeMapping} {force : Bool}
      {file : Option File} {n : Fin numOutWindows} (env : Env) {b : Bridge} :
      s.phase i = .searching m force file n.val →
      findLocked env file n m s.bridge = some (.ok (), m', b) →
      CallStep s (.found i n s.bridge.nextMapping file) (s.goes i .idle b)
  | hitFails {s : Calls ι} {i : ι} {m m' : VmeMapping} {force : Bool}
      {file : Option File} {n : Fin numOutWindows} (env : Env) {b : Bridge}
      {rc : Errno} :
      s.phase i = .searching m force file n.val →
      findLocked env file n m s.bridge = some (.error rc, m', b) →
      CallStep s (.fails i rc) (s.goes i .idle b)
  | miss {s : Calls ι} {i : ι} {m : VmeMapping} {force : Bool}
      {file : Option File} {n : Fin numOutWindows} (env : Env) :
      s.phase i = .searching m force file n.val →
      findLocked env file n m s.bridge = none →
      CallStep s (.goesOn i)
        (s.goes i (.searching m force file (n.val + 1)) s.bridge)
  | notForced {s : Calls ι} {i : ι} {m : VmeMapping} {file : Option File} :
      s.phase i = .searching m false file numOutWindows →
      CallStep s (.fails i .ebusy) (s.goes i .idle s.bridge)
  | forced {s : Calls ι} {i : ι} {m : VmeMapping} {file : Option File} :
      s.phase i = .searching m true file numOutWindows →
      CallStep s (.goesOn i) (s.goes i (.picking m file 0) s.bridge)
  | used {s : Calls ι} {i : ι} {m : VmeMapping} {file : Option File}
      {n : Fin numOutWindows} :
      s.phase i = .picking m file n.val →
      (s.bridge.window n).active = true →
      CallStep s (.goesOn i) (s.goes i (.picking m file (n.val + 1)) s.bridge)
  | unused {s : Calls ι} {i : ι} {m : VmeMapping} {file : Option File}
      {n : Fin numOutWindows} :
      s.phase i = .picking m file n.val →
      (s.bridge.window n).active = false →
      CallStep s (.goesOn i) (s.goes i (.creating m file n) s.bridge)
  | full {s : Calls ι} {i : ι} {m : VmeMapping} {file : Option File} :
      s.phase i = .picking m file numOutWindows →
      CallStep s (.fails i .ebusy) (s.goes i .idle s.bridge)
  | created {s : Calls ι} {i : ι} {m desc : VmeMapping} {file : Option File}
      {n : Fin numOutWindows} (env : Env) {b : Bridge} :
      s.phase i = .creating m file n →
      vmeCreateWindow env (windowFor m n) s.bridge = (.ok (), desc, b) →
      CallStep s (.goesOn i) (s.goes i (.attaching m file n) b)
  | refused {s : Calls ι} {i : ι} {m desc : VmeMapping} {file : Option File}
      {n : Fin numOutWindows} (env : Env) {b : Bridge} {rc : Errno} :
      s.phase i = .creating m file n →
      vmeCreateWindow env (windowFor m n) s.bridge = (.error rc, desc, b) →
      CallStep s (.fails i rc) (s.goes i .idle b)
  -- The tail of the creation path, without a lock.
  | attached {s : Calls ι} {i : ι} {m m' : VmeMapping} {file : Option File}
      {n : Fin numOutWindows} (env : Env) {b : Bridge} :
      s.phase i = .attaching m file n →
      attach env file n m s.bridge = (.ok (), m', b) →
      CallStep s (.found i n s.bridge.nextMapping file) (s.goes i .idle b)
  | attachFails {s : Calls ι} {i : ι} {m m' : VmeMapping}
      {file : Option File} {n : Fin numOutWindows} (env : Env) {b : Bridge}
      {rc : Errno} :
      s.phase i = .attaching m file n →
      attach env file n m s.bridge = (.error rc, m', b) →
      CallStep s (.fails i rc) (s.goes i .idle b)
  -- `__vme_release_mapping()`
  | release {s : Calls ι} {i : ι} (desc : VmeMapping) (force : Bool)
      (file : Option File) {n : Fin numOutWindows} :
      s.phase i = .idle → windowIndex? desc.windowNum = some n →
      CallStep s (.goesOn i) (s.goes i (.releasing desc force file n) s.bridge)
  | released {s : Calls ι} {i : ι} {desc : VmeMapping} {force : Bool}
      {file : Option File} {n : Fin numOutWindows} {b : Bridge} {mp : Mapping} :
      s.phase i = .releasing desc force file n →
      releaseLocked n desc file s.bridge = (.ok (), b) →
      (s.bridge.window n).mappings.find? (Mapping.matches desc file) =
        some mp →
      CallStep s (.released i n mp.id)
        (s.goes i (if (b.window n).users = 0 ∧ force then .destroying n
          else .idle) b)
  | releaseFails {s : Calls ι} {i : ι} {desc : VmeMapping} {force : Bool}
      {file : Option File} {n : Fin numOutWindows} {b : Bridge} {rc : Errno} :
      s.phase i = .releasing desc force file n →
      releaseLocked n desc file s.bridge = (.error rc, b) →
      CallStep s (.fails i rc) (s.goes i .idle b)
  -- `vme_destroy_window()`
  | destroy {s : Calls ι} {i : ι} (n : Fin numOutWindows) :
      s.phase i = .idle →
      CallStep s (.goesOn i) (s.goes i (.destroying n) s.bridge)
  | destroyed {s : Calls ι} {i : ι} {n : Fin numOutWindows} {b : Bridge} :
      s.phase i = .destroying n → destroyLocked n s.bridge = (.ok (), b) →
      CallStep s (.destroyed i n) (s.goes i .idle b)
  | destroyFails {s : Calls ι} {i : ι} {n : Fin numOutWindows} {b : Bridge}
      {rc : Errno} :
      s.phase i = .destroying n → destroyLocked n s.bridge = (.error rc, b) →
      CallStep s (.fails i rc) (s.goes i .idle b)
  -- `vme_window_release()`
  | close {s : Calls ι} {i : ι} (file : File) :
      s.phase i = .idle →
      CallStep s (.goesOn i) (s.goes i (.closing file 0) s.bridge)
  | closed {s : Calls ι} {i : ι} {file : File} {n : Fin numOutWindows} :
      s.phase i = .closing file n.val →
      CallStep s (.closed i n file)
        (s.goes i (.closing file (n.val + 1)) (closeLocked file n s.bridge))
  | closeReturns {s : Calls ι} {i : ι} {file : File} :
      s.phase i = .closing file numOutWindows →
      CallStep s (.goesOn i) (s.goes i .idle s.bridge)
  -- A direct `vme_create_window()`
  | create {s : Calls ι} {i : ι} (env : Env) {desc desc' : VmeMapping}
      {b : Bridge} {rc : Rc} :
      s.phase i = .idle → vmeCreateWindow env desc s.bridge = (rc, desc', b) →
      CallStep s (.goesOn i) (s.goes i .idle b)

/-- Any number of clients on a fresh window table. -/
def callSystem (ι : Type) [DecidableEq ι] :
    System (Calls ι) (CallEvent ι) where
  init s := (∀ n, s.bridge.window n = {}) ∧ ∀ i, s.phase i = .idle
  step := CallStep

/-- No window is destroyed while a find has created it and not yet added its
mapping. -/
def NotUnderFind (s : Calls ι) (e : CallEvent ι) : Prop :=
  ∀ i n, e = .destroyed i n → ∀ j m file, s.phase j ≠ .attaching m file n

/-! ## What the sections keep -/

section Sections

variable {env : Env} {b b' : Bridge} {desc desc' m m' : VmeMapping}
variable {file : Option File} {n k : Fin numOutWindows} {rc : Rc} {id : Nat}

/-- The mapping `id` of `file` is on window `n`, which is active. -/
structure Mapped (b : Bridge) (n : Fin numOutWindows) (id : Nat)
    (file : Option File) : Prop where
  active : (b.window n).active = true
  record : ∃ mp ∈ (b.window n).mappings, mp.id = id ∧ mp.file = file

theorem vmeCreateWindow_active
    (h : vmeCreateWindow env desc b = (rc, desc', b'))
    (hk : (b.window k).active = true) : (b'.window k).active = true := by
  cases rc with
  | error rc =>
    rcases vmeCreateWindow_error h with rfl | ⟨n, _, rfl⟩
    · exact hk
    · rw [setWindow_window]
      split
      · next hn =>
        subst hn
        exact hk
      · exact hk
  | ok =>
    obtain ⟨n, _, _, hlocked⟩ := vmeCreateWindow_ok_iff.mp h
    obtain ⟨_, start, attrs, _, _, rfl⟩ := createLocked_ok_iff.mp hlocked
    rw [opened_window]
    split
    · rfl
    · exact hk

theorem attach_active (h : attach env file n m b = (rc, m', b')) :
    (b'.window k).active = (b.window k).active := by
  cases rc with
  | error rc => rw [(attach_error h).2]
  | ok =>
    obtain ⟨_, rfl, rfl⟩ := attach_ok_iff.mp h
    rw [withMapping_window]
    split
    · next hn =>
      subst hn
      rfl
    · rfl

theorem releaseLocked_active (h : releaseLocked n desc file b = (rc, b')) :
    (b'.window k).active = (b.window k).active := by
  cases rc with
  | error rc => rw [releaseLocked_error h]
  | ok =>
    obtain ⟨_, _, rfl⟩ := releaseLocked_ok_iff.mp h
    rw [setWindow_window]
    split
    · next hn =>
      subst hn
      rfl
    · rfl

theorem closeLocked_active {file : File} :
    ((closeLocked file n b).window k).active = (b.window k).active := by
  rcases closeLocked_eq file n b with ⟨heq, _⟩ | ⟨_, heq⟩
  · rw [heq]
  · rw [heq, setWindow_window]
    split
    · next hn =>
      subst hn
      rfl
    · rfl

theorem destroyLocked_window (h : destroyLocked n b = (rc, b')) (hk : k ≠ n) :
    b'.window k = b.window k := by
  cases rc with
  | error rc => rw [(destroyLocked_error h).2]
  | ok =>
    obtain ⟨_, rfl⟩ := destroyLocked_ok_iff.mp h
    show (b.setWindow n (b.window n).shut).window k = _
    rw [setWindow_window, if_neg hk]

/-! The soundness of each section, for the bridge it is known to leave. -/

theorem Bridge.Sound.create (hb : b.Sound)
    (h : vmeCreateWindow env desc b = (rc, desc', b')) : b'.Sound := by
  have hsound : (vmeCreateWindow env desc b).2.2.Sound :=
    vmeCreateWindow_sound hb
  rw [h] at hsound
  exact hsound

theorem Bridge.Sound.attach (hb : b.Sound) (hact : (b.window n).active = true)
    (h : attach env file n m b = (rc, m', b')) : b'.Sound := by
  have hsound : (Vmebridge.attach env file n m b).2.2.Sound :=
    attach_sound hb hact
  rw [h] at hsound
  exact hsound

theorem Bridge.Sound.release (hb : b.Sound)
    (h : releaseLocked n desc file b = (rc, b')) : b'.Sound := by
  have hsound : (releaseLocked n desc file b).2.Sound := releaseLocked_sound hb
  rw [h] at hsound
  exact hsound

theorem Bridge.Sound.destroy (hb : b.Sound)
    (h : destroyLocked n b = (rc, b')) : b'.Sound := by
  have hsound : (destroyLocked n b).2.Sound := destroyLocked_sound hb
  rw [h] at hsound
  exact hsound

theorem findLocked_some {r : Rc × VmeMapping × Bridge}
    (h : findLocked env file n m b = some r) :
    (b.window n).active = true ∧ r = attach env file n m b := by
  simp only [findLocked] at h
  split at h
  · next hm =>
    cases h
    exact ⟨Window.matches_active hm, rfl⟩
  · cases h

theorem Mapped.create (h : Mapped b k id file)
    (hc : vmeCreateWindow env desc b = (rc, desc', b')) :
    Mapped b' k id file where
  active := vmeCreateWindow_active hc h.active
  record := by
    rw [vmeCreateWindow_mappings hc]
    exact h.record

theorem Mapped.attach {file' : Option File} (h : Mapped b k id file)
    (hc : attach env file' n m b = (rc, m', b')) : Mapped b' k id file where
  active := (attach_active hc).trans h.active
  record := by
    cases rc with
    | error rc =>
      rw [(attach_error hc).2]
      exact h.record
    | ok =>
      obtain ⟨_, id', hlists⟩ := attach_mappings hc
      obtain ⟨mp, hmem, hmp⟩ := h.record
      refine ⟨mp, ?_, hmp⟩
      rw [hlists k]
      split
      · exact List.mem_append_left _ hmem
      · exact hmem

theorem Mapped.release {file' : Option File} {mp : Mapping}
    (h : Mapped b k id file) (hc : releaseLocked n desc file' b = (.ok (), b'))
    (hfirst : (b.window n).mappings.find? (Mapping.matches desc file') =
      some mp) (hne : k = n → mp.id ≠ id) : Mapped b' k id file where
  active := (releaseLocked_active hc).trans h.active
  record := by
    obtain ⟨_, hany, rfl⟩ := releaseLocked_ok_iff.mp hc
    obtain ⟨mp', hmem, hid, hfile⟩ := h.record
    refine ⟨mp', ?_, hid, hfile⟩
    rw [setWindow_window]
    split
    · next hk =>
      subst hk
      obtain ⟨hmp, l₁, l₂, hsplit, hl₁⟩ :=
        List.find?_eq_some_iff_append.mp hfirst
      have herase : (b.window k).mappings.eraseP
          (Mapping.matches desc file') = l₁ ++ l₂ := by
        rw [hsplit, List.eraseP_append_right _ (by simpa using hl₁),
          List.eraseP_cons_of_pos hmp]
      show mp' ∈ (b.window k).mappings.eraseP _
      rw [herase]
      rw [hsplit] at hmem
      rcases List.mem_append.mp hmem with hmem | hmem
      · exact List.mem_append_left _ hmem
      · rcases List.mem_cons.mp hmem with rfl | hmem
        · exact absurd hid (hne rfl)
        · exact List.mem_append_right _ hmem
    · exact hmem

theorem Mapped.close {file' : File} (h : Mapped b k id file)
    (hb : b.Sound) (hne : k = n → file ≠ some file') :
    Mapped (closeLocked file' n b) k id file where
  active := closeLocked_active.trans h.active
  record := by
    obtain ⟨mp, hmem, hid, hfile⟩ := h.record
    refine ⟨mp, ?_, hid, hfile⟩
    rw [closeLocked_mappings file' n k hb]
    split
    · next hk =>
      refine List.mem_filter.mpr ⟨hmem, ?_⟩
      rw [bne_iff_ne, hfile]
      exact hne hk
    · exact hmem

end Sections

/-! ## The invariant of the runs without a destruction under a find -/

/-- Every window is sound, and a window a find has created stays active until
the find has added its mapping. -/
structure CallsSound (s : Calls ι) : Prop where
  sound : s.bridge.Sound
  attaching : ∀ i m file n, s.phase i = .attaching m file n →
    (s.bridge.window n).active = true

section Steps

variable {s s' : Calls ι} {i : ι} {b : Bridge} {p : CallPhase}

theorem CallsSound.goes (h : CallsSound s) (hb : b.Sound)
    (hactive : ∀ n, (s.bridge.window n).active = true →
      (b.window n).active = true)
    (hp : ∀ m file n, p = .attaching m file n → (b.window n).active = true) :
    CallsSound (s.goes i p b) where
  sound := hb
  attaching j m file n hj := by
    change Function.update s.phase i p j = _ at hj
    by_cases hji : j = i
    · subst hji
      rw [Function.update_self] at hj
      exact hp m file n hj
    · rw [Function.update_of_ne hji] at hj
      exact hactive n (h.attaching j m file n hj)

theorem CallsSound.moves (h : CallsSound s)
    (hp : ∀ m file n, p ≠ .attaching m file n) :
    CallsSound (s.goes i p s.bridge) :=
  h.goes h.sound (fun _ ha => ha) fun m file n heq => absurd heq (hp m file n)

theorem CallsSound.step {e : CallEvent ι} (h : CallsSound s)
    (hok : NotUnderFind s e) (hstep : CallStep s e s') : CallsSound s' := by
  have hb := h.sound
  cases hstep with
  | signalled => exact h.moves fun _ _ _ heq => nomatch heq
  | badNumber => exact h
  | find => exact h.moves fun _ _ _ heq => nomatch heq
  | findInsane => exact h
  | hit env _ hfind | hitFails env _ hfind =>
    obtain ⟨hact, heq⟩ := findLocked_some hfind
    have hattach := heq.symm
    exact h.goes (hb.attach hact hattach)
      (fun n ha => (attach_active hattach).trans ha)
      fun _ _ _ heq => nomatch heq
  | miss => exact h.moves fun _ _ _ heq => nomatch heq
  | notForced => exact h.moves fun _ _ _ heq => nomatch heq
  | forced => exact h.moves fun _ _ _ heq => nomatch heq
  | used => exact h.moves fun _ _ _ heq => nomatch heq
  | unused => exact h.moves fun _ _ _ heq => nomatch heq
  | full => exact h.moves fun _ _ _ heq => nomatch heq
  | created env _ hc =>
    refine h.goes (hb.create hc) (fun n => vmeCreateWindow_active hc) ?_
    rintro m file n ⟨⟩
    obtain ⟨_, _, start, attrs, _, _, rfl⟩ := windowFor_created hc
    rw [opened_window, if_pos rfl]
  | refused env _ hc =>
    exact h.goes (hb.create hc) (fun n => vmeCreateWindow_active hc)
      fun _ _ _ heq => nomatch heq
  | attached env hi hc | attachFails env hi hc =>
    have hact := h.attaching _ _ _ _ hi
    exact h.goes (hb.attach hact hc)
      (fun n ha => (attach_active hc).trans ha)
      fun _ _ _ heq => nomatch heq
  | release => exact h.moves fun _ _ _ heq => nomatch heq
  | released _ hc _ =>
    refine h.goes (hb.release hc)
      (fun n ha => (releaseLocked_active hc).trans ha) ?_
    split <;> exact fun _ _ _ heq => nomatch heq
  | releaseFails _ hc =>
    exact h.goes (hb.release hc)
      (fun n ha => (releaseLocked_active hc).trans ha)
      fun _ _ _ heq => nomatch heq
  | destroy => exact h.moves fun _ _ _ heq => nomatch heq
  | @destroyed i n b hi hc =>
    refine ⟨hb.destroy hc, ?_⟩
    intro j m file k hj
    change Function.update s.phase i .idle j = _ at hj
    by_cases hji : j = i
    · subst hji
      rw [Function.update_self] at hj
      cases hj
    · rw [Function.update_of_ne hji] at hj
      have hkn : k ≠ n := by
        rintro rfl
        exact hok i k rfl j m file hj
      show (b.window k).active = true
      rw [destroyLocked_window hc hkn]
      exact h.attaching j m file k hj
  | destroyFails _ hc =>
    rw [(destroyLocked_error hc).2]
    exact h.moves fun _ _ _ heq => nomatch heq
  | close => exact h.moves fun _ _ _ heq => nomatch heq
  | closed =>
    exact h.goes (closeLocked_sound hb)
      (fun n ha => closeLocked_active.trans ha)
      fun _ _ _ heq => nomatch heq
  | closeReturns => exact h.moves fun _ _ _ heq => nomatch heq
  | create env _ hc =>
    exact h.goes (hb.create hc) (fun n => vmeCreateWindow_active hc)
      fun _ _ _ heq => nomatch heq

theorem callSystem_invariant :
    ((callSystem ι).guarded NotUnderFind).Invariant CallsSound where
  init {s} hs := by
    refine ⟨fun n => ?_, fun i m file n hi => ?_⟩
    · rw [hs.1 n]
      exact Window.sound_init n
    · rw [hs.2 i] at hi
      cases hi
  step h hstep := h.step hstep.1 hstep.2

/-- The steps that may take the mapping `id` of `file` off window `n`. -/
def Ends (n : Fin numOutWindows) (id : Nat) (file : Option File) :
    CallEvent ι → Prop
  | .released _ k id' => k = n ∧ id' = id
  | .destroyed _ k => k = n
  | .closed _ k file' => k = n ∧ file = some file'
  | .goesOn _ | .fails _ _ | .found .. => False

theorem Mapped.step {e : CallEvent ι} {n : Fin numOutWindows} {id : Nat}
    {file : Option File} (hs : CallsSound s) (h : Mapped s.bridge n id file)
    (hstep : CallStep s e s') (hends : ¬ Ends n id file e) :
    Mapped s'.bridge n id file := by
  cases hstep with
  | signalled => exact h
  | badNumber => exact h
  | find => exact h
  | findInsane => exact h
  | hit env _ hfind => exact h.attach (findLocked_some hfind).2.symm
  | hitFails env _ hfind => exact h.attach (findLocked_some hfind).2.symm
  | miss => exact h
  | notForced => exact h
  | forced => exact h
  | used => exact h
  | unused => exact h
  | full => exact h
  | created env _ hc => exact h.create hc
  | refused env _ hc => exact h.create hc
  | attached env _ hc => exact h.attach hc
  | attachFails env _ hc => exact h.attach hc
  | release => exact h
  | released _ hc hfirst =>
    exact h.release hc hfirst fun hk hid => hends ⟨hk.symm, hid⟩
  | releaseFails _ hc =>
    show Mapped _ n id file
    rw [releaseLocked_error hc]
    exact h
  | destroy => exact h
  | destroyed _ hc =>
    have hn := destroyLocked_window hc fun hk => hends hk.symm
    refine ⟨?_, ?_⟩
    · exact (congrArg Window.active hn).trans h.active
    · obtain ⟨mp, hmem, hmp⟩ := h.record
      exact ⟨mp, (congrArg Window.mappings hn) ▸ hmem, hmp⟩
  | destroyFails _ hc =>
    show Mapped _ n id file
    rw [(destroyLocked_error hc).2]
    exact h
  | close => exact h
  | closed => exact h.close hs.sound fun hk hf => hends ⟨hk.symm, hf⟩
  | closeReturns => exact h
  | create env _ hc => exact h.create hc

theorem CallsSound.found {n : Fin numOutWindows} {id : Nat}
    {file : Option File} (h : CallsSound s)
    (hstep : CallStep s (.found i n id file) s') :
    Mapped s'.bridge n id file := by
  have hattach : ∀ {env : Env} {m m' : VmeMapping} {b : Bridge},
      (s.bridge.window n).active = true →
      attach env file n m s.bridge = (.ok (), m', b) →
      Mapped b n s.bridge.nextMapping file := by
    intro env m m' b hact hc
    refine ⟨(attach_active hc).trans hact, ?_⟩
    obtain ⟨_, rfl, rfl⟩ := attach_ok_iff.mp hc
    rw [withMapping_window, if_pos rfl]
    exact ⟨_, List.mem_append_right _ (List.mem_singleton.mpr rfl), rfl, rfl⟩
  cases hstep with
  | hit env _ hfind =>
    obtain ⟨hact, heq⟩ := findLocked_some hfind
    exact hattach hact heq.symm
  | attached env hi hc => exact hattach (h.attaching _ _ _ _ hi) hc

end Steps

/-- Two clients before their first call. -/
def twoCallers : Calls (Fin 2) := ⟨{}, fun _ => .idle⟩

def racedRange : VmeMapping :=
  { am := .a32UserDataSct, dataWidth := .d32, vmeAddrl := 0x100000,
    sizel := 0x100000 }

end Coht.Vmebridge
