import Coht.Ctr.SlotSteps

/-!
# What the update lock protects

`CtrDrvrIoctl()` tests the lock of the module the caller has selected. A
command that works on another module, because its argument or the object it
names says so, is tested against the wrong lock, and a close is not tested. The
lock of a module protects it from everything that is `Aside`: from the commands
of those who have selected it, and from the others where they do not get at the
module, or would find nothing to change there.
-/

namespace Coht.Ctr

open Coht.Lib

namespace ModuleContext

variable (mcon : ModuleContext)

/-- The client is connected to the slot, as `DisConnectOne()` finds it. -/
def HoldsSlot (c i : Nat) : Prop :=
  (mcon.eqpClass i = .CTIM ∨ mcon.eqpClass i = .PTIM) ∧
    clientMask c &&& mcon.clients i ≠ 0

def HoldsSource (c : Nat) : Prop :=
  ∃ i < CtrDrvrInterruptSOURCES, clientMask c &&& mcon.hardClients i ≠ 0

/-- The client is connected to something that `DisConnect()` of the object
finds. -/
def HoldsObject (conx : CtrDrvrConnection) (c : Nat) : Prop :=
  if conx.eqpClass ≠ .HARD then
    ∃ i ∈ mcon.matching conx.eqpNum conx.eqpClass, mcon.HoldsSlot c i
  else mcon.HoldsSource c

/-- The client is connected to something that `DisConnectAll()` finds. -/
def HoldsAny (c : Nat) : Prop :=
  (∃ i ∈ mcon.occupied, mcon.HoldsSlot c i) ∨ mcon.HoldsSource c

end ModuleContext

/-- `Connect()` finds what to connect to, on this module. -/
def TakesConnection (wa : WorkingArea) (conx : CtrDrvrConnection) (c m : Nat) : Prop :=
  let mcon := wa.moduleContexts m
  (conx.eqpClass = .PTIM ∧ wa.getPtimModule conx.eqpNum = some m ∧
    mcon.matching conx.eqpNum .PTIM ≠ []) ∨
  (conx.eqpClass = .CTIM ∧ connectModule wa conx c = m ∧
    (mcon.matching conx.eqpNum .CTIM ≠ [] ∨
      (ModuleContext.ctimFrame wa.ctim conx.eqpNum).header ≠ 0 ∧
        mcon.emptySlot ≠ none)) ∨
  (conx.eqpClass ≠ .PTIM ∧ conx.eqpClass ≠ .CTIM ∧ connectModule wa conx c = m ∧
    ModuleContext.sourcesOf conx.eqpNum ≠ [])

/-- The object can be made, and gets slots. -/
def TakesPtim (wa : WorkingArea) (ptim : CtrDrvrPtimBinding) : Prop :=
  lookup (·.eqpNum) ptim.eqpNum wa.ptim = none ∧
    wa.ptim.length < CtrDrvrPtimOBJECTS ∧ ptim.moduleIndex < wa.modules ∧
    ptim.size ≠ 0 ∧
    ptim.size ≤ ((wa.moduleContexts ptim.moduleIndex).ptimSlots ptim.size).count

/-- There are slots of the object, and no client is connected to one. -/
def GivesPtim (wa : WorkingArea) (ptim : CtrDrvrPtimBinding) : Prop :=
  let mcon := wa.moduleContexts ptim.moduleIndex
  let slots := mcon.matching ptim.eqpNum .PTIM
  ptim.moduleIndex < wa.modules ∧ slots ≠ [] ∧ ∀ i ∈ slots, mcon.clients i = 0

/-- A command of a client that has selected another module does nothing to
module `m`. -/
def Ioctl.Spares (m : Nat) (wa : WorkingArea) (c : Nat) : Ioctl → Prop
  | .connect conx => ¬ TakesConnection wa conx c m
  | .disconnect conx =>
    if conx.eqpNum = 0 then ¬ (wa.moduleContexts m).HoldsAny c
    else conx.module = m + 1 → ¬ (wa.moduleContexts m).HoldsObject conx c
  | .createPtim ptim => ptim.moduleIndex = m → ¬ TakesPtim wa ptim
  | .destroyPtim ptim => ptim.moduleIndex = m → ¬ GivesPtim wa ptim
  | _ => True

/-- The step does not open the lock of module `m`, and is none that gets around
it. -/
def Aside (m : Nat) (wa : WorkingArea) : Event → Prop
  | .ioctl c cmd _ =>
    if wa.selected c = m then cmd.opens = false else cmd.Spares m wa c
  | .closes c _ => ¬ (wa.moduleContexts m).HoldsAny c
  | _ => True

section

variable (mcon : ModuleContext) (wa : WorkingArea) (c m i : Nat)

instance : Decidable (mcon.HoldsSlot c i) :=
  inferInstanceAs (Decidable (_ ∧ _))

instance : Decidable (mcon.HoldsSource c) :=
  inferInstanceAs (Decidable (∃ i < CtrDrvrInterruptSOURCES, _ ≠ _))

instance (conx : CtrDrvrConnection) : Decidable (mcon.HoldsObject conx c) :=
  inferInstanceAs (Decidable (if conx.eqpClass ≠ .HARD then
    ∃ i ∈ mcon.matching conx.eqpNum conx.eqpClass, mcon.HoldsSlot c i
  else mcon.HoldsSource c))

instance : Decidable (mcon.HoldsAny c) :=
  inferInstanceAs (Decidable (_ ∨ _))

instance (conx : CtrDrvrConnection) : Decidable (TakesConnection wa conx c m) :=
  inferInstanceAs (Decidable (_ ∨ _))

instance (ptim : CtrDrvrPtimBinding) : Decidable (TakesPtim wa ptim) :=
  inferInstanceAs (Decidable (_ ∧ _))

instance (ptim : CtrDrvrPtimBinding) : Decidable (GivesPtim wa ptim) :=
  inferInstanceAs (Decidable (_ ∧ _))

instance (cmd : Ioctl) : Decidable (cmd.Spares m wa c) :=
  match cmd with
  | .connect _ => inferInstanceAs (Decidable (¬ _))
  | .disconnect conx => inferInstanceAs (Decidable (if conx.eqpNum = 0 then
      ¬ (wa.moduleContexts m).HoldsAny c
    else conx.module = m + 1 → ¬ (wa.moduleContexts m).HoldsObject conx c))
  | .createPtim _ | .destroyPtim _ => inferInstanceAs (Decidable (_ → _))
  | .setTimeout _ | .setQueueFlag _ | .getQueueOverflow | .setModule _ | .lock
  | .unlock _ | .getUtc | .setAction _ | .createCtim _ | .destroyCtim _
  | .changeCtimFrame _ | .control _ | .inquiry => .isTrue trivial

instance (e : Event) : Decidable (Aside m wa e) :=
  match e with
  | .ioctl c cmd _ => inferInstanceAs (Decidable
      (if wa.selected c = m then cmd.opens = false else cmd.Spares m wa c))
  | .closes .. => inferInstanceAs (Decidable (¬ _))
  | .opens _ | .writes .. | .reads .. | .interrupts .. => .isTrue trivial

end

/-- Of the registers nothing but the time has been latched, and the tables and
the command word are as before. -/
structure Untouched (mcon mcon' : ModuleContext) : Prop where
  wrote : ∃ n, mcon'.wrote =
    List.replicate n (.map mapCommand, CtrDrvrCommandLATCH_UTC) ++ mcon.wrote
  trigs : mcon'.trigs = mcon.trigs
  configs : mcon'.configs = mcon.configs
  clients : mcon'.clients = mcon.clients
  hardClients : mcon'.hardClients = mcon.hardClients
  eqpNum : mcon'.eqpNum = mcon.eqpNum
  eqpClass : mcon'.eqpClass = mcon.eqpClass
  interruptEnable : mcon'.interruptEnable = mcon.interruptEnable
  command : mcon'.command = mcon.command

section

variable {mcon mcon' : ModuleContext} {behind : Behind} {c i m : Nat}
  {eqpClass : CtrDrvrConnectionClass}

/-! ## A client that is not connected -/

theorem disConnectSlot_idle (h : clientMask c &&& mcon.clients i = 0) :
    mcon.disConnectSlot behind eqpClass c i = mcon :=
  if_pos h

theorem disConnectSource_idle (h : clientMask c &&& mcon.hardClients i = 0) :
    mcon.disConnectSource behind c i = mcon := by
  unfold ModuleContext.disConnectSource
  dsimp only
  split
  · rfl
  next hne =>
  have hleave : mcon.leaveSource c i = mcon := by
    unfold ModuleContext.leaveSource
    rw [leaves_idle h, Function.update_eq_self]
  rw [hleave, if_pos hne]

theorem disConnectSources_idle (h : ¬ mcon.HoldsSource c) :
    mcon.disConnectSources behind c = mcon := by
  have hidle : ∀ i < CtrDrvrInterruptSOURCES, clientMask c &&& mcon.hardClients i = 0 :=
    fun i hi => Decidable.byContradiction fun hne => h ⟨i, hi, hne⟩
  unfold ModuleContext.disConnectSources
  refine foldl_keeps (P := fun m => m = mcon) (fun m i hi heq => ?_) rfl
  rw [heq]
  exact disConnectSource_idle (hidle i (List.mem_range.mp hi))

theorem disConnectOne_idle (h : ¬ mcon.HoldsSlot c i)
    (hclass : mcon.eqpClass i = eqpClass) (hne : eqpClass ≠ .HARD) :
    mcon.disConnectOne behind eqpClass c i = mcon := by
  have hidle (hkind : mcon.eqpClass i = .CTIM ∨ mcon.eqpClass i = .PTIM) :
      clientMask c &&& mcon.clients i = 0 :=
    Decidable.byContradiction fun hmember => h ⟨hkind, hmember⟩
  cases eqpClass with
  | HARD => exact absurd rfl hne
  | CTIM => exact disConnectSlot_idle (hidle (.inl hclass))
  | PTIM => exact disConnectSlot_idle (hidle (.inr hclass))
  | other n => rfl

theorem disConnect_idle {conx : CtrDrvrConnection} (h : ¬ mcon.HoldsObject conx c) :
    mcon.disConnect behind conx.eqpNum conx.eqpClass c = mcon := by
  unfold ModuleContext.HoldsObject at h
  unfold ModuleContext.disConnect
  split at h
  · next hclass =>
    rw [if_pos hclass]
    refine foldl_keeps (P := fun m => m = mcon) (fun m i hi heq => ?_) rfl
    rw [heq]
    have hi' := mem_matching.mp hi
    exact disConnectOne_idle (fun hholds => h ⟨i, hi, hholds⟩) hi'.2.2 hclass
  · next hclass =>
    rw [if_neg hclass]
    exact disConnectSources_idle h

theorem disConnectModule_idle (h : ¬ mcon.HoldsAny c) (hstrays : mcon.strays = false) :
    mcon.disConnectModule behind c = mcon := by
  have hloop : mcon.occupied.foldl
      (fun m i => m.disConnectOne behind (m.eqpClass i) c i) mcon = mcon := by
    refine foldl_keeps (P := fun m => m = mcon) (fun m i hi heq => ?_) rfl
    rw [heq]
    by_cases hclass : mcon.eqpClass i = .HARD
    · rw [hclass]
      -- An occupied slot of class HARD is taken for the source of its number.
      have hsource : i < CtrDrvrInterruptSOURCES := by
        have hnone := List.any_eq_false.mp hstrays i hi
        simp only [hclass, and_true, decide_eq_true_eq] at hnone
        omega
      refine disConnectSource_idle (Decidable.byContradiction fun hmember => h ?_)
      exact .inr ⟨i, hsource, hmember⟩
    · exact disConnectOne_idle (fun hholds => h (.inl ⟨i, hi, hholds⟩)) rfl hclass
  unfold ModuleContext.disConnectModule
  dsimp only
  rw [hloop]
  exact disConnectSources_idle fun hsource => h (.inr hsource)

/-! ## A step aside -/

variable {wa wa' : WorkingArea} {e : Event}

theorem Latched.untouched (h : Latched mcon mcon') : Untouched mcon mcon' := by
  induction h with
  | none => exact ⟨⟨0, rfl⟩, rfl, rfl, rfl, rfl, rfl, rfl, rfl, rfl⟩
  | once _ ih =>
    obtain ⟨n, hn⟩ := ih.wrote
    refine ⟨⟨n + 1, ?_⟩, ih.trigs, ih.configs, ih.clients, ih.hardClients,
      ih.eqpNum, ih.eqpClass, ih.interruptEnable, ih.command⟩
    rw [List.replicate_succ, List.cons_append, ← hn]
    rfl

theorem Latched.upLock (h : Latched mcon mcon') : mcon'.upLock = mcon.upLock := by
  induction h with
  | none => rfl
  | once _ ih => exact ih

theorem Latched.trans {mcon'' : ModuleContext} (h : Latched mcon mcon')
    (h' : Latched mcon' mcon'') : Latched mcon mcon'' := by
  induction h' with
  | none => exact h
  | once _ ih => exact .once ih

theorem lock_locked (h : mcon.upLock = true) : { mcon with upLock := true } = mcon := by
  rw [← h]

theorem OneModule.spares {midx : Nat} (h : OneModule wa wa' midx mcon)
    (hm : midx = m → Latched (wa.moduleContexts m) mcon) :
    Latched (wa.moduleContexts m) (wa'.moduleContexts m) := by
  by_cases heq : midx = m
  · subst heq
    rw [h.at]
    exact hm rfl
  · rw [h.other (Ne.symm heq)]
    exact .none

theorem Admits.other {cmd : Ioctl} (h : Admits wa c cmd)
    (hlock : (wa.moduleContexts m).upLock = true) (htests : cmd.testsLock = true) :
    wa.selected c ≠ m := by
  intro heq
  have hopen := h.lock htests
  rw [← heq] at hlock
  unfold WorkingArea.selected at hlock
  rw [hlock] at hopen
  cases hopen

theorem Admits.spares {cmd : Ioctl} {behind : Nat → Behind} (h : Admits wa c cmd)
    (hlock : (wa.moduleContexts m).upLock = true) (htests : cmd.testsLock = true)
    (haside : Aside m wa (.ioctl c cmd behind)) : cmd.Spares m wa c := by
  have hspares : if wa.selected c = m then cmd.opens = false else cmd.Spares m wa c :=
    haside
  rw [if_neg (h.other hlock htests)] at hspares
  exact hspares

theorem connect_takes {conx : CtrDrvrConnection} {midx : Nat}
    (h : connect wa conx c = .ok (midx, mcon')) : TakesConnection wa conx c midx := by
  cases connect_ok h with
  | ptim hclass hmodule hconnect =>
    refine .inl ⟨hclass, hmodule, fun hnone => ?_⟩
    unfold ModuleContext.connectPtim at hconnect
    dsimp only at hconnect
    rw [if_pos hnone] at hconnect
    cases hconnect
  | ctim hclass hconnect =>
    refine .inr (.inl ⟨hclass, rfl, ?_⟩)
    rcases connectCtim_ok hconnect with ⟨i, hhead, -⟩ | ⟨-, hheader, i, hempty, -⟩
    · refine .inl fun hnone => ?_
      rw [hnone] at hhead
      cases hhead
    · refine .inr ⟨hheader, fun hnone => ?_⟩
      rw [hnone] at hempty
      cases hempty
  | hard hptim hctim hconnect =>
    refine .inr (.inr ⟨hptim, hctim, rfl, fun hnone => ?_⟩)
    unfold ModuleContext.connectHard at hconnect
    dsimp only at hconnect
    rw [if_pos hnone] at hconnect
    cases hconnect

theorem createPtim_spares {ptim : CtrDrvrPtimBinding}
    (h : createPtim wa ptim = .ok wa')
    (hm : ptim.moduleIndex = m → ¬ TakesPtim wa ptim) :
    wa'.moduleContexts m = wa.moduleContexts m := by
  obtain ⟨hnew, hroom, hmodule, hfound⟩ := createPtim_ok h
  dsimp only at hfound
  obtain ⟨hne, hfits, heq⟩ := hfound
  rw [heq]
  show Function.update wa.moduleContexts ptim.moduleIndex _ m = _
  by_cases hmidx : ptim.moduleIndex = m
  · -- An object that is made without slots changes the list only.
    have hsize : ptim.size = 0 := Decidable.byContradiction fun hsize =>
      hm hmidx ⟨hnew, hroom, hmodule, hsize, hfits⟩
    rw [hsize, ← hmidx]
    exact Function.update_self _ _ _
  · exact Function.update_of_ne (Ne.symm hmidx) _ _

theorem destroyPtim_spares {ptim : CtrDrvrPtimBinding}
    (h : destroyPtim wa ptim = .ok wa')
    (hm : ptim.moduleIndex = m → ¬ GivesPtim wa ptim) :
    wa'.moduleContexts m = wa.moduleContexts m := by
  obtain ⟨hmodule, hslots⟩ := destroyPtim_ok h
  dsimp only at hslots
  obtain ⟨hfree, hsome, heq⟩ := hslots
  rw [heq]
  refine Function.update_of_ne (fun hmidx => ?_) _ _
  exact hm hmidx.symm ⟨hmodule, hsome, hfree⟩

theorem disConnectAll_spares {behind : Nat → Behind}
    (hstrays : ∀ midx < wa.modules, (wa.moduleContexts midx).strays = false)
    (hsame : Same (disConnectAll wa behind c) wa')
    (h : ¬ (wa.moduleContexts m).HoldsAny c) :
    wa'.moduleContexts m = wa.moduleContexts m := by
  rw [hsame.contexts]
  unfold disConnectAll
  dsimp only
  split
  · next hlt => exact disConnectModule_idle h (hstrays m hlt)
  · rfl

theorem aside_latches (h : Change wa e wa') (haside : Aside m wa e)
    (hlock : (wa.moduleContexts m).upLock = true) :
    Latched (wa.moduleContexts m) (wa'.moduleContexts m) := by
  have hsame : wa'.moduleContexts m = wa.moduleContexts m →
      Latched (wa.moduleContexts m) (wa'.moduleContexts m) := by
    intro heq
    rw [heq]
    exact .none
  cases h with
  | rest hrest => exact hsame (by rw [hrest.contexts])
  | latches hlatch hone =>
    refine hone.spares fun heq => ?_
    subst heq
    exact hlatch
  | @locks c behind cmd _ up hadm hopens hone =>
    refine hone.spares fun heq => ?_
    have hstays : if wa.selected c = m then cmd.opens = false else cmd.Spares m wa c :=
      haside
    rw [if_pos heq] at hstays
    subst heq
    cases up with
    | true =>
      rw [lock_locked hlock]
      exact .none
    | false =>
      rcases hopens rfl with hopen | hopen
      · rw [hstays] at hopen
        cases hopen
      · rw [hlock] at hopen
        cases hopen
  | controls hadm hcontrol hone =>
    exact hone.spares fun heq => absurd heq (hadm.other hlock rfl)
  | connects hadm hconnect hin hone =>
    refine hone.spares fun heq => ?_
    subst heq
    exact absurd (connect_takes hconnect) (hadm.spares hlock rfl haside)
  | disconnects hadm hne hmodule hlt hone =>
    have hspares := hadm.spares hlock rfl haside
    dsimp only [Ioctl.Spares] at hspares
    rw [if_neg hne] at hspares
    refine hone.spares fun heq => ?_
    subst heq
    rw [disConnect_idle (hspares hmodule)]
    exact .none
  | leaves hadm hzero hstrays hall =>
    have hspares := hadm.spares hlock rfl haside
    dsimp only [Ioctl.Spares] at hspares
    rw [if_pos hzero] at hspares
    exact hsame (disConnectAll_spares hstrays hall hspares)
  | closes hlt hopen hstrays hall =>
    exact hsame (disConnectAll_spares hstrays hall haside)
  | acts hadm hact hone =>
    exact hone.spares fun heq => absurd heq (hadm.other hlock rfl)
  | createsCtim hadm hcreate => exact hsame (by rw [(createCtim_ok hcreate).2])
  | destroysCtim hadm hdestroy => exact hsame (by rw [(destroyCtim_ok hdestroy).2])
  | changesCtim hadm hchange => exact hsame (by rw [(changeCtimFrame_ok hchange).2])
  | createsPtim hadm hcreate =>
    exact hsame (createPtim_spares hcreate (hadm.spares hlock rfl haside))
  | destroysPtim hadm hdestroy hin =>
    exact hsame (destroyPtim_spares hdestroy (hadm.spares hlock rfl haside))

/-- In a run of steps that are all aside, a locked module stays locked, nothing
is written to its registers but to latch the time, and its tables are as
before. -/
theorem driver_upLock {es : List Event} (h : (driver.guarded (Aside m)).Run wa es wa')
    (hlock : (wa.moduleContexts m).upLock = true) :
    (wa'.moduleContexts m).upLock = true ∧
      Untouched (wa.moduleContexts m) (wa'.moduleContexts m) := by
  have hrun : Latched (wa.moduleContexts m) (wa'.moduleContexts m) := by
    induction h with
    | nil => exact .none
    | cons hstep _ ih =>
      obtain ⟨haside, hready, hnext⟩ := hstep
      have hlatch := aside_latches (next_change hready hnext) haside hlock
      exact hlatch.trans (ih (hlatch.upLock.trans hlock))
  exact ⟨hrun.upLock.trans hlock, hrun.untouched⟩

end

def lockEvents : List Event :=
  [.opens 0, .opens 1, .ioctl 1 (.setModule 2) fun _ _ => 0,
    .ioctl 0 .lock fun _ _ => 0]

def connectEvent (module : Nat) : Event :=
  .ioctl 1 (.connect ⟨module, .HARD, 1⟩) fun _ _ => 0

theorem driver_upLock_connect : ∃ wa wa' : WorkingArea,
    (wa'.moduleContexts 1).hardClients 0 = clientMask 1 ∧
    (wa'.moduleContexts 0).upLock = true ∧
      Untouched (wa.moduleContexts 0) (wa'.moduleContexts 0) := by
  have hruns : (twoModules.run (Aside 0) lockEvents).any (fun wa =>
      (wa.moduleContexts 0).upLock = true ∧
        (wa.run (Aside 0) [connectEvent 2, .ioctl 0 .getUtc fun _ _ => 0]).any
          (fun wa' => (wa'.moduleContexts 1).hardClients 0 = clientMask 1) = true) =
      true := by decide +kernel
  obtain ⟨wa, -, hlock, hrest⟩ := exists_run hruns
  obtain ⟨wa', hrun, hjoined⟩ := exists_run hrest
  exact ⟨wa, wa', hjoined, driver_upLock (run_run hrun) hlock⟩

/-- The second client, which has selected its own module, connects to the first
module. -/
theorem upLock_passed : ¬ ∀ (m : Nat) (wa wa' : WorkingArea) (es : List Event),
    driver.Reachable wa → (wa.moduleContexts m).upLock = true →
    (∀ c cmd behind, .ioctl c cmd behind ∈ es → cmd.opens = false) →
    driver.Run wa es wa' → Untouched (wa.moduleContexts m) (wa'.moduleContexts m) := by
  intro h
  have hruns : (twoModules.run (fun _ _ => True) lockEvents).any (fun wa =>
      (wa.moduleContexts 0).upLock = true ∧ (wa.moduleContexts 0).hardClients 0 = 0 ∧
        (wa.run (fun _ _ => True) [connectEvent 1]).any
          (fun wa' => (wa'.moduleContexts 0).hardClients 0 = clientMask 1) = true) =
      true := by decide +kernel
  obtain ⟨wa, hwa, hlock, hclients, hrest⟩ := exists_run hruns
  obtain ⟨wa', hrun, hjoined⟩ := exists_run hrest
  have hreachable : driver.Reachable wa :=
    .run (.init twoModules_installed) (run_run hwa).of_guarded
  have hopens : ∀ c cmd behind, .ioctl c cmd behind ∈ [connectEvent 1] →
      cmd.opens = false := by
    intro c cmd behind hmem
    cases List.mem_singleton.mp hmem
    rfl
  have huntouched := h 0 wa wa' _ hreachable hlock hopens (run_run hrun).of_guarded
  rw [huntouched.hardClients, hclients] at hjoined
  exact absurd hjoined (by decide)

end Coht.Ctr
