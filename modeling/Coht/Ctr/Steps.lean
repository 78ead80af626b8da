import Coht.Ctr.Driver

/-!
# What a step does to the modules and the objects

Most steps concern a client alone. The others change one module, or the lists
of objects, or, when a client leaves everything, all the modules. `Change`
lists them, with the tests that the step has passed, and every invariant of
the modules is a case for each of its constructors. What a step does to the
queues is not in it.
-/

namespace Coht.Ctr

open Coht.Lib

structure Same (wa wa' : WorkingArea) : Prop where
  ctim : wa'.ctim = wa.ctim
  ptim : wa'.ptim = wa.ptim
  modules : wa'.modules = wa.modules
  contexts : wa'.moduleContexts = wa.moduleContexts

structure OneModule (wa wa' : WorkingArea) (midx : Nat) (mcon : ModuleContext) :
    Prop where
  ctim : wa'.ctim = wa.ctim
  ptim : wa'.ptim = wa.ptim
  modules : wa'.modules = wa.modules
  contexts : wa'.moduleContexts = Function.update wa.moduleContexts midx mcon

inductive Latched (mcon : ModuleContext) : ModuleContext → Prop
  | none : Latched mcon mcon
  | once {mcon' : ModuleContext} : Latched mcon mcon' → Latched mcon mcon'.getTime

structure Admits (wa : WorkingArea) (c : Nat) (cmd : Ioctl) : Prop where
  client : c < CtrDrvrCLIENT_CONTEXTS
  open_ : (wa.clientContexts c).inUse = true
  installed : (wa.moduleContexts (wa.clientContexts c).moduleIndex).inUse = true
  lock : cmd.testsLock = true →
    (wa.moduleContexts (wa.clientContexts c).moduleIndex).upLock = false

/-- The unlock that opens the update lock. -/
def Ioctl.opens : Ioctl → Bool
  | .unlock pw => ModuleContext.digitSum pw = 0x24
  | _ => false

/-- The module the client has selected. -/
def WorkingArea.selected (wa : WorkingArea) (c : Nat) : Nat :=
  (wa.clientContexts c).moduleIndex

inductive Change (wa : WorkingArea) : Event → WorkingArea → Prop
  | rest {e : Event} {wa' : WorkingArea} : Same wa wa' → Change wa e wa'
  | latches {e : Event} {wa' : WorkingArea} {midx : Nat} {mcon : ModuleContext} :
      Latched (wa.moduleContexts midx) mcon → OneModule wa wa' midx mcon →
      Change wa e wa'
  | locks {c : Nat} {behind : Nat → Behind} {cmd : Ioctl} {wa' : WorkingArea}
      {up : Bool} : Admits wa c cmd →
      (up = false → cmd.opens = true ∨
        (wa.moduleContexts (wa.selected c)).upLock = false) →
      OneModule wa wa' (wa.selected c)
        { wa.moduleContexts (wa.selected c) with upLock := up } →
      Change wa (.ioctl c cmd behind) wa'
  | controls {c : Nat} {cmd : Control} {behind : Nat → Behind} {wa' : WorkingArea}
      {mcon : ModuleContext} : Admits wa c (.control cmd) →
      (wa.moduleContexts (wa.selected c)).control cmd = .ok mcon →
      OneModule wa wa' (wa.selected c) mcon →
      Change wa (.ioctl c (.control cmd) behind) wa'
  | connects {c midx : Nat} {conx : CtrDrvrConnection} {behind : Nat → Behind}
      {wa' : WorkingArea} {mcon : ModuleContext} : Admits wa c (.connect conx) →
      connect wa conx c = .ok (midx, mcon) →
      (wa.moduleContexts midx).inUse = true → OneModule wa wa' midx mcon →
      Change wa (.ioctl c (.connect conx) behind) wa'
  | disconnects {c midx : Nat} {conx : CtrDrvrConnection}
      {behind : Nat → Behind} {wa' : WorkingArea} :
      Admits wa c (.disconnect conx) → conx.eqpNum ≠ 0 → conx.module = midx + 1 →
      midx < CtrDrvrMODULE_CONTEXTS →
      OneModule wa wa' midx ((wa.moduleContexts midx).disConnect (behind midx)
        conx.eqpNum conx.eqpClass c) →
      Change wa (.ioctl c (.disconnect conx) behind) wa'
  | leaves {c : Nat} {conx : CtrDrvrConnection} {behind : Nat → Behind}
      {wa' : WorkingArea} : Admits wa c (.disconnect conx) → conx.eqpNum = 0 →
      (∀ midx < wa.modules, (wa.moduleContexts midx).strays = false) →
      Same (disConnectAll wa behind c) wa' →
      Change wa (.ioctl c (.disconnect conx) behind) wa'
  | closes {c : Nat} {behind : Nat → Behind} {wa' : WorkingArea} :
      c < CtrDrvrCLIENT_CONTEXTS → (wa.clientContexts c).inUse = true →
      (∀ midx < wa.modules, (wa.moduleContexts midx).strays = false) →
      Same (disConnectAll wa behind c) wa' → Change wa (.closes c behind) wa'
  | acts {c : Nat} {act : CtrDrvrAction} {behind : Nat → Behind}
      {wa' : WorkingArea} {mcon : ModuleContext} : Admits wa c (.setAction act) →
      (wa.moduleContexts (wa.selected c)).setAction act = .ok mcon →
      OneModule wa wa' (wa.selected c) mcon →
      Change wa (.ioctl c (.setAction act) behind) wa'
  | createsCtim {c : Nat} {ctim : CtrDrvrCtimBinding} {behind : Nat → Behind}
      {wa' : WorkingArea} : Admits wa c (.createCtim ctim) →
      createCtim wa ctim = .ok wa' → Change wa (.ioctl c (.createCtim ctim) behind) wa'
  | destroysCtim {c : Nat} {ctim : CtrDrvrCtimBinding} {behind : Nat → Behind}
      {wa' : WorkingArea} : Admits wa c (.destroyCtim ctim) →
      destroyCtim wa (wa.selected c) ctim = .ok wa' →
      Change wa (.ioctl c (.destroyCtim ctim) behind) wa'
  | changesCtim {c : Nat} {ctim : CtrDrvrCtimBinding} {behind : Nat → Behind}
      {wa' : WorkingArea} : Admits wa c (.changeCtimFrame ctim) →
      changeCtimFrame wa (wa.selected c) ctim = .ok wa' →
      Change wa (.ioctl c (.changeCtimFrame ctim) behind) wa'
  | createsPtim {c : Nat} {ptim : CtrDrvrPtimBinding} {behind : Nat → Behind}
      {wa' : WorkingArea} : Admits wa c (.createPtim ptim) →
      createPtim wa ptim = .ok wa' → Change wa (.ioctl c (.createPtim ptim) behind) wa'
  | destroysPtim {c : Nat} {ptim : CtrDrvrPtimBinding} {behind : Nat → Behind}
      {wa' : WorkingArea} : Admits wa c (.destroyPtim ptim) →
      destroyPtim wa ptim = .ok wa' → (wa.moduleContexts ptim.moduleIndex).inUse = true →
      Change wa (.ioctl c (.destroyPtim ptim) behind) wa'

section

variable {wa wa' wa'' : WorkingArea} {c midx : Nat} {e : Event}

theorem Same.refl (wa : WorkingArea) : Same wa wa := ⟨rfl, rfl, rfl, rfl⟩

theorem setModule_oneModule (mcon : ModuleContext) :
    OneModule wa (wa.setModule midx mcon) midx mcon := ⟨rfl, rfl, rfl, rfl⟩

theorem OneModule.at (h : OneModule wa wa' midx mcon) :
    wa'.moduleContexts midx = mcon := by
  rw [h.contexts, Function.update_self]

theorem OneModule.other {midx' : Nat} (h : OneModule wa wa' midx mcon)
    (hne : midx' ≠ midx) : wa'.moduleContexts midx' = wa.moduleContexts midx' := by
  rw [h.contexts, Function.update_of_ne hne]

theorem OneModule.forall {P : Nat → ModuleContext → Prop} {mcon : ModuleContext}
    (h : OneModule wa wa' midx mcon) (hold : ∀ midx, P midx (wa.moduleContexts midx))
    (hnew : P midx mcon) : ∀ midx, P midx (wa'.moduleContexts midx) := by
  intro midx'
  by_cases hm : midx' = midx
  · subst hm
    rw [h.at]
    exact hnew
  · rw [h.other hm]
    exact hold midx'

theorem onModule_returns {mcon : Except Errno ModuleContext}
    (h : wa.onModule midx mcon = .returns wa') :
    ∃ mcon', mcon = .ok mcon' ∧ OneModule wa wa' midx mcon' := by
  cases mcon with
  | error err => cases h
  | ok mcon' =>
    cases h
    exact ⟨mcon', rfl, setModule_oneModule mcon'⟩

theorem of_returns {result : Except Errno WorkingArea}
    (h : Outcome.of result = .returns wa') : result = .ok wa' := by
  cases result with
  | error err => cases h
  | ok wa'' =>
    cases h
    rfl

theorem disConnectAll_returns {behind : Nat → Behind}
    (h : wa.disConnectAll behind c = .returns wa') :
    (∀ midx < wa.modules, (wa.moduleContexts midx).strays = false) ∧
      wa' = disConnectAll wa behind c := by
  unfold WorkingArea.disConnectAll at h
  split at h
  · cases h
  · next hany =>
    cases h
    refine ⟨fun midx hlt => ?_, rfl⟩
    rw [List.any_eq_true] at hany
    cases hstray : (wa.moduleContexts midx).strays with
    | false => rfl
    | true => exact absurd ⟨midx, List.mem_range.mpr hlt, hstray⟩ hany

theorem clrUplock_eq (mcon : ModuleContext) (pw : U32) :
    ∃ up, mcon.clrUplock pw = { mcon with upLock := up } ∧
      (up = false → (Ioctl.unlock pw).opens = true ∨ mcon.upLock = false) := by
  unfold ModuleContext.clrUplock
  split
  · next hsum => exact ⟨false, rfl, fun _ => .inl (decide_eq_true hsum)⟩
  · exact ⟨mcon.upLock, rfl, .inr⟩

theorem ioctl_admits {behind : Nat → Behind} {cmd : Ioctl}
    (h : wa.ioctl behind c cmd = .returns wa') :
    Admits wa c cmd ∧ wa.command behind c cmd = .returns wa' := by
  unfold WorkingArea.ioctl at h
  dsimp only at h
  split at h
  · cases h
  next hclient =>
  split at h
  · cases h
  next hopen =>
  split at h
  · cases h
  next hinst =>
  split at h
  · cases h
  next hlock =>
  refine ⟨⟨by omega, by simpa using hopen, by simpa using hinst, fun htests => ?_⟩, h⟩
  simpa [htests] using hlock

theorem command_connect {behind : Nat → Behind} {conx : CtrDrvrConnection}
    (h : wa.command behind c (.connect conx) = .returns wa') :
    ∃ midx mcon, connect wa conx c = .ok (midx, mcon) ∧
      (wa.moduleContexts midx).inUse = true ∧ OneModule wa wa' midx mcon := by
  unfold WorkingArea.command at h
  dsimp only at h
  split at h
  · cases h
  next midx mcon hconnect =>
  split at h
  · next hin =>
    cases h
    exact ⟨midx, mcon, hconnect, hin, setModule_oneModule mcon⟩
  · cases h

theorem command_disconnect {behind : Nat → Behind} {conx : CtrDrvrConnection}
    (h : wa.command behind c (.disconnect conx) = .returns wa') :
    (conx.eqpNum = 0 ∧ (∀ midx < wa.modules, (wa.moduleContexts midx).strays = false) ∧
      wa' = disConnectAll wa behind c) ∨
    (conx.eqpNum ≠ 0 ∧ ∃ midx, conx.module = midx + 1 ∧ midx < CtrDrvrMODULE_CONTEXTS ∧
      OneModule wa wa' midx ((wa.moduleContexts midx).disConnect (behind midx)
        conx.eqpNum conx.eqpClass c)) := by
  unfold WorkingArea.command at h
  dsimp only at h
  split at h
  · next hzero => exact .inl ⟨hzero, disConnectAll_returns h⟩
  next hne =>
  split at h
  · next hrange =>
    cases h
    refine .inr ⟨hne, conx.module - 1, by omega, ?_, setModule_oneModule _⟩
    unfold CtrDrvrMODULE_CONTEXTS at hrange ⊢
    omega
  · cases h

theorem command_change {behind : Nat → Behind} {cmd : Ioctl}
    (hadm : Admits wa c cmd) (h : wa.command behind c cmd = .returns wa') :
    Change wa (.ioctl c cmd behind) wa' := by
  cases cmd with
  | connect conx =>
    obtain ⟨midx, mcon, hconnect, hin, hone⟩ := command_connect h
    exact .connects hadm hconnect hin hone
  | disconnect conx =>
    rcases command_disconnect h with ⟨hzero, hstrays, rfl⟩ | ⟨hne, midx, hmodule, hlt, hone⟩
    · exact .leaves hadm hzero hstrays (.refl _)
    · exact .disconnects hadm hne hmodule hlt hone
  | setTimeout | setQueueFlag | getQueueOverflow =>
    cases h
    exact .rest ⟨rfl, rfl, rfl, rfl⟩
  | setModule lav =>
    unfold WorkingArea.command at h
    dsimp only at h
    split at h
    · cases h
      exact .rest ⟨rfl, rfl, rfl, rfl⟩
    · cases h
  | lock =>
    cases h
    exact .locks hadm (by simp) (setModule_oneModule _)
  | unlock pw =>
    obtain ⟨up, hup, hopens⟩ := clrUplock_eq
      (wa.moduleContexts (wa.clientContexts c).moduleIndex) pw
    unfold WorkingArea.command at h
    dsimp only at h
    rw [hup] at h
    cases h
    exact .locks hadm hopens (setModule_oneModule _)
  | getUtc =>
    cases h
    exact .latches (.once .none) (setModule_oneModule _)
  | setAction act =>
    obtain ⟨mcon, hact, hone⟩ := onModule_returns h
    exact .acts hadm hact hone
  | createCtim ctim => exact .createsCtim hadm (of_returns h)
  | destroyCtim ctim => exact .destroysCtim hadm (of_returns h)
  | changeCtimFrame ctim => exact .changesCtim hadm (of_returns h)
  | createPtim ptim => exact .createsPtim hadm (of_returns h)
  | destroyPtim ptim =>
    unfold WorkingArea.command at h
    dsimp only at h
    split at h
    · cases h
    · next wa'' hdestroy =>
      split at h
      · next hin =>
        cases h
        exact .destroysPtim hadm hdestroy hin
      · cases h
  | control cmd =>
    obtain ⟨mcon, hcontrol, hone⟩ := onModule_returns h
    exact .controls hadm hcontrol hone
  | inquiry =>
    cases h
    exact .rest (.refl _)

theorem intrLatch_latched {mcon mcon' : ModuleContext} (inum : Nat)
    (h : Latched mcon mcon') : Latched mcon (mcon'.intrLatch inum) := by
  unfold ModuleContext.intrLatch
  split
  · exact .once h
  · exact h

theorem intrHandler_latches {raised : Raised} : ∃ mcon,
    Latched (wa.moduleContexts midx) mcon ∧
      OneModule wa (intrHandler midx raised wa) midx mcon := by
  suffices h : ∀ (sources : List Nat) (wa' : WorkingArea) (mcon : ModuleContext),
      Latched (wa.moduleContexts midx) mcon → OneModule wa wa' midx mcon →
      ∃ mcon', Latched (wa.moduleContexts midx) mcon' ∧
        OneModule wa (sources.foldl (intrSource midx raised) wa') midx mcon' by
    refine h _ wa (wa.moduleContexts midx) .none ⟨rfl, rfl, rfl, ?_⟩
    rw [Function.update_eq_self]
  intro sources
  induction sources with
  | nil => exact fun wa' mcon hlatch hone => ⟨mcon, hlatch, hone⟩
  | cons inum sources ih =>
    intro wa' mcon hlatch hone
    rw [List.foldl_cons]
    refine ih _ _ (intrLatch_latched inum hlatch)
      ⟨hone.ctim, hone.ptim, hone.modules, ?_⟩
    show Function.update wa'.moduleContexts midx
      ((wa'.moduleContexts midx).intrLatch inum) = _
    rw [hone.at, hone.contexts, Function.update_idem]

theorem ctrDrvrWrite_change {wb : CtrDrvrWriteBuf} {time : CtrDrvrCTime}
    (h : ctrDrvrWrite wb time wa = .returns wa') : Change wa e wa' := by
  unfold ctrDrvrWrite at h
  dsimp only at h
  split at h
  · cases h
  split at h
  · cases h
  split at h
  · cases h
    exact .rest (.refl _)
  · cases h
    exact .latches (.once .none) ⟨rfl, rfl, rfl, rfl⟩

theorem after_eq_some {outcome : Outcome} (h : outcome.after wa = some wa') :
    outcome = .returns wa' ∨ wa' = wa := by
  cases outcome with
  | returns wa'' =>
    cases h
    exact .inl rfl
  | fails err =>
    cases h
    exact .inr rfl
  | undefined => cases h

theorem next_change (hready : wa.ready e) (h : wa.next e = some wa') :
    Change wa e wa' := by
  cases e with
  | opens c =>
    cases h
    exact .rest ⟨rfl, rfl, rfl, rfl⟩
  | reads c e =>
    cases h
    exact .rest ⟨rfl, rfl, rfl, rfl⟩
  | ioctl c cmd behind =>
    rcases after_eq_some h with hreturns | rfl
    · obtain ⟨hadm, hcommand⟩ := ioctl_admits hreturns
      exact command_change hadm hcommand
    · exact .rest (.refl _)
  | writes c wb time =>
    rcases after_eq_some h with hreturns | rfl
    · exact ctrDrvrWrite_change hreturns
    · exact .rest (.refl _)
  | interrupts midx raised =>
    cases h
    obtain ⟨mcon, hlatch, hone⟩ := @intrHandler_latches wa midx raised
    exact .latches hlatch hone
  | closes c behind =>
    rcases after_eq_some h with hreturns | rfl
    · obtain ⟨hstrays, rfl⟩ := disConnectAll_returns hreturns
      exact .closes hready.1 hready.2.1 hstrays ⟨rfl, rfl, rfl, rfl⟩
    · exact .rest (.refl _)

end

end Coht.Ctr
