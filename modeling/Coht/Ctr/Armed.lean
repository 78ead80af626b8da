import Coht.Ctr.Sources

/-!
# Enabled is needed

Connections enable what they need, and to disconnect in a clean way disables
what is needed no more. The other commands do not change who needs what, since
a slot gets an object or loses it only while no client is connected to it. So
in a run that leaves sources in a clean way only, the enabled sources are those
that are needed, after each step.
-/

namespace Coht.Ctr

open Coht.Lib

section

variable {mcon mcon' : ModuleContext} {i m s : Nat} {slot slot' : Slot}
  {wa wa' : WorkingArea} {e : Event}

/-! ## The other commands -/

theorem ModuleContext.Armed.keep (h : mcon.Armed)
    (hhard : mcon'.hardClients = mcon.hardClients)
    (henable : mcon'.interruptEnable = mcon.interruptEnable)
    (hregister : mcon'.map mapInterruptEnable = mcon.map mapInterruptEnable ∨
      mcon'.map mapInterruptEnable = mcon.interruptEnable)
    (huses : ∀ i < CtrDrvrRamTableSIZE, ∀ s,
      (mcon'.slot i).Uses s ↔ (mcon.slot i).Uses s) : mcon'.Armed where
  register := by
    unfold ModuleContext.InRegister
    rw [henable]
    rcases hregister with hsame | hsame
    · rw [hsame]
      exact h.register
    · exact hsame
  enabled s hs := by
    unfold ModuleContext.Enabled
    rw [henable, needed_iff, hhard]
    refine (h.enabled s hs).trans (or_congr_right ?_)
    exact exists_congr fun i => and_congr_right fun hi => (huses i hi s).symm

theorem slotChange_uses (h : SlotChange wa m i slot e slot')
    (hother : e.connecting = false) (hnumbered : slot.Numbered) :
    slot'.Uses s ↔ slot.Uses s := by
  cases h with
  | same | writes => exact Iff.rfl
  | connects | fills | disconnects | leaves | closes => cases hother
  | acts hselected hnumber hclass htests =>
    rcases htests with hempty | ⟨-, -, hcounter⟩
    · exact absurd hempty (hnumbered.occupied hclass)
    · unfold Slot.Uses
      rw [hcounter]
      rfl
  | claims hempty =>
    have hnone := (hnumbered.empty hempty).2
    exact ⟨fun huses => absurd hnone huses.2, fun huses => absurd hnone huses.2⟩
  | clears hnum hclass hfree =>
    exact ⟨fun huses => absurd hfree huses.2, fun huses => absurd hfree huses.2⟩

/-- The raw connections, the enabled interrupts and their register are as
before. -/
structure SameRaw (mcon mcon' : ModuleContext) : Prop where
  hardClients : mcon'.hardClients = mcon.hardClients
  interruptEnable : mcon'.interruptEnable = mcon.interruptEnable
  register : mcon'.map mapInterruptEnable = mcon.map mapInterruptEnable

theorem SameRaw.trans {mcon'' : ModuleContext} (h : SameRaw mcon mcon')
    (h' : SameRaw mcon' mcon'') : SameRaw mcon mcon'' where
  hardClients := h'.hardClients.trans h.hardClients
  interruptEnable := h'.interruptEnable.trans h.interruptEnable
  register := h'.register.trans h.register

theorem writeTrig_raw (mcon : ModuleContext) (i : Nat) (strg : CtrDrvrTrigger) :
    SameRaw mcon (mcon.writeTrig i strg) where
  hardClients := (writeTrig_sameTables mcon i strg).hardClients
  interruptEnable := (writeTrig_sameTables mcon i strg).interruptEnable
  register := register_writeTrig

theorem writeConfig_raw (mcon : ModuleContext) (i : Nat)
    (scnf : CtrDrvrCounterConfiguration) : SameRaw mcon (mcon.writeConfig i scnf) where
  hardClients := (writeConfig_sameTables mcon i scnf).hardClients
  interruptEnable := (writeConfig_sameTables mcon i scnf).interruptEnable
  register := register_writeConfig

theorem writeAction_raw (mcon : ModuleContext) (i : Nat) (act : CtrDrvrAction) :
    SameRaw mcon (mcon.writeAction i act) := by
  have htrig := writeTrig_raw mcon i act.trigger
  unfold ModuleContext.writeAction
  generalize mcon.writeTrig i act.trigger = written at htrig ⊢
  dsimp only
  have hset : SameRaw written
      { written with trigs := Function.update written.trigs i act.trigger } :=
    ⟨rfl, rfl, rfl⟩
  have hconfig := (htrig.trans hset).trans (writeConfig_raw _ i
    (overrideBus (written.clients i) act.config))
  exact ⟨hconfig.hardClients, hconfig.interruptEnable, hconfig.register⟩

theorem setAction_raw {act : CtrDrvrAction} (h : mcon.setAction act = .ok mcon') :
    SameRaw mcon mcon' := by
  obtain ⟨i, -, -, -, -, heq⟩ := setAction_ok h
  split at heq
  · rw [heq]
    exact writeAction_raw mcon i act
  · have hclaim : SameRaw mcon (mcon.claimAction i act) := ⟨rfl, rfl, rfl⟩
    rw [heq]
    exact hclaim.trans (writeAction_raw _ i act)

theorem clearPtim_raw (mcon : ModuleContext) (i : Nat) :
    SameRaw mcon (mcon.clearPtim i) := by
  have htables := io32Write_sameTables (mapTrigs i) [0, 0] mcon
  have hregister : (mcon.io32Write (mapTrigs i) [0, 0]).map mapInterruptEnable =
      mcon.map mapInterruptEnable := by
    show ((mcon.hWr 0 (mapTrigs i)).hWr 0 (mapTrigs i + 1)).map _ = _
    rw [map_hWr_of_ne mapInterruptEnable_ne.2.2.2, map_hWr_of_ne mapInterruptEnable_ne.2.2.1]
  have hwritten : SameRaw mcon (mcon.io32Write (mapTrigs i) [0, 0]) :=
    ⟨htables.hardClients, htables.interruptEnable, hregister⟩
  unfold ModuleContext.clearPtim
  generalize mcon.io32Write (mapTrigs i) [0, 0] = written at hwritten ⊢
  dsimp only
  refine .trans ?_ (writeConfig_raw _ i {})
  exact ⟨hwritten.hardClients, hwritten.interruptEnable, hwritten.register⟩

theorem update_raw {f : Nat → ModuleContext} {midx : Nat} (h : SameRaw (f midx) mcon)
    (m : Nat) : SameRaw (f m) (Function.update f midx mcon m) := by
  by_cases hm : m = midx
  · subst hm
    rw [Function.update_self]
    exact h
  · rw [Function.update_of_ne hm]
    exact ⟨rfl, rfl, rfl⟩

theorem createPtim_raw {ptim : CtrDrvrPtimBinding} (h : createPtim wa ptim = .ok wa')
    (m : Nat) : SameRaw (wa.moduleContexts m) (wa'.moduleContexts m) := by
  obtain ⟨-, -, -, hfound⟩ := createPtim_ok h
  dsimp only at hfound
  rw [hfound.2.2]
  refine update_raw ?_ m
  exact foldl_keeps (P := fun m => SameRaw (wa.moduleContexts ptim.moduleIndex) m)
    (fun m i _ hm => ⟨hm.hardClients, hm.interruptEnable, hm.register⟩) ⟨rfl, rfl, rfl⟩

theorem destroyPtim_raw {ptim : CtrDrvrPtimBinding} (h : destroyPtim wa ptim = .ok wa')
    (m : Nat) : SameRaw (wa.moduleContexts m) (wa'.moduleContexts m) := by
  obtain ⟨-, hslots⟩ := destroyPtim_ok h
  dsimp only at hslots
  rw [hslots.2.2]
  refine update_raw ?_ m
  exact foldl_keeps (P := fun m => SameRaw (wa.moduleContexts ptim.moduleIndex) m)
    (fun m i _ hm => hm.trans (clearPtim_raw m i)) ⟨rfl, rfl, rfl⟩

theorem Quiet.armed (h : Quiet mcon mcon') (harmed : mcon.Armed) : mcon'.Armed := by
  refine harmed.keep h.hardClients h.interruptEnable h.register fun i hi s => ?_
  rw [h.slot hi]

/-! ## Runs -/

def Counted (wa : WorkingArea) : Prop :=
  ∀ m, ∀ i < CtrDrvrRamTableSIZE, ((wa.moduleContexts m).trigs i).counter.toNat < 32

theorem disConnectAs_trig {c : Nat} {clss : CtrDrvrConnectionClass} :
    (slot.disConnectAs clss c).trig = slot.trig := by
  have hleft := disConnect_cases slot c
  rcases disConnectAs_eq slot clss c with heq | heq
  · rw [heq]
  · rw [heq]
    generalize slot.disConnect c = slot' at hleft ⊢
    cases hleft with
    | same | shared | frees | releases => rfl

theorem slotChange_counter (h : SlotChange wa m i slot e slot') (hclean : Clean wa e)
    (hnumbered : slot.Numbered) (hcounter : slot.trig.counter.toNat < 32) :
    slot'.trig.counter.toNat < 32 := by
  cases h with
  | same | connects | writes => exact hcounter
  | fills | clears => exact (by decide : (0 : U32).toNat < 32)
  | disconnects | leaves | closes =>
    rw [disConnectAs_trig]
    exact hcounter
  | acts hselected hnumber hclass htests =>
    rcases htests with hempty | ⟨-, -, hsame⟩
    · exact absurd hempty (hnumbered.occupied hclass)
    · rw [hsame] at hcounter
      exact hcounter
  | claims => exact hclean.2

theorem Clean.gives (h : Clean wa e) : GivesNumbers e := by
  cases e with
  | ioctl c cmd behind =>
    cases cmd with
    | createPtim ptim => exact h.1
    | createCtim ctim => exact h
    | _ => trivial
  | _ => trivial

theorem Clean.rawWrites {c : Nat} {cmd : Control} {behind : Nat → Behind}
    (h : Clean wa (.ioctl c (.control cmd) behind)) (offset : Nat) (data : List U32) :
    cmd ≠ .rawWrite offset data := by
  intro heq
  subst heq
  cases h

theorem same_armed (h : Change wa e wa') (hother : e.connecting = false)
    (hnumbered : Numbered wa)
    (hraw : ∀ m, SameRaw (wa.moduleContexts m) (wa'.moduleContexts m))
    (harmed : ∀ m, (wa.moduleContexts m).Armed) (m : Nat) :
    (wa'.moduleContexts m).Armed :=
  (harmed m).keep (hraw m).hardClients (hraw m).interruptEnable (.inl (hraw m).register)
    fun i hi _ => slotChange_uses (change_slot h hi m) hother (hnumbered.slots m i hi)

theorem connect_armed {c : Nat} {conx : CtrDrvrConnection} (hc : c < CtrDrvrCLIENT_CONTEXTS)
    (hnumbered : Numbered wa) (harmed : ∀ m, (wa.moduleContexts m).Armed)
    (h : connect wa conx c = .ok (m, mcon')) : mcon'.Armed := by
  cases connect_ok h with
  | ptim hclass hmodule hconnect => exact connectPtim_armed hc (harmed _) hconnect
  | ctim hclass hconnect =>
    exact connectCtim_armed hc (hnumbered.slots _) (harmed _) hconnect
  | hard hptim hctim hconnect => exact connectHard_armed hc (harmed _) hconnect

theorem disConnectAll_armed {c : Nat} {behind : Nat → Behind} (hnumbered : Numbered wa)
    (hcounted : Counted wa)
    (hclean : ∀ m < wa.modules, (wa.moduleContexts m).AllClean (behind m) c)
    (harmed : ∀ m, (wa.moduleContexts m).Armed) (m : Nat) :
    ((disConnectAll wa behind c).moduleContexts m).Armed := by
  unfold disConnectAll
  dsimp only
  split
  · next hm =>
    exact (disConnectModule_hasLeft (hnumbered.slots m) (hcounted m)).armed
      (fun i hi => (mem_occupied.mp hi).1) (hclean m hm) (harmed m)
  · exact harmed m

theorem change_armed (h : Change wa e wa') (hclean : Clean wa e) (hnumbered : Numbered wa)
    (hcounted : Counted wa) (harmed : ∀ m, (wa.moduleContexts m).Armed) :
    ∀ m, (wa'.moduleContexts m).Armed := by
  have hsame := fun hother hraw m => same_armed h hother hnumbered hraw harmed m
  cases h with
  | rest hrest =>
    rw [hrest.contexts]
    exact harmed
  | latches hlatch hone => exact hone.forall harmed (hlatch.quiet.armed (harmed _))
  | locks hadm hopens hone =>
    exact hone.forall harmed
      ((harmed _).keep rfl rfl (.inl rfl) fun _ _ _ => Iff.rfl)
  | controls hadm hcontrol hone =>
    exact hone.forall harmed ((control_quiet hcontrol hclean.rawWrites).armed (harmed _))
  | connects hadm hconnect hin hone =>
    exact hone.forall harmed (connect_armed hadm.client hnumbered harmed hconnect)
  | disconnects hadm hne hmodule hlt hone =>
    have hleaves : Clean wa _ := hclean
    unfold Clean at hleaves
    dsimp only at hleaves
    rw [if_neg hne, hmodule, Nat.add_sub_cancel] at hleaves
    exact hone.forall harmed ((disConnect_hasLeft (hnumbered.slots _) (hcounted _) hne).armed
      (fun i hi => (mem_matching.mp hi).1) hleaves (harmed _))
  | leaves hadm hzero hstrays hall =>
    have hleaves : Clean wa _ := hclean
    unfold Clean at hleaves
    dsimp only at hleaves
    rw [if_pos hzero] at hleaves
    rw [hall.contexts]
    exact disConnectAll_armed hnumbered hcounted hleaves harmed
  | closes hlt hopen hstrays hall =>
    rw [hall.contexts]
    exact disConnectAll_armed hnumbered hcounted hclean harmed
  | acts hadm hact hone =>
    refine hsame rfl fun m => ?_
    rw [hone.contexts]
    exact update_raw (setAction_raw hact) m
  | createsPtim hadm hcreate => exact hsame rfl (createPtim_raw hcreate)
  | destroysPtim hadm hdestroy hin => exact hsame rfl (destroyPtim_raw hdestroy)
  | createsCtim hadm hcreate =>
    rw [(createCtim_ok hcreate).2]
    exact harmed
  | destroysCtim hadm hdestroy =>
    rw [(destroyCtim_ok hdestroy).2]
    exact harmed
  | changesCtim hadm hchange =>
    rw [(changeCtimFrame_ok hchange).2]
    exact harmed

structure Accounted (wa : WorkingArea) : Prop where
  numbered : Numbered wa
  counted : Counted wa
  armed : ∀ m, (wa.moduleContexts m).Armed

theorem Installed.accounted (h : Installed wa) : Accounted wa where
  numbered := numbered_invariant.init h
  counted m i _ := by
    rw [h.context m]
    exact (by decide : (0 : U32).toNat < 32)
  armed m := by
    have hmap := h.disabled m
    rw [h.context m]
    refine ⟨hmap, fun s _ => ?_⟩
    constructor
    · intro henabled
      cases (BitVec.getLsbD_zero (w := 32) (i := s)).symm.trans henabled
    · rintro (hsource | ⟨i, _, _, hne⟩)
      · exact absurd rfl hsource
      · exact absurd rfl hne

theorem accounted_invariant : (driver.guarded Clean).Invariant Accounted where
  init h := Installed.accounted h
  step := by
    intro wa e wa' haccounted hstep
    have hchange := next_change hstep.2.1 hstep.2.2
    refine ⟨?_, fun m i hi => ?_, ?_⟩
    · exact numbered_invariant.step haccounted.numbered ⟨hstep.1.gives, hstep.2⟩
    · exact slotChange_counter (change_slot hchange hi m) hstep.1
        (haccounted.numbered.slots m i hi) (haccounted.counted m i hi)
    · exact change_armed hchange hstep.1 haccounted.numbered haccounted.counted
        haccounted.armed

/-- In every state of a run that leaves sources in a clean way only, the sources
that are enabled are those that are needed. -/
theorem sources_enabled (h : (driver.guarded Clean).Reachable wa) (m : Nat) :
    let mcon := wa.moduleContexts m
    (∀ s < CtrDrvrInterruptSOURCES, mcon.interruptEnable.getLsbD s = true ↔
      mcon.hardClients s ≠ 0 ∨ ∃ i < CtrDrvrRamTableSIZE,
        (mcon.trigs i).counter.toNat = s ∧ mcon.clients i ≠ 0) ∧
    mcon.map mapInterruptEnable = mcon.interruptEnable := by
  have harmed := (accounted_invariant.reachable h).armed m
  exact ⟨harmed.enabled, harmed.register⟩

theorem leavesClean_shared {behind : Behind} {slots : List Nat} {c : Nat}
    (h : ∀ i ∈ slots, i < CtrDrvrRamTableSIZE ∧ mcon.clients i &&& ~~~clientMask c ≠ 0) :
    mcon.LeavesClean behind slots false c := by
  intro s _
  constructor
  · intro hothers hleaves
    rcases hleaves with ⟨hraw, -⟩ | ⟨i, hi, hcounter, -⟩
    · cases hraw
    · exact absurd (.inr ⟨i, (h i hi).1, hcounter, (h i hi).2⟩) hothers
  · intro _ hraw
    cases hraw

end

def sharedEvents : List Event :=
  [.opens 0, .opens 1, .ioctl 0 (.createPtim ⟨7, 0, 1, 1, 0⟩) fun _ _ => 0,
    .ioctl 0 (.connect ⟨1, .PTIM, 7⟩) fun _ _ => 0,
    .ioctl 1 (.connect ⟨1, .PTIM, 7⟩) fun _ _ => 0,
    .ioctl 0 (.disconnect ⟨1, .PTIM, 7⟩) fun _ _ => 0]

/-- The source stays enabled for the other client. -/
theorem sources_enabled_shared : ∃ wa : WorkingArea,
    (wa.moduleContexts 0).clients 0 = clientMask 1 ∧
      let mcon := wa.moduleContexts 0
      (∀ s < CtrDrvrInterruptSOURCES, mcon.interruptEnable.getLsbD s = true ↔
        mcon.hardClients s ≠ 0 ∨ ∃ i < CtrDrvrRamTableSIZE,
          (mcon.trigs i).counter.toNat = s ∧ mcon.clients i ≠ 0) ∧
      mcon.map mapInterruptEnable = mcon.interruptEnable := by
  have hruns : (oneModule.run Clean (sharedEvents.take 5)).any (fun wa =>
      ((wa.moduleContexts 0).matching 7 .PTIM).all (fun i =>
        (wa.moduleContexts 0).clients i &&& ~~~clientMask 0 ≠ 0) ∧
      (wa.next (.ioctl 0 (.disconnect ⟨1, .PTIM, 7⟩) fun _ _ => 0)).any (fun wa' =>
        (wa'.moduleContexts 0).clients 0 = clientMask 1)) = true := by
    decide +kernel
  obtain ⟨wa, hrun, hshared, hleft⟩ := exists_run hruns
  obtain ⟨wa', hnext, hclients⟩ := (Option.any_eq_true _ _).mp hleft
  have hclean : Clean wa (.ioctl 0 (.disconnect ⟨1, .PTIM, 7⟩) fun _ _ => 0) :=
    leavesClean_shared fun i hi =>
      ⟨(mem_matching.mp hi).1, of_decide_eq_true (List.all_eq_true.mp hshared i hi)⟩
  have hwa : (driver.guarded Clean).Reachable wa := .run (.init oneModule_installed) (run_run hrun)
  exact ⟨wa', of_decide_eq_true hclients, sources_enabled (hwa.step ⟨hclean, trivial, hnext⟩) 0⟩

/-- A client connects to source 1 and to a PTIM object on counter 1, and leaves
the object. -/
def keptEvents : List Event :=
  [.opens 0, .ioctl 0 (.createPtim ⟨7, 0, 1, 1, 0⟩) fun _ _ => 0,
    .ioctl 0 (.connect ⟨1, .HARD, 2⟩) fun _ _ => 0,
    .ioctl 0 (.connect ⟨1, .PTIM, 7⟩) fun _ _ => 0,
    .ioctl 0 (.disconnect ⟨1, .PTIM, 7⟩) fun _ _ => 0]

/-- The source that the client is still connected to is disabled. -/
theorem source_lost : ¬ ∀ wa : WorkingArea, driver.Reachable wa → ∀ m,
    let mcon := wa.moduleContexts m
    (∀ s < CtrDrvrInterruptSOURCES, mcon.interruptEnable.getLsbD s = true ↔
      mcon.hardClients s ≠ 0 ∨ ∃ i < CtrDrvrRamTableSIZE,
        (mcon.trigs i).counter.toNat = s ∧ mcon.clients i ≠ 0) ∧
    mcon.map mapInterruptEnable = mcon.interruptEnable := by
  intro h
  have hruns : (oneModule.run (fun _ _ => True) keptEvents).any (fun wa =>
      (wa.moduleContexts 0).hardClients 1 = clientMask 0 ∧
        (wa.moduleContexts 0).interruptEnable.getLsbD 1 = false) = true := by
    decide +kernel
  obtain ⟨wa, hrun, hclients, hdisabled⟩ := exists_run hruns
  have henabled := ((h wa (.run (.init oneModule_installed) (run_run hrun).of_guarded) 0).1 1
    (by decide)).mpr (.inl ?_)
  · rw [hdisabled] at henabled
    cases henabled
  · rw [hclients]
    decide

end Coht.Ctr
