import Coht.Timlib.Connecting
import Coht.Ctr.Clients

/-!
# Connecting with a payload

After `ctr_connect_payload()` the trigger of the CTIM has the payload that was asked
for. But it is the one trigger of all the clients of the CTIM on the module: those
that were connected before get the payload too, and no other frame any more. So
others are left alone where there are none, or where the trigger has the payload
already.
-/

namespace Coht.Timlib

open Coht.Lib Coht.Ctr Calls

/-- The frame that the module waits for in a slot. -/
def triggerFrame (mcon : ModuleContext) (i : Nat) : CtrDrvrEventFrame := ⟨mcon.map (mapTrigs i)⟩

/-- Client `d` is connected to the CTIM by slot `i`. -/
def Serves (mcon : ModuleContext) (ctim : U32) (d i : Nat) : Prop :=
  i ∈ mcon.matching ctim .CTIM ∧ mcon.At d i

/-- Client `c` has connected to the CTIM with a frame, and nothing has changed for the
others. -/
structure Undisturbed (mcon mcon' : ModuleContext) (ctim : U32) (c : Nat)
    (frame : CtrDrvrEventFrame) : Prop where
  clients : ∀ d, (∃ i, Serves mcon' ctim d i) ↔ (∃ i, Serves mcon ctim d i) ∨ d = c
  payload : ∀ i, Serves mcon' ctim c i → triggerFrame mcon' i = frame
  others : ∀ d i, d ≠ c → Serves mcon ctim d i →
    Serves mcon' ctim d i ∧ triggerFrame mcon' i = triggerFrame mcon i

/-- The slot the frame of which is set: the first one of class CTIM the trigger of which
names the CTIM, or the empty one that a new instance gets. -/
def target (mcon : ModuleContext) (ctim : U32) : Option Nat :=
  (List.range CtrDrvrRamTableSIZE).find? fun i =>
    Names mcon ctim i ∨ mcon.matching ctim .CTIM = [] ∧ mcon.emptySlot = some i

/-- Nobody else is served by the slot the frame of which is set, or it has the frame
already; the same frame is in every other slot by which the client is served; and an
empty slot that a new instance gets has no client. -/
structure Alone (mcon : ModuleContext) (ctim : U32) (c : Nat)
    (object frame : CtrDrvrEventFrame) : Prop where
  fresh : mcon.matching ctim .CTIM = [] → ∀ s, mcon.emptySlot = some s →
    (∀ d, mcon.At d s → d = c) ∧ (target mcon ctim ≠ some s → object = frame)
  own : ∀ i ∈ mcon.matching ctim .CTIM, target mcon ctim ≠ some i →
    (mcon.matching ctim .CTIM).head? = some i ∨ mcon.At c i → triggerFrame mcon i = frame
  others : ∀ i ∈ mcon.matching ctim .CTIM, target mcon ctim = some i →
    ∀ d, mcon.At d i → d ≠ c → triggerFrame mcon i = frame

section

variable {mcon mcon' : ModuleContext} {ctim : U32} {c d i j s : Nat}
  {frame : CtrDrvrEventFrame} {ctims : List CtrDrvrCtimBinding}

theorem serves_slot : Serves mcon ctim d i ↔ i < CtrDrvrRamTableSIZE ∧
    (mcon.slot i).eqpNum = ctim ∧ (mcon.slot i).eqpClass = .CTIM ∧
      (mcon.slot i).clients.getLsbD d = true := by
  unfold Serves
  rw [mem_matching]
  exact ⟨fun h => ⟨h.1.1, h.1.2.1, h.1.2.2, h.2⟩, fun h => ⟨⟨h.1, h.2.1, h.2.2.1⟩, h.2.2.2⟩⟩

/-! ## Setting the frame -/

theorem setAction_frame {act : CtrDrvrAction} (h : mcon.setAction act = .ok mcon')
    (hj : j < CtrDrvrRamTableSIZE) : triggerFrame mcon' j =
      if j + 1 = act.triggerNumber then act.trigger.frame else triggerFrame mcon j := by
  obtain ⟨i, hi, hnumber, -, -, heq⟩ := setAction_ok h
  have hwords : ∀ mcon₁ : ModuleContext, mcon₁.map = mcon.map →
      triggerFrame (mcon₁.writeAction i act) j =
        if j + 1 = act.triggerNumber then act.trigger.frame else triggerFrame mcon j := by
    intro mcon₁ hmap
    unfold triggerFrame
    by_cases hji : j = i
    · subst hji
      rw [if_pos hnumber.symm, (writeAction_words hj).1]
    · rw [if_neg (by omega), ← hmap]
      refine congrArg _ (writeAction_map fun k hk => ?_)
      exact ⟨(@mapTrigs_ne i j hji 0 k (by omega) hk).1,
        @mapTrigs_ne_configs _ _ hj 0 k (by omega)⟩
  split at heq
  · rw [heq]
    exact hwords mcon rfl
  · rw [heq]
    exact hwords _ rfl

theorem reframe_serves (h : mcon.setAction (reframe frame (mcon.action i)) = .ok mcon') :
    (∀ d j, Serves mcon' ctim d j ↔ Serves mcon ctim d j) ∧
      ∀ j < CtrDrvrRamTableSIZE,
        triggerFrame mcon' j = if j = i then frame else triggerFrame mcon j := by
  constructor
  · intro d j
    obtain ⟨i', -, hnumber, -, -, hchange⟩ := setAction_slot h
    have hi : i' = i := (Nat.add_right_cancel hnumber).symm
    subst hi
    rw [serves_slot, serves_slot, hchange j]
    split
    · next hj =>
      subst hj
      exact Iff.rfl
    · exact Iff.rfl
  · intro j hj
    rw [setAction_frame h hj]
    show (if j + 1 = i + 1 then frame else _) = _
    simp only [Nat.add_right_cancel_iff]

/-! ## Connecting -/

structure JoinsSlot (mcon mcon' : ModuleContext) (ctim : U32) (c s : Nat) : Prop where
  slot : (mcon.matching ctim .CTIM).head? = some s
  serves : ∀ d j, Serves mcon' ctim d j ↔ Serves mcon ctim d j ∨ d = c ∧ j = s
  frames : ∀ j < CtrDrvrRamTableSIZE, triggerFrame mcon' j = triggerFrame mcon j
  finds : scanFor mcon' ctim = target mcon ctim

structure FillsSlot (mcon mcon' : ModuleContext) (ctim : U32) (c s : Nat)
    (object : CtrDrvrEventFrame) : Prop where
  none : mcon.matching ctim .CTIM = []
  slot : mcon.emptySlot = some s
  serves : ∀ d j, Serves mcon' ctim d j ↔ (mcon.At d s ∨ d = c) ∧ j = s
  frames : ∀ j < CtrDrvrRamTableSIZE,
    triggerFrame mcon' j = if j = s then object else triggerFrame mcon j
  finds : scanFor mcon' ctim = target mcon ctim

theorem scanFor_congr {mcon₁ mcon₂ : ModuleContext}
    (h : ∀ i < CtrDrvrRamTableSIZE, Names mcon₁ ctim i ↔ Names mcon₂ ctim i ∨
      mcon₂.matching ctim .CTIM = [] ∧ mcon₂.emptySlot = some i) :
    scanFor mcon₁ ctim = target mcon₂ ctim := by
  unfold scanFor target
  rw [← List.head?_filter, ← List.head?_filter]
  refine congrArg List.head? (List.filter_congr fun i hi => ?_)
  exact decide_eq_decide.mpr (h i (List.mem_range.mp hi))

theorem mapTrigs_apart (hj : j < CtrDrvrRamTableSIZE) :
    mapTrigs j ≠ mapInterruptEnable ∧ mapTrigs j ≠ mapConfigs s ∧
      mapTrigs j ≠ mapConfigs s + 1 := by
  refine ⟨?_, @mapTrigs_ne_configs j s hj 0 0 (by omega),
    @mapTrigs_ne_configs j s hj 0 1 (by omega)⟩
  unfold mapTrigs mapInterruptEnable
  omega

theorem connectSlot_joins (hc : c < CtrDrvrCLIENT_CONTEXTS)
    (hhead : (mcon.matching ctim .CTIM).head? = some s)
    (heq : mcon' = (mcon.connectSlot c 1 s).enableInterrupts
      (mcon.connectSlot c 1 s).interruptEnable) : JoinsSlot mcon mcon' ctim c s := by
  obtain ⟨hs, hnum, hclass⟩ := head_matching hhead
  have hslot : ∀ j, mcon'.slot j =
      if j = s then (mcon.slot j).connect c else mcon.slot j := by
    intro j
    rw [heq, enableInterrupts_slot]
    exact connectSlot_slot mcon c 1 s j
  refine ⟨hhead, fun d j => ?_, fun j hj => ?_, scanFor_congr fun i hi => ?_⟩
  · rw [serves_slot, serves_slot, hslot]
    split
    · next hj =>
      subst hj
      constructor
      · intro ⟨hlt, hn, hk, hbit⟩
        rcases (connect_joins_slot hc).mp hbit with hold | heq
        · exact .inl ⟨hlt, hn, hk, hold⟩
        · exact .inr ⟨heq, rfl⟩
      · intro h
        refine ⟨hs, hnum, hclass, (connect_joins_slot hc).mpr ?_⟩
        rcases h with h | h
        · exact .inl h.2.2.2
        · exact .inr h.1
    · next hj => exact ⟨.inl, fun h => h.resolve_right fun hand => hj hand.2⟩
  · obtain ⟨hreg, hconfig, -⟩ := @mapTrigs_apart j s hj
    rw [heq]
    refine congrArg _ ((map_hWr_of_ne hreg).trans (map_hWr_of_ne hconfig))
  · have hsome : mcon.matching ctim .CTIM ≠ [] := by
      intro hnone
      rw [hnone] at hhead
      cases hhead
    rw [heq]
    exact ⟨.inl, fun h => h.resolve_right fun hand => hsome hand.1⟩

theorem fillCtim_map (hj : j < CtrDrvrRamTableSIZE) :
    (mcon.fillCtim ctim frame c s).map (mapTrigs j) =
      if j = s then frame.long else mcon.map (mapTrigs j) := by
  obtain ⟨-, hconfig, hdelay⟩ := @mapTrigs_apart j s hj
  refine (map_writeConfig hconfig hdelay).trans ?_
  split
  · next hjs =>
    rw [hjs]
    exact writeTrig_words.1
  · next hjs =>
    exact map_writeTrig (@mapTrigs_ne s j hjs 0 0 (by omega) (by omega)).1
      (@mapTrigs_ne s j hjs 0 1 (by omega) (by omega)).1

theorem fillCtim_fills (hc : c < CtrDrvrCLIENT_CONTEXTS)
    (hnone : mcon.matching ctim .CTIM = []) (hempty : mcon.emptySlot = some s)
    (heq : mcon' = (mcon.fillCtim ctim frame c s).enableInterrupts
      (mcon.fillCtim ctim frame c s).interruptEnable) :
    FillsSlot mcon mcon' ctim c s frame := by
  obtain ⟨hs, -⟩ := emptySlot_eq_some hempty
  have hslot : ∀ j, mcon'.slot j =
      if j = s then (mcon.slot j).fill ctim frame c else mcon.slot j := by
    intro j
    rw [heq, enableInterrupts_slot]
    exact fillCtim_slot hs j
  refine ⟨hnone, hempty, fun d j => ?_, fun j hj => ?_, scanFor_congr fun i hi => ?_⟩
  · rw [serves_slot, hslot]
    split
    · next hj =>
      subst hj
      constructor
      · intro h
        exact ⟨(connect_joins_slot hc).mp h.2.2.2, rfl⟩
      · intro h
        exact ⟨hs, rfl, rfl, (connect_joins_slot hc).mpr h.1⟩
    · next hj =>
      constructor
      · intro ⟨hlt, hnum, hclass, _⟩
        have hmem : j ∈ mcon.matching ctim .CTIM := mem_matching.mpr ⟨hlt, hnum, hclass⟩
        rw [hnone] at hmem
        cases hmem
      · intro h
        exact absurd h.2 hj
  · have hwords : mcon'.map (mapTrigs j) =
        if j = s then frame.long else mcon.map (mapTrigs j) := by
      rw [heq, ← @fillCtim_map mcon ctim c j s frame hj]
      exact map_hWr_of_ne (@mapTrigs_apart j s hj).1
    unfold triggerFrame
    rw [hwords]
    split
    · rfl
    · rfl
  · have hnames : Names mcon' ctim i ↔
        (mcon'.slot i).eqpClass = .CTIM ∧ (mcon'.slot i).trig.ctim = ctim := Iff.rfl
    rw [hnames, hslot]
    split
    · next his =>
      subst his
      exact ⟨fun _ => .inr ⟨hnone, hempty⟩, fun _ => ⟨rfl, rfl⟩⟩
    · next his =>
      refine ⟨.inl, fun h => h.resolve_right fun hand => his ?_⟩
      exact Option.some.inj (hand.2.symm.trans hempty)

theorem connectCtim_serves (hc : c < CtrDrvrCLIENT_CONTEXTS)
    (h : mcon.connectCtim ctims ctim c = .ok mcon') :
    ∃ s, JoinsSlot mcon mcon' ctim c s ∨
      FillsSlot mcon mcon' ctim c s (ModuleContext.ctimFrame ctims ctim) := by
  rcases connectCtim_ok h with ⟨s, hhead, heq⟩ | ⟨hnone, -, s, hempty, heq⟩
  · exact ⟨s, .inl (connectSlot_joins hc hhead heq)⟩
  · exact ⟨s, .inr (fillCtim_fills hc hnone hempty heq)⟩

/-! ## What it takes to leave the others alone -/

theorem Serves.lt (h : Serves mcon ctim d i) : i < CtrDrvrRamTableSIZE := (mem_matching.mp h.1).1

structure Reframed (mid mcon' : ModuleContext) (ctim : U32) (t : Nat)
    (frame : CtrDrvrEventFrame) : Prop where
  found : scanFor mid ctim = some t
  serves : ∀ d j, Serves mcon' ctim d j ↔ Serves mid ctim d j
  frames : ∀ j < CtrDrvrRamTableSIZE,
    triggerFrame mcon' j = if j = t then frame else triggerFrame mid j

variable {mid : ModuleContext} {t : Nat} {object : CtrDrvrEventFrame}

theorem JoinsSlot.undisturbed_iff (h : JoinsSlot mcon mid ctim c s)
    (hset : Reframed mid mcon' ctim t frame) :
    Undisturbed mcon mcon' ctim c frame ↔ Alone mcon ctim c object frame := by
  have htarget : target mcon ctim = some t := h.finds.symm.trans hset.found
  have hserves : ∀ d j, Serves mcon' ctim d j ↔ Serves mcon ctim d j ∨ d = c ∧ j = s :=
    fun d j => (hset.serves d j).trans (h.serves d j)
  have hs : s ∈ mcon.matching ctim .CTIM := List.mem_of_head? h.slot
  have hkept : ∀ j < CtrDrvrRamTableSIZE, j ≠ t →
      triggerFrame mcon' j = triggerFrame mcon j := by
    intro j hj hne
    rw [hset.frames j hj, if_neg hne, h.frames j hj]
  have hat : ∀ j < CtrDrvrRamTableSIZE, j = t → triggerFrame mcon' j = frame := by
    intro j hj heq
    rw [hset.frames j hj, if_pos heq]
  constructor
  · intro hund
    refine ⟨fun hnone => ?_, fun i hi hne hown => ?_, fun i hi heq d hd hne => ?_⟩
    · rw [hnone] at hs
      cases hs
    · have hlt := (mem_matching.mp hi).1
      have hserved : Serves mcon' ctim c i := by
        rcases hown with hhead | hc
        · exact (hserves c i).mpr (.inr ⟨rfl, Option.some.inj (hhead.symm.trans h.slot)⟩)
        · exact (hserves c i).mpr (.inl ⟨hi, hc⟩)
      rw [← hkept i hlt fun heq => hne (heq ▸ htarget)]
      exact hund.payload i hserved
    · have hlt := (mem_matching.mp hi).1
      rw [← (hund.others d i hne ⟨hi, hd⟩).2]
      exact hat i hlt (Option.some.inj (heq.symm.trans htarget))
  · intro halone
    refine ⟨fun d => ?_, fun i hserved => ?_, fun d i hne hserved => ?_⟩
    · constructor
      · intro ⟨i, hi⟩
        rcases (hserves d i).mp hi with hold | hnew
        · exact .inl ⟨i, hold⟩
        · exact .inr hnew.1
      · intro hor
        rcases hor with ⟨i, hi⟩ | hd
        · exact ⟨i, (hserves d i).mpr (.inl hi)⟩
        · exact ⟨s, (hserves d s).mpr (.inr ⟨hd, rfl⟩)⟩
    · have hown : i ∈ mcon.matching ctim .CTIM ∧
          ((mcon.matching ctim .CTIM).head? = some i ∨ mcon.At c i) := by
        rcases (hserves c i).mp hserved with hold | ⟨-, his⟩
        · exact ⟨hold.1, .inr hold.2⟩
        · rw [his]
          exact ⟨hs, .inl h.slot⟩
      by_cases hit : i = t
      · exact hat i hserved.lt hit
      · rw [hkept i hserved.lt hit]
        refine halone.own i hown.1 (fun heq => hit ?_) hown.2
        exact Option.some.inj (heq.symm.trans htarget)
    · refine ⟨(hserves d i).mpr (.inl hserved), ?_⟩
      by_cases hit : i = t
      · rw [hat i hserved.lt hit]
        exact (halone.others i hserved.1 (hit ▸ htarget) d hserved.2 hne).symm
      · exact hkept i hserved.lt hit

theorem FillsSlot.undisturbed_iff (h : FillsSlot mcon mid ctim c s object)
    (hset : Reframed mid mcon' ctim t frame) :
    Undisturbed mcon mcon' ctim c frame ↔ Alone mcon ctim c object frame := by
  have htarget : target mcon ctim = some t := h.finds.symm.trans hset.found
  have hserves : ∀ d j, Serves mcon' ctim d j ↔ (mcon.At d s ∨ d = c) ∧ j = s :=
    fun d j => (hset.serves d j).trans (h.serves d j)
  have hs : s < CtrDrvrRamTableSIZE := (emptySlot_eq_some h.slot).1
  have hframe : triggerFrame mcon' s = if s = t then frame else object := by
    rw [hset.frames s hs, h.frames s hs, if_pos rfl]
  have hnobody : ∀ d i, ¬ Serves mcon ctim d i := by
    intro d i hserved
    have hmem := hserved.1
    rw [h.none] at hmem
    cases hmem
  constructor
  · intro hund
    refine ⟨fun _ s' hempty => ?_, fun i hi => ?_, fun i hi => ?_⟩
    · have heq : s' = s := Option.some.inj (hempty.symm.trans h.slot)
      subst heq
      refine ⟨fun d hd => ?_, fun hne => ?_⟩
      · rcases (hund.clients d).mp ⟨s', (hserves d s').mpr ⟨.inl hd, rfl⟩⟩ with ⟨i, hi⟩ | hd
        · exact absurd hi (hnobody d i)
        · exact hd
      · have hst : s' ≠ t := fun heq => hne (heq ▸ htarget)
        have hpayload := hund.payload s' ((hserves c s').mpr ⟨.inr rfl, rfl⟩)
        rw [hframe, if_neg hst] at hpayload
        exact hpayload
    · rw [h.none] at hi
      cases hi
    · rw [h.none] at hi
      cases hi
  · intro halone
    obtain ⟨hclients, hobject⟩ := halone.fresh h.none s h.slot
    refine ⟨fun d => ?_, fun i hserved => ?_, fun d i _ hserved => absurd hserved (hnobody d i)⟩
    · constructor
      · intro ⟨i, hi⟩
        exact .inr (((hserves d i).mp hi).1.elim (hclients d) id)
      · intro hor
        rcases hor with ⟨i, hi⟩ | hd
        · exact absurd hi (hnobody d i)
        · exact ⟨s, (hserves d s).mpr ⟨.inr hd, rfl⟩⟩
    · rw [((hserves c i).mp hserved).2, hframe]
      split
      · rfl
      · next hst =>
        refine hobject fun heq => hst ?_
        exact Option.some.inj (heq.symm.trans htarget)

/-- A call that succeeds sets the payload and leaves the others alone if and only if
nobody else is served by the slot it sets, or the slot has the frame already. -/
theorem ctrConnectPayload_undisturbed {wa wa' : WorkingArea} {payload : U32}
    (h : ctrConnectPayload c ctim payload wa = .ok () wa') :
    ∃ obj, lookup (·.eqpNum) ctim wa.ctim = some obj ∧ wa'.selected c = wa.selected c ∧
      (Undisturbed (current c wa) (current c wa') ctim c (withPayload obj.frame payload) ↔
        Alone (current c wa) ctim c obj.frame (withPayload obj.frame payload)) := by
  unfold ctrConnectPayload at h
  obtain ⟨_, wa₁, hmod, h₁⟩ := bind_ok.mp h
  obtain ⟨huse, -, rfl⟩ := ctrGetModule_ok.mp hmod
  obtain ⟨ctimo, wa₂, hlist, h₂⟩ := bind_ok.mp h₁
  obtain ⟨⟨-, hctimo⟩, rfl⟩ := inquiry_ok.mp hlist
  cases hctimo
  obtain ⟨-, obj, mid, t, mcon', hobj, hconnect, htarget, hset, rfl⟩ := connectObjects_ok h₂
  refine ⟨obj, hobj, rfl, ?_⟩
  rw [edit_current]
  obtain ⟨hserves, hframes⟩ := @reframe_serves mid mcon' ctim t _ hset
  have hreframed : Reframed mid mcon' ctim t (withPayload obj.frame payload) :=
    ⟨htarget, hserves, hframes⟩
  have hobject : ModuleContext.ctimFrame wa₂.ctim ctim = obj.frame := by
    unfold ModuleContext.ctimFrame
    rw [show wa₂.ctim.find? _ = some obj from hobj]
    rfl
  obtain ⟨s, hjoins | hfills⟩ := connectCtim_serves huse.client hconnect
  · exact hjoins.undisturbed_iff hreframed
  · rw [hobject] at hfills
    exact hfills.undisturbed_iff hreframed

end

def frameAfter (c : Nat) (ctim payload : U32) (i : Nat) (wa : WorkingArea) :
    Option CtrDrvrEventFrame :=
  match ctrConnectPayload c ctim payload wa with
  | .ok () wa' => some (triggerFrame (current c wa') i)
  | .error .. => none

theorem frameAfter_some {c i : Nat} {ctim payload : U32} {wa : WorkingArea}
    {frame : CtrDrvrEventFrame} (h : frameAfter c ctim payload i wa = some frame) :
    ∃ wa', ctrConnectPayload c ctim payload wa = .ok () wa' ∧
      triggerFrame (current c wa') i = frame := by
  unfold frameAfter at h
  split at h
  · next wa' hconnect =>
    cases h
    exact ⟨wa', hconnect, rfl⟩
  · cases h

def wildcardEvents : List Event :=
  [.opens 0, .opens 1, .ioctl 0 (.createCtim ⟨5, ⟨0x0105FFFF⟩⟩) noMemory]

/-- A client that is alone on the CTIM gets the payload and disturbs nobody. -/
theorem ctrConnectPayload_undisturbed_alone : ∃ wa wa' : WorkingArea,
    ctrConnectPayload 1 5 100 wa = .ok () wa' ∧
      Undisturbed (current 1 wa) (current 1 wa') 5 1 ⟨0x01050064⟩ := by
  have hruns : (oneModule.run (fun _ _ => True) wildcardEvents).any (fun wa =>
      lookup (·.eqpNum) 5 wa.ctim = some ⟨5, ⟨0x0105FFFF⟩⟩ ∧
      (current 1 wa).matching 5 .CTIM = [] ∧ (current 1 wa).emptySlot = some 0 ∧
      (current 1 wa).clients 0 = 0 ∧ target (current 1 wa) 5 = some 0 ∧
      frameAfter 1 5 100 0 wa = some ⟨0x01050064⟩) = true := by decide +kernel
  obtain ⟨wa, -, hctim, hnone, hempty, hclients, htarget, hframe⟩ := exists_run hruns
  obtain ⟨wa', hconnect, -⟩ := frameAfter_some hframe
  obtain ⟨obj, hobj, -, hiff⟩ := ctrConnectPayload_undisturbed hconnect
  cases hctim.symm.trans hobj
  refine ⟨wa, wa', hconnect, hiff.mpr ⟨fun _ s hs => ?_, fun i hi => ?_, fun i hi => ?_⟩⟩
  · cases hempty.symm.trans hs
    refine ⟨fun d hd => ?_, fun hne => absurd htarget hne⟩
    unfold ModuleContext.At at hd
    rw [hclients] at hd
    exact absurd hd (by simp)
  · rw [hnone] at hi
    cases hi
  · rw [hnone] at hi
    cases hi

/-- The first client waits for all payloads, the second one for one of them; then the
first one gets no others either. -/
theorem not_ctrConnectPayload_undisturbed : ¬ ∀ (wa wa' : WorkingArea) (c : Nat)
    (ctim payload : U32) (obj : CtrDrvrCtimBinding), driver.Reachable wa →
    lookup (·.eqpNum) ctim wa.ctim = some obj →
    ctrConnectPayload c ctim payload wa = .ok () wa' →
    Undisturbed (current c wa) (current c wa') ctim c (withPayload obj.frame payload) := by
  intro h
  have hruns : (oneModule.run (fun _ _ => True)
      (wildcardEvents ++ [.ioctl 0 (.connect ⟨1, .CTIM, 5⟩) noMemory])).any (fun wa =>
      lookup (·.eqpNum) 5 wa.ctim = some ⟨5, ⟨0x0105FFFF⟩⟩ ∧
      0 ∈ (current 1 wa).matching 5 .CTIM ∧ ((current 1 wa).clients 0).getLsbD 0 = true ∧
      triggerFrame (current 1 wa) 0 = ⟨0x0105FFFF⟩ ∧
      frameAfter 1 5 100 0 wa = some ⟨0x01050064⟩) = true := by decide +kernel
  obtain ⟨wa, hrun, hctim, hmem, hclients, hbefore, hframe⟩ := exists_run hruns
  obtain ⟨wa', hconnect, hafter⟩ := frameAfter_some hframe
  have hreach : driver.Reachable wa := .run (.init oneModule_installed) (run_run hrun).of_guarded
  have hsame := ((h wa wa' 1 5 100 _ hreach hctim hconnect).others 0 0 (by decide)
    ⟨hmem, hclients⟩).2
  rw [hbefore, hafter] at hsame
  exact absurd hsame (by decide)

end Coht.Timlib
