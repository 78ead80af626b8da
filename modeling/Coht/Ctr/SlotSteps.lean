import Coht.Ctr.Slots

/-!
# What the commands do to the slots

`Slots` says what one visit of a loop does to the slot it is at. Here are the
loops and the commands: which slots of the table they visit, and that the
others are as before. Slots that a loop frees are still those it set out with.
-/

namespace Coht.Ctr

open Coht.Lib

section

variable {mcon mcon' : ModuleContext} {eqpNum : U32}
  {eqpClass : CtrDrvrConnectionClass} {i j c : Nat}

theorem mem_matching : i ∈ mcon.matching eqpNum eqpClass ↔
    i < CtrDrvrRamTableSIZE ∧ mcon.eqpNum i = eqpNum ∧ mcon.eqpClass i = eqpClass := by
  simp [ModuleContext.matching]

theorem matching_nodup : (mcon.matching eqpNum eqpClass).Nodup :=
  List.nodup_range.filter _

theorem mem_occupied : i ∈ mcon.occupied ↔
    i < CtrDrvrRamTableSIZE ∧ mcon.eqpNum i ≠ 0 := by
  simp [ModuleContext.occupied]

theorem occupied_nodup : mcon.occupied.Nodup :=
  List.nodup_range.filter _

theorem foldl_slot {visit : ModuleContext → Nat → ModuleContext} {f : Slot → Slot}
    {slots : List Nat} (h : ∀ mcon, ∀ i ∈ slots, Changes mcon (visit mcon i) i f)
    (hnodup : slots.Nodup) (j : Nat) :
    (slots.foldl visit mcon).slot j =
      if j ∈ slots then f (mcon.slot j) else mcon.slot j := by
  have hsep : Separate visit ModuleContext.slot slots := by
    intro mcon i hi j hj
    rw [h mcon i hi j, if_neg hj]
  have hlocal : Local visit ModuleContext.slot slots := by
    intro mcon mcon' i hi heq
    rw [h mcon i hi i, h mcon' i hi i, if_pos rfl, if_pos rfl, heq]
  by_cases hj : j ∈ slots
  · rw [if_pos hj, foldl_visit hsep hlocal hnodup hj, h mcon j hj j, if_pos rfl]
  · rw [if_neg hj, foldl_not_mem hsep hj]

theorem enableInterrupts_slot {msk : U32} :
    (mcon.enableInterrupts msk).slot j = mcon.slot j :=
  slot_congr rfl rfl rfl rfl (map_hWr_of_ne (Ne.symm mapInterruptEnable_ne.1))

/-! ## Connect -/

theorem connectPtim_slot (h : mcon.connectPtim eqpNum c = .ok mcon') (j : Nat) :
    mcon'.slot j = if j ∈ mcon.matching eqpNum .PTIM then (mcon.slot j).connect c
      else mcon.slot j := by
  unfold ModuleContext.connectPtim at h
  dsimp only at h
  split at h
  · cases h
  · rw [← Except.ok.inj h, enableInterrupts_slot]
    exact foldl_slot (fun mcon i _ => connectSlot_slot mcon c _ i) matching_nodup j

theorem connectCtim_ok {ctim : List CtrDrvrCtimBinding}
    (h : mcon.connectCtim ctim eqpNum c = .ok mcon') :
    (∃ i, (mcon.matching eqpNum .CTIM).head? = some i ∧
      mcon' = (mcon.connectSlot c 1 i).enableInterrupts
        (mcon.connectSlot c 1 i).interruptEnable) ∨
    (mcon.matching eqpNum .CTIM = [] ∧
      (ModuleContext.ctimFrame ctim eqpNum).header ≠ 0 ∧
      ∃ i, mcon.emptySlot = some i ∧
        let filled := mcon.fillCtim eqpNum (ModuleContext.ctimFrame ctim eqpNum) c i
        mcon' = filled.enableInterrupts filled.interruptEnable) := by
  unfold ModuleContext.connectCtim at h
  split at h
  · next i hhead =>
    exact .inl ⟨i, hhead, (Except.ok.inj h).symm⟩
  next hnone =>
  dsimp only at h
  split at h
  · cases h
  next hheader =>
  split at h
  · cases h
  next i hempty =>
  exact .inr ⟨List.head?_eq_none_iff.mp hnone, hheader, i, hempty,
    (Except.ok.inj h).symm⟩

theorem emptySlot_eq_some (h : mcon.emptySlot = some i) :
    i < CtrDrvrRamTableSIZE ∧ mcon.eqpNum i = 0 := by
  have hmem := List.mem_of_find?_eq_some h
  have hzero := List.find?_some h
  exact ⟨List.mem_range.mp hmem, of_decide_eq_true hzero⟩

theorem head_matching (h : (mcon.matching eqpNum eqpClass).head? = some i) :
    i < CtrDrvrRamTableSIZE ∧ mcon.eqpNum i = eqpNum ∧ mcon.eqpClass i = eqpClass :=
  mem_matching.mp (List.mem_of_head? h)

theorem connectCtim_slot {ctim : List CtrDrvrCtimBinding}
    (h : mcon.connectCtim ctim eqpNum c = .ok mcon') : ∃ i < CtrDrvrRamTableSIZE,
      (mcon.eqpNum i = eqpNum ∧ mcon.eqpClass i = .CTIM ∧
        Changes mcon mcon' i (Slot.connect c)) ∨
      (mcon.matching eqpNum .CTIM = [] ∧ mcon.emptySlot = some i ∧
        Changes mcon mcon' i
          (Slot.fill eqpNum (ModuleContext.ctimFrame ctim eqpNum) c)) := by
  rcases connectCtim_ok h with ⟨i, hhead, heq⟩ | ⟨hnone, -, i, hempty, heq⟩
  · obtain ⟨hi, hnum, hclass⟩ := head_matching hhead
    refine ⟨i, hi, .inl ⟨hnum, hclass, fun j => ?_⟩⟩
    rw [heq, enableInterrupts_slot]
    exact connectSlot_slot mcon c 1 i j
  · obtain ⟨hi, -⟩ := emptySlot_eq_some hempty
    refine ⟨i, hi, .inr ⟨hnone, hempty, fun j => ?_⟩⟩
    dsimp only at heq
    rw [heq, enableInterrupts_slot]
    exact fillCtim_slot hi j

theorem connectHard_slot (h : mcon.connectHard eqpNum c = .ok mcon') (j : Nat) :
    mcon'.slot j = mcon.slot j := by
  unfold ModuleContext.connectHard at h
  dsimp only at h
  split at h
  · cases h
  · rw [← Except.ok.inj h, enableInterrupts_slot]
    exact foldl_keeps (P := fun m : ModuleContext => m.slot j = mcon.slot j)
      (fun m i _ heq => heq) rfl

inductive Connects (wa : WorkingArea) (conx : CtrDrvrConnection) (c : Nat) :
    Nat → ModuleContext → Prop
  | ptim {midx : Nat} {mcon : ModuleContext} : conx.eqpClass = .PTIM →
      wa.getPtimModule conx.eqpNum = some midx →
      (wa.moduleContexts midx).connectPtim conx.eqpNum c = .ok mcon →
      Connects wa conx c midx mcon
  | ctim {mcon : ModuleContext} : conx.eqpClass = .CTIM →
      (wa.moduleContexts (connectModule wa conx c)).connectCtim wa.ctim conx.eqpNum c =
        .ok mcon →
      Connects wa conx c (connectModule wa conx c) mcon
  | hard {mcon : ModuleContext} : conx.eqpClass ≠ .PTIM → conx.eqpClass ≠ .CTIM →
      (wa.moduleContexts (connectModule wa conx c)).connectHard conx.eqpNum c =
        .ok mcon →
      Connects wa conx c (connectModule wa conx c) mcon

theorem map_ok {result : Except Errno ModuleContext} {midx midx' : Nat}
    (h : result.map (midx, ·) = .ok (midx', mcon')) :
    midx' = midx ∧ result = .ok mcon' := by
  cases result with
  | error err => cases h
  | ok mcon =>
    cases h
    exact ⟨rfl, rfl⟩

theorem connect_ok {wa : WorkingArea} {conx : CtrDrvrConnection} {midx : Nat}
    (h : connect wa conx c = .ok (midx, mcon')) : Connects wa conx c midx mcon' := by
  unfold connect at h
  dsimp only at h
  split at h
  · next hclass =>
    split at h
    · cases h
    · next midx' hmodule =>
      obtain ⟨rfl, hconnect⟩ := map_ok h
      exact .ptim hclass hmodule hconnect
  · next hclass =>
    obtain ⟨rfl, hconnect⟩ := map_ok h
    exact .ctim hclass hconnect
  · next hclass =>
    obtain ⟨rfl, hconnect⟩ := map_ok h
    exact .hard (by rw [hclass]; decide) (by rw [hclass]; decide) hconnect
  · next n hclass =>
    obtain ⟨rfl, hconnect⟩ := map_ok h
    exact .hard (by rw [hclass]; simp) (by rw [hclass]; simp) hconnect

/-! ## Disconnect -/

variable {behind : Behind}

theorem disConnectSource_slot : (mcon.disConnectSource behind c i).slot j =
    mcon.slot j := by
  unfold ModuleContext.disConnectSource
  dsimp only
  split
  · rfl
  split
  · rfl
  · exact disableInterrupts_slot

theorem disConnectSources_slot : (mcon.disConnectSources behind c).slot j =
    mcon.slot j := by
  unfold ModuleContext.disConnectSources
  refine foldl_keeps (P := fun m : ModuleContext => m.slot j = mcon.slot j)
    (fun m i _ heq => ?_) rfl
  show (m.disConnectSource behind c i).slot j = mcon.slot j
  rw [disConnectSource_slot, heq]

theorem disConnect_slot (hclass : eqpClass ≠ .HARD) (j : Nat) :
    (mcon.disConnect behind eqpNum eqpClass c).slot j =
      if j ∈ mcon.matching eqpNum eqpClass then (mcon.slot j).disConnectAs eqpClass c
      else mcon.slot j := by
  unfold ModuleContext.disConnect
  rw [if_pos hclass]
  exact foldl_slot
    (fun mcon i hi => disConnectOne_slot (mem_matching.mp hi).1 hclass)
    matching_nodup j

theorem disConnect_hard_slot (j : Nat) :
    (mcon.disConnect behind eqpNum .HARD c).slot j = mcon.slot j := by
  unfold ModuleContext.disConnect
  rw [if_neg (by simp)]
  exact disConnectSources_slot

theorem disConnectOwn_slot (hi : i < CtrDrvrRamTableSIZE) :
    Changes mcon (mcon.disConnectOne behind (mcon.eqpClass i) c i) i
      fun s => s.disConnectAs s.eqpClass c := by
  intro j
  by_cases hclass : mcon.eqpClass i = .HARD
  · rw [hclass]
    refine (disConnectSource_slot (i := i)).trans ?_
    split
    · next heq =>
      have hslot : (mcon.slot j).eqpClass = .HARD := heq ▸ hclass
      show mcon.slot j = (mcon.slot j).disConnectAs (mcon.slot j).eqpClass c
      rw [hslot]
      rfl
    · rfl
  · refine (disConnectOne_slot hi hclass j).trans ?_
    split
    · next heq =>
      have hslot : (mcon.slot j).eqpClass = mcon.eqpClass i := heq ▸ rfl
      show _ = (mcon.slot j).disConnectAs (mcon.slot j).eqpClass c
      rw [hslot]
    · rfl

theorem disConnectModule_slot (j : Nat) :
    (mcon.disConnectModule behind c).slot j =
      if j ∈ mcon.occupied then (mcon.slot j).disConnectAs (mcon.eqpClass j) c
      else mcon.slot j := by
  unfold ModuleContext.disConnectModule
  dsimp only
  rw [disConnectSources_slot]
  exact foldl_slot (fun mcon i hi => disConnectOwn_slot (mem_occupied.mp hi).1)
    occupied_nodup j

/-! ## Actions and objects -/

theorem not_refuses {act : CtrDrvrAction} (h : ¬ mcon.refusesAction i act)
    (hne : mcon.eqpNum i ≠ 0) : mcon.eqpNum i = act.eqpNum ∧
      mcon.eqpClass i = act.eqpClass ∧ (mcon.trigs i).counter = act.trigger.counter := by
  refine ⟨?_, ?_, ?_⟩
  · exact Decidable.byContradiction fun hnum => h ⟨hne, .inl hnum⟩
  · exact Decidable.byContradiction fun hclass => h ⟨hne, .inr (.inl hclass)⟩
  · exact Decidable.byContradiction fun hcounter => h ⟨hne, .inr (.inr hcounter)⟩

theorem setAction_ok {act : CtrDrvrAction} (h : mcon.setAction act = .ok mcon') :
    ∃ i < CtrDrvrRamTableSIZE, act.triggerNumber = i + 1 ∧
      mcon.eqpClass i ≠ .HARD ∧ ¬ mcon.refusesAction i act ∧
      mcon' = if mcon.eqpNum i ≠ 0 then mcon.writeAction i act
        else (mcon.claimAction i act).writeAction i act := by
  unfold ModuleContext.setAction at h
  dsimp only at h
  split at h
  · cases h
  next hrange =>
  split at h
  · cases h
  next hclass =>
  split at h
  · cases h
  next hrefuses =>
  refine ⟨act.triggerNumber - 1, by omega, by omega, hclass, hrefuses, ?_⟩
  split at h
  · next hne => rw [if_pos hne, Except.ok.inj h]
  · next hzero => rw [if_neg hzero, Except.ok.inj h]

theorem claimAction_slot {act : CtrDrvrAction} : Changes mcon (mcon.claimAction i act) i
    fun s => { s with
      eqpNum := act.eqpNum
      eqpClass := act.eqpClass
      trig := { s.trig with counter := act.trigger.counter } } := by
  refine changes_intro ?_ fun j hj => ?_
  · simp [ModuleContext.slot, ModuleContext.claimAction]
  · exact slot_congr (Function.update_of_ne hj _ _) (Function.update_of_ne hj _ _) rfl
      (Function.update_of_ne hj _ _) rfl

theorem setAction_slot {act : CtrDrvrAction} (h : mcon.setAction act = .ok mcon') :
    ∃ i < CtrDrvrRamTableSIZE, act.triggerNumber = i + 1 ∧ mcon.eqpClass i ≠ .HARD ∧
      (mcon.eqpNum i = 0 ∨ (mcon.eqpNum i = act.eqpNum ∧
        mcon.eqpClass i = act.eqpClass ∧
        (mcon.trigs i).counter = act.trigger.counter)) ∧
      Changes mcon mcon' i (Slot.act act) := by
  obtain ⟨i, hi, hnumber, hclass, hrefuses, heq⟩ := setAction_ok h
  refine ⟨i, hi, hnumber, hclass, ?_, fun j => ?_⟩
  · by_cases hzero : mcon.eqpNum i = 0
    · exact .inl hzero
    · exact .inr (not_refuses hrefuses hzero)
  · split at heq
    · next hne =>
      obtain ⟨hnum, hsame, -⟩ := not_refuses hrefuses hne
      rw [heq, writeAction_slot hi j]
      split
      · next hj =>
        subst hj
        unfold Slot.act
        rw [← hnum, ← hsame]
        rfl
      · rfl
    · rw [heq, writeAction_slot hi j, claimAction_slot j]
      split
      · rfl
      · rfl

theorem claimPtims_slot {counter : U32} {start size : Nat} (j : Nat) :
    ((List.range' start size).foldl
      (fun mcon i => mcon.claimPtim eqpNum counter i) mcon).slot j =
      if start ≤ j ∧ j < start + size then (mcon.slot j).claim eqpNum counter
      else mcon.slot j := by
  rw [foldl_slot (fun _ _ _ => claimPtim_slot) List.nodup_range']
  simp only [List.mem_range'_1]

theorem clearPtims_slot {eqpClass : CtrDrvrConnectionClass} (j : Nat) :
    ((mcon.matching eqpNum eqpClass).foldl (fun mcon i => mcon.clearPtim i) mcon).slot j =
      if j ∈ mcon.matching eqpNum eqpClass then (mcon.slot j).clear else mcon.slot j :=
  foldl_slot (fun _ _ hi => clearPtim_slot (mem_matching.mp hi).1) matching_nodup j

theorem createCtim_ok {wa wa' : WorkingArea} {ctim : CtrDrvrCtimBinding}
    (h : createCtim wa ctim = .ok wa') :
    lookup (·.eqpNum) ctim.eqpNum wa.ctim = none ∧
      wa' = { wa with ctim := wa.ctim ++ [ctim] } := by
  unfold createCtim at h
  split at h
  · cases h
  next hnew =>
  split at h
  · exact ⟨by simpa using hnew, (Except.ok.inj h).symm⟩
  · cases h

theorem destroyCtim_ok {wa wa' : WorkingArea} {midx : Nat} {ctim : CtrDrvrCtimBinding}
    (h : destroyCtim wa midx ctim = .ok wa') :
    (∃ obj, lookup (·.eqpNum) ctim.eqpNum wa.ctim = some obj) ∧
      wa' = { wa with ctim := swapRemove (·.eqpNum) ctim.eqpNum wa.ctim } := by
  unfold destroyCtim at h
  split at h
  · cases h
  next obj hobj =>
  split at h
  · cases h
  · exact ⟨⟨obj, hobj⟩, (Except.ok.inj h).symm⟩

theorem changeCtimFrame_ok {wa wa' : WorkingArea} {midx : Nat}
    {ctim : CtrDrvrCtimBinding} (h : changeCtimFrame wa midx ctim = .ok wa') :
    (∃ obj, lookup (·.eqpNum) ctim.eqpNum wa.ctim = some obj) ∧
      wa' = { wa with
        ctim := alter (·.eqpNum) ctim.eqpNum
          (fun obj => { obj with frame := ctim.frame }) wa.ctim } := by
  unfold changeCtimFrame at h
  split at h
  · cases h
  next obj hobj =>
  split at h
  · cases h
  · exact ⟨⟨obj, hobj⟩, (Except.ok.inj h).symm⟩

theorem createPtim_ok {wa wa' : WorkingArea} {ptim : CtrDrvrPtimBinding}
    (h : createPtim wa ptim = .ok wa') :
    lookup (·.eqpNum) ptim.eqpNum wa.ptim = none ∧
      wa.ptim.length < CtrDrvrPtimOBJECTS ∧ ptim.moduleIndex < wa.modules ∧
      let mcon := wa.moduleContexts ptim.moduleIndex
      let found := mcon.ptimSlots ptim.size
      found.count ≠ 0 ∧ ptim.size ≤ found.count ∧
        wa' = { wa.setModule ptim.moduleIndex ((List.range' found.start ptim.size).foldl
            (fun mcon i => mcon.claimPtim ptim.eqpNum ptim.counter i) mcon) with
          ptim := wa.ptim ++ [{ ptim with startIndex := found.start }] } := by
  unfold createPtim at h
  dsimp only at h
  split at h
  · cases h
  next hnew =>
  split at h
  · cases h
  next hroom =>
  split at h
  · next hmodule =>
    split at h
    · next hfound =>
      refine ⟨by simpa using hnew, by omega, hmodule, hfound.1, hfound.2, ?_⟩
      exact (Except.ok.inj h).symm
    · cases h
  · cases h

theorem destroyPtim_ok {wa wa' : WorkingArea} {ptim : CtrDrvrPtimBinding}
    (h : destroyPtim wa ptim = .ok wa') :
    ptim.moduleIndex < wa.modules ∧
      let mcon := wa.moduleContexts ptim.moduleIndex
      let slots := mcon.matching ptim.eqpNum .PTIM
      (∀ i ∈ slots, mcon.clients i = 0) ∧ slots ≠ [] ∧
        wa' = { wa.setModule ptim.moduleIndex
            (slots.foldl (fun mcon i => mcon.clearPtim i) mcon) with
          ptim := swapRemove (·.eqpNum) ptim.eqpNum wa.ptim } := by
  unfold destroyPtim at h
  dsimp only at h
  split at h
  · next hmodule =>
    split at h
    · cases h
    next hbusy =>
    split at h
    · cases h
    next hsome =>
    exact ⟨hmodule, by simpa using hbusy, hsome, (Except.ok.inj h).symm⟩
  · cases h

/-! ## Steps

What one step may do to one slot, with what it has tested of that slot. -/

/-- `CtrDrvrRAW_WRITE` -/
def Event.rawWrites : Event → Bool
  | .ioctl _ (.control (.rawWrite ..)) _ => true
  | _ => false

inductive SlotChange (wa : WorkingArea) (m i : Nat) (s : Slot) : Event → Slot → Prop
  | same {e : Event} : SlotChange wa m i s e s
  | connects {c : Nat} {conx : CtrDrvrConnection} {behind : Nat → Behind} :
      c < CtrDrvrCLIENT_CONTEXTS → s.eqpNum = conx.eqpNum → s.eqpClass = conx.eqpClass →
      s.eqpClass = .CTIM ∨ s.eqpClass = .PTIM →
      SlotChange wa m i s (.ioctl c (.connect conx) behind) (s.connect c)
  | fills {c : Nat} {conx : CtrDrvrConnection} {behind : Nat → Behind}
      {frame : CtrDrvrEventFrame} : c < CtrDrvrCLIENT_CONTEXTS → s.eqpNum = 0 →
      conx.eqpClass = .CTIM →
      (wa.moduleContexts m).emptySlot = some i →
      (wa.moduleContexts m).matching conx.eqpNum .CTIM = [] → frame.header ≠ 0 →
      frame = ModuleContext.ctimFrame wa.ctim conx.eqpNum →
      SlotChange wa m i s (.ioctl c (.connect conx) behind)
        (s.fill conx.eqpNum frame c)
  | disconnects {c : Nat} {conx : CtrDrvrConnection} {behind : Nat → Behind} :
      s.eqpNum = conx.eqpNum → s.eqpClass = conx.eqpClass → conx.eqpNum ≠ 0 →
      SlotChange wa m i s (.ioctl c (.disconnect conx) behind)
        (s.disConnectAs s.eqpClass c)
  | leaves {c : Nat} {conx : CtrDrvrConnection} {behind : Nat → Behind} :
      s.eqpNum ≠ 0 → conx.eqpNum = 0 →
      SlotChange wa m i s (.ioctl c (.disconnect conx) behind)
        (s.disConnectAs s.eqpClass c)
  | closes {c : Nat} {behind : Nat → Behind} : s.eqpNum ≠ 0 →
      SlotChange wa m i s (.closes c behind) (s.disConnectAs s.eqpClass c)
  | acts {c : Nat} {act : CtrDrvrAction} {behind : Nat → Behind} :
      wa.selected c = m → act.triggerNumber = i + 1 → s.eqpClass ≠ .HARD →
      s.eqpNum = 0 ∨ (s.eqpNum = act.eqpNum ∧ s.eqpClass = act.eqpClass ∧
        s.trig.counter = act.trigger.counter) →
      SlotChange wa m i s (.ioctl c (.setAction act) behind) (s.act act)
  | claims {c : Nat} {ptim : CtrDrvrPtimBinding} {behind : Nat → Behind} :
      s.eqpNum = 0 → ptim.moduleIndex = m →
      SlotChange wa m i s (.ioctl c (.createPtim ptim) behind)
        (s.claim ptim.eqpNum ptim.counter)
  | clears {c : Nat} {ptim : CtrDrvrPtimBinding} {behind : Nat → Behind} :
      s.eqpNum = ptim.eqpNum → s.eqpClass = .PTIM → s.clients = 0 →
      ptim.moduleIndex = m →
      SlotChange wa m i s (.ioctl c (.destroyPtim ptim) behind) s.clear
  | writes {e : Event} {config : U32} : e.rawWrites = true →
      SlotChange wa m i s e { s with config := config }

variable {wa wa' : WorkingArea} {e : Event} {m : Nat}

theorem SameTables.slot (h : SameTables mcon mcon') (i : Nat) : mcon'.slot i =
    { mcon.slot i with config := mcon'.map (mapConfigs i) } := by
  unfold ModuleContext.slot
  rw [h.eqpNum, h.eqpClass, h.clients, h.trigs]

theorem mapConfigs_apart (hi : i < CtrDrvrRamTableSIZE) :
    mapConfigs i ≠ mapInterruptEnable ∧ ¬ ControlWord (mapConfigs i) := by
  unfold ControlWord mapConfigs mapInterruptEnable mapTrigs mapSetup
  unfold CtrDrvrRamTableSIZE at hi
  omega

theorem Quiet.slot (h : Quiet mcon mcon') (hi : i < CtrDrvrRamTableSIZE) :
    mcon'.slot i = mcon.slot i := by
  obtain ⟨hne, hword⟩ := mapConfigs_apart hi
  rw [h.toSameTables.slot, h.words _ hne hword]
  rfl

theorem ptimSlots_spec {size : Nat} (hsize : 0 < size)
    (hfound : (mcon.ptimSlots size).count ≠ 0)
    (hfits : size ≤ (mcon.ptimSlots size).count) :
    (mcon.ptimSlots size).start + size ≤ CtrDrvrRamTableSIZE ∧
      ∀ i, (mcon.ptimSlots size).start ≤ i → i < (mcon.ptimSlots size).start + size →
        mcon.eqpNum i = 0 := by
  have hspec := search_spec (fun i => decide (mcon.eqpNum i = 0)) 0 hsize
    (show 0 < CtrDrvrRamTableSIZE by decide)
  rcases hspec with ⟨hnone, -⟩ | hrun
  · exact absurd hnone hfound
  · have hhigh : (mcon.ptimSlots size).start + (mcon.ptimSlots size).count ≤
        0 + CtrDrvrRamTableSIZE := hrun.high
    refine ⟨by omega, fun i hlow hlt => ?_⟩
    have hfree := hrun.run i hlow
      (show i < (mcon.ptimSlots size).start + (mcon.ptimSlots size).count by omega)
    exact of_decide_eq_true hfree

theorem createPtim_slot {ptim : CtrDrvrPtimBinding} (h : createPtim wa ptim = .ok wa')
    (m i : Nat) : (wa'.moduleContexts m).slot i =
      let start := ((wa.moduleContexts ptim.moduleIndex).ptimSlots ptim.size).start
      if ptim.moduleIndex = m ∧ start ≤ i ∧ i < start + ptim.size then
        ((wa.moduleContexts m).slot i).claim ptim.eqpNum ptim.counter
      else (wa.moduleContexts m).slot i := by
  obtain ⟨-, -, -, hfound⟩ := createPtim_ok h
  dsimp only at hfound ⊢
  obtain ⟨-, -, heq⟩ := hfound
  rw [heq]
  by_cases hm : ptim.moduleIndex = m
  · subst hm
    show (Function.update wa.moduleContexts ptim.moduleIndex _ ptim.moduleIndex).slot i = _
    rw [Function.update_self, claimPtims_slot]
    simp
  · show (Function.update wa.moduleContexts ptim.moduleIndex _ m).slot i = _
    rw [Function.update_of_ne (Ne.symm hm), if_neg fun hand => hm hand.1]

theorem destroyPtim_slot {ptim : CtrDrvrPtimBinding} (h : destroyPtim wa ptim = .ok wa')
    (m i : Nat) : (wa'.moduleContexts m).slot i =
      if ptim.moduleIndex = m ∧
          i ∈ (wa.moduleContexts m).matching ptim.eqpNum .PTIM then
        ((wa.moduleContexts m).slot i).clear
      else (wa.moduleContexts m).slot i := by
  obtain ⟨-, hslots⟩ := destroyPtim_ok h
  dsimp only at hslots
  obtain ⟨-, -, heq⟩ := hslots
  rw [heq]
  by_cases hm : ptim.moduleIndex = m
  · subst hm
    show (Function.update wa.moduleContexts ptim.moduleIndex _ ptim.moduleIndex).slot i = _
    rw [Function.update_self, clearPtims_slot]
    simp
  · show (Function.update wa.moduleContexts ptim.moduleIndex _ m).slot i = _
    rw [Function.update_of_ne (Ne.symm hm), if_neg fun hand => hm hand.1]

theorem disConnectAll_slot {behind : Nat → Behind} (m i : Nat) :
    ((disConnectAll wa behind c).moduleContexts m).slot i =
      if m < wa.modules ∧ i ∈ (wa.moduleContexts m).occupied then
        ((wa.moduleContexts m).slot i).disConnectAs ((wa.moduleContexts m).eqpClass i) c
      else (wa.moduleContexts m).slot i := by
  unfold disConnectAll
  dsimp only
  by_cases hm : m < wa.modules
  · rw [if_pos hm, disConnectModule_slot]
    simp only [hm, true_and]
  · rw [if_neg hm, if_neg fun hand => hm hand.1]

theorem Installed.context (h : Installed wa) (m : Nat) : wa.moduleContexts m =
    { inUse := (wa.moduleContexts m).inUse, map := (wa.moduleContexts m).map } :=
  congrArg (fun wa => wa.moduleContexts m) h.fresh

theorem Installed.slot (h : Installed wa) (m i : Nat) : (wa.moduleContexts m).slot i =
    { eqpNum := 0, eqpClass := .HARD, clients := 0, trig := {},
      config := (wa.moduleContexts m).map (mapConfigs i) } :=
  congrArg (fun mcon => mcon.slot i) (h.context m)

theorem OneModule.slotChange {midx : Nat} (h : OneModule wa wa' midx mcon')
    (hat : midx = m → SlotChange wa m i ((wa.moduleContexts m).slot i) e (mcon'.slot i)) :
    SlotChange wa m i ((wa.moduleContexts m).slot i) e
      ((wa'.moduleContexts m).slot i) := by
  by_cases hm : midx = m
  · subst hm
    rw [h.at]
    exact hat rfl
  · rw [h.other (Ne.symm hm)]
    exact .same

inductive CtimChange (ctims : List CtrDrvrCtimBinding) :
    Event → List CtrDrvrCtimBinding → Prop
  | same {e : Event} : CtimChange ctims e ctims
  | creates {c : Nat} {ctim : CtrDrvrCtimBinding} {behind : Nat → Behind} :
      lookup (·.eqpNum) ctim.eqpNum ctims = none →
      CtimChange ctims (.ioctl c (.createCtim ctim) behind) (ctims ++ [ctim])
  | destroys {e : Event} {eqpNum : U32} {obj : CtrDrvrCtimBinding} :
      lookup (·.eqpNum) eqpNum ctims = some obj →
      CtimChange ctims e (swapRemove (·.eqpNum) eqpNum ctims)
  | changes {e : Event} {eqpNum : U32} {obj : CtrDrvrCtimBinding}
      {frame : CtrDrvrEventFrame} : lookup (·.eqpNum) eqpNum ctims = some obj →
      CtimChange ctims e
        (alter (·.eqpNum) eqpNum (fun obj => { obj with frame := frame }) ctims)

theorem change_ctim (h : Change wa e wa') : CtimChange wa.ctim e wa'.ctim := by
  cases h with
  | rest hrest =>
    rw [hrest.ctim]
    exact .same
  | latches _ hone | locks _ _ hone | controls _ _ hone | connects _ _ _ hone
  | disconnects _ _ _ _ hone | acts _ _ hone =>
    rw [hone.ctim]
    exact .same
  | leaves _ _ _ hall | closes _ _ _ hall =>
    rw [hall.ctim]
    exact .same
  | createsCtim _ hcreate =>
    obtain ⟨hnew, heq⟩ := createCtim_ok hcreate
    rw [heq]
    exact .creates hnew
  | destroysCtim _ hdestroy =>
    obtain ⟨⟨obj, hobj⟩, heq⟩ := destroyCtim_ok hdestroy
    rw [heq]
    exact .destroys hobj
  | changesCtim _ hchange =>
    obtain ⟨⟨obj, hobj⟩, heq⟩ := changeCtimFrame_ok hchange
    rw [heq]
    exact .changes hobj
  | createsPtim _ hcreate =>
    rw [(createPtim_ok hcreate).2.2.2.2.2]
    exact .same
  | destroysPtim _ hdestroy =>
    rw [(destroyPtim_ok hdestroy).2.2.2]
    exact .same

theorem OneModule.slot_same {midx : Nat} (h : OneModule wa wa' midx mcon')
    (hslot : mcon'.slot i = (wa.moduleContexts midx).slot i) (m : Nat) :
    (wa'.moduleContexts m).slot i = (wa.moduleContexts m).slot i := by
  by_cases hm : m = midx
  · subst hm
    rw [h.at, hslot]
  · rw [h.other hm]

theorem connect_slotChange {conx : CtrDrvrConnection} {behind : Nat → Behind}
    (hc : c < CtrDrvrCLIENT_CONTEXTS) (h : connect wa conx c = .ok (m, mcon')) :
    SlotChange wa m i ((wa.moduleContexts m).slot i) (.ioctl c (.connect conx) behind)
      (mcon'.slot i) := by
  cases connect_ok h with
  | ptim hclass hmodule hconnect =>
    rw [connectPtim_slot hconnect]
    split
    · next hmem =>
      obtain ⟨-, hnum, hptim⟩ := mem_matching.mp hmem
      exact .connects hc hnum (hptim.trans hclass.symm) (.inr hptim)
    · exact .same
  | ctim hclass hconnect =>
    obtain ⟨j, hj, hslot⟩ := connectCtim_slot hconnect
    rcases hslot with ⟨hnum, hctim, hchange⟩ | ⟨hnone, hempty, hchange⟩
    · rw [hchange i]
      split
      · next heq =>
        subst heq
        exact .connects hc hnum (hctim.trans hclass.symm) (.inl hctim)
      · exact .same
    · rw [hchange i]
      split
      · next heq =>
        subst heq
        refine .fills hc (emptySlot_eq_some hempty).2 hclass hempty hnone ?_ rfl
        rcases connectCtim_ok hconnect with ⟨k, hhead, -⟩ | ⟨-, hheader, -⟩
        · rw [hnone] at hhead
          cases hhead
        · exact hheader
      · exact .same
  | hard hptim hctim hconnect =>
    rw [connectHard_slot hconnect]
    exact .same

theorem change_slot (h : Change wa e wa') (hi : i < CtrDrvrRamTableSIZE) (m : Nat) :
    SlotChange wa m i ((wa.moduleContexts m).slot i) e ((wa'.moduleContexts m).slot i) := by
  cases h with
  | rest hrest =>
    rw [hrest.contexts]
    exact .same
  | latches hlatch hone =>
    refine hone.slotChange fun hm => ?_
    subst hm
    rw [hlatch.quiet.slot hi]
    exact .same
  | locks hadm hopens hone =>
    refine hone.slotChange fun hm => ?_
    subst hm
    exact .same
  | @controls c cmd behind _ mcon hadm hcontrol hone =>
    refine hone.slotChange fun hm => ?_
    subst hm
    by_cases hraw : ∃ offset data, cmd = .rawWrite offset data
    · obtain ⟨offset, data, rfl⟩ := hraw
      rw [(control_sameTables hcontrol).slot i]
      exact .writes rfl
    · rw [(control_quiet hcontrol fun offset data heq =>
        hraw ⟨offset, data, heq⟩).slot hi]
      exact .same
  | connects hadm hconnect hin hone =>
    refine hone.slotChange fun hm => ?_
    subst hm
    exact connect_slotChange hadm.client hconnect
  | @disconnects c midx conx behind _ hadm hne hmodule hlt hone =>
    refine hone.slotChange fun hm => ?_
    subst hm
    by_cases hclass : conx.eqpClass = .HARD
    · rw [hclass, disConnect_hard_slot]
      exact .same
    · rw [disConnect_slot hclass]
      split
      · next hmem =>
        obtain ⟨-, hnum, hsame⟩ := mem_matching.mp hmem
        rw [← hsame]
        exact .disconnects hnum hsame hne
      · exact .same
  | leaves hadm hzero hstrays hall =>
    rw [hall.contexts, disConnectAll_slot]
    split
    · next hmem => exact .leaves (mem_occupied.mp hmem.2).2 hzero
    · exact .same
  | closes hlt hopen hstrays hall =>
    rw [hall.contexts, disConnectAll_slot]
    split
    · next hmem => exact .closes (mem_occupied.mp hmem.2).2
    · exact .same
  | acts hadm hact hone =>
    refine hone.slotChange fun hm => ?_
    obtain ⟨j, hj, hnumber, hclass, htests, hchange⟩ := setAction_slot hact
    subst hm
    rw [hchange i]
    split
    · next heq =>
      subst heq
      exact .acts rfl hnumber hclass htests
    · exact .same
  | createsCtim hadm hcreate =>
    rw [(createCtim_ok hcreate).2]
    exact .same
  | destroysCtim hadm hdestroy =>
    rw [(destroyCtim_ok hdestroy).2]
    exact .same
  | changesCtim hadm hchange =>
    rw [(changeCtimFrame_ok hchange).2]
    exact .same
  | @createsPtim c ptim behind _ hadm hcreate =>
    rw [createPtim_slot hcreate]
    dsimp only
    split
    · next hmem =>
      obtain ⟨-, -, -, hfound⟩ := createPtim_ok hcreate
      dsimp only at hfound
      have hsize : 0 < ptim.size := by omega
      have hspec := ptimSlots_spec hsize hfound.1 hfound.2.1
      have hempty := hspec.2 i hmem.2.1 hmem.2.2
      rw [hmem.1] at hempty
      exact .claims hempty hmem.1
    · exact .same
  | destroysPtim hadm hdestroy hin =>
    rw [destroyPtim_slot hdestroy]
    split
    · next hmem =>
      obtain ⟨-, hslots⟩ := destroyPtim_ok hdestroy
      dsimp only at hslots
      obtain ⟨-, hnum, hptim⟩ := mem_matching.mp hmem.2
      have hfree := hslots.1 i (by rw [hmem.1]; exact hmem.2)
      rw [hmem.1] at hfree
      exact .clears hnum hptim hfree hmem.1
    · exact .same

end

end Coht.Ctr
