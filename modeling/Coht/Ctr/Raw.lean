import Coht.Ctr.SlotSteps

/-!
# Tables without objects of number 0

An `EqpNum` of 0 marks an empty slot. As long as no object has that number, a
slot is empty exactly when it is of class HARD, and an empty slot has no client:
then the slots the driver takes for empty are so. Slots of class CTIM are there
for their clients, one for each object on a module.
-/

namespace Coht.Ctr

open Coht.Lib

/-- No object is made with the number 0. -/
def GivesNumbers : Event → Prop
  | .ioctl _ (.createPtim ptim) _ => ptim.eqpNum ≠ 0
  | .ioctl _ (.createCtim ctim) _ => ctim.eqpNum ≠ 0
  | _ => True

structure Slot.Numbered (s : Slot) : Prop where
  empty : s.eqpNum = 0 → s.eqpClass = .HARD ∧ s.clients = 0
  full : s.eqpNum ≠ 0 → s.eqpClass = .CTIM ∨ s.eqpClass = .PTIM
  used : s.eqpClass = .CTIM → s.clients ≠ 0
  counter : s.eqpClass = .CTIM → s.trig.counter = 0

structure Numbered (wa : WorkingArea) : Prop where
  objects : ∀ obj ∈ wa.ctim, obj.eqpNum ≠ 0
  slots : ∀ m, ∀ i < CtrDrvrRamTableSIZE, ((wa.moduleContexts m).slot i).Numbered
  single : ∀ m eqpNum, ∀ i ∈ (wa.moduleContexts m).matching eqpNum .CTIM,
    ∀ j ∈ (wa.moduleContexts m).matching eqpNum .CTIM, i = j

instance (e : Event) : Decidable (GivesNumbers e) :=
  match e with
  | .ioctl _ cmd _ =>
    match cmd with
    | .createPtim _ | .createCtim _ => inferInstanceAs (Decidable (_ ≠ _))
    | .setTimeout _ | .setQueueFlag _ | .getQueueOverflow | .setModule _ | .lock
    | .unlock _ | .getUtc | .connect _ | .disconnect _ | .setAction _
    | .destroyCtim _ | .changeCtimFrame _ | .destroyPtim _ | .control _ | .inquiry =>
      .isTrue trivial
  | .opens _ | .closes .. | .writes .. | .reads .. | .interrupts .. => .isTrue trivial

section

variable {wa wa' : WorkingArea} {e : Event} {m i j c : Nat} {s s' : Slot} {eqpNum : U32}

theorem Slot.Numbered.occupied (h : s.Numbered) (hclass : s.eqpClass ≠ .HARD) :
    s.eqpNum ≠ 0 :=
  fun hzero => hclass (h.empty hzero).1

theorem disConnect_numbered (h : s.Numbered) : (s.disConnect c).Numbered := by
  have hleft := disConnect_cases s c
  generalize s.disConnect c = s' at hleft ⊢
  -- Only a slot with a client is changed, so it is none of the empty ones.
  cases hleft with
  | same => exact h
  | shared hrest =>
    have hne : s.eqpNum ≠ 0 := by
      intro hzero
      rw [(h.empty hzero).2] at hrest
      exact hrest BitVec.zero_and
    exact ⟨fun hzero => absurd hzero hne, h.full, fun _ => hrest, h.counter⟩
  | frees hused hrest hctim =>
    refine ⟨fun _ => ⟨rfl, hrest⟩, fun hnew => absurd rfl hnew, ?_, ?_⟩
    · intro hclass
      cases hclass
    · intro hclass
      cases hclass
  | releases hused hrest hctim =>
    exact ⟨fun hzero => absurd (h.empty hzero).2 hused, h.full,
      fun hclass => absurd hclass hctim, fun hclass => absurd hclass hctim⟩

theorem disConnectAs_numbered {clss : CtrDrvrConnectionClass} (h : s.Numbered) :
    (s.disConnectAs clss c).Numbered := by
  rcases disConnectAs_eq s clss c with heq | heq
  · rw [heq]
    exact h
  · rw [heq]
    exact disConnect_numbered h

theorem ctimFrame_mem {ctim : List CtrDrvrCtimBinding}
    (h : (ModuleContext.ctimFrame ctim eqpNum).header ≠ 0) :
    ∃ obj ∈ ctim, obj.eqpNum = eqpNum := by
  unfold ModuleContext.ctimFrame at h
  cases hfind : ctim.find? fun obj => obj.eqpNum = eqpNum with
  | none =>
    rw [hfind] at h
    exact absurd (by decide) h
  | some obj =>
    have hnum := List.find?_some hfind
    exact ⟨obj, List.mem_of_find?_eq_some hfind, of_decide_eq_true hnum⟩

theorem slotChange_numbered (h : SlotChange wa m i s e s') (hgives : GivesNumbers e)
    (hctim : ∀ obj ∈ wa.ctim, obj.eqpNum ≠ 0) (hs : s.Numbered) : s'.Numbered := by
  cases h with
  | same => exact hs
  | connects hc hnum hclass hkind =>
    have hne : s.eqpNum ≠ 0 := by
      refine hs.occupied fun hhard => ?_
      rw [hhard] at hkind
      rcases hkind with hkind | hkind <;> cases hkind
    exact ⟨fun hzero => absurd hzero hne, hs.full, fun _ => joins_ne hc, hs.counter⟩
  | fills hc hempty hclass hslot hnone hheader hframe =>
    rw [hframe] at hheader
    obtain ⟨obj, hobj, hnum⟩ := ctimFrame_mem hheader
    refine ⟨fun hzero => ?_, fun _ => .inl rfl, fun _ => joins_ne hc, fun _ => rfl⟩
    exact absurd (hnum.trans hzero) (hctim obj hobj)
  | disconnects | leaves | closes => exact disConnectAs_numbered hs
  | acts hselected hnumber hclass htests =>
    have hne := hs.occupied hclass
    rcases htests with hempty | ⟨hnum, hsame, hcounter⟩
    · exact absurd hempty hne
    · refine ⟨fun hzero => absurd (hnum.trans hzero) hne, fun _ => ?_, fun hctim => ?_,
        fun hctim => ?_⟩
      · exact (hs.full hne).imp hsame.symm.trans hsame.symm.trans
      · exact hs.used (hsame.trans hctim)
      · exact hcounter.symm.trans (hs.counter (hsame.trans hctim))
  | claims hempty hmodule =>
    refine ⟨fun hzero => absurd hzero hgives, fun _ => .inr rfl, fun hctim => ?_,
      fun hctim => ?_⟩
    · cases hctim
    · cases hctim
  | clears hnum hclass hfree hmodule =>
    refine ⟨fun _ => ⟨rfl, hfree⟩, fun hne => absurd rfl hne, fun hctim => ?_,
      fun hctim => ?_⟩
    · cases hctim
    · cases hctim
  | writes => exact ⟨hs.empty, hs.full, hs.used, hs.counter⟩

theorem disConnectAs_ctim {clss : CtrDrvrConnectionClass}
    (h : (s.disConnectAs clss c).eqpClass = .CTIM) :
    s.eqpClass = .CTIM ∧ s.eqpNum = (s.disConnectAs clss c).eqpNum := by
  have hslot : (s.disConnect c).eqpClass = .CTIM →
      s.eqpClass = .CTIM ∧ s.eqpNum = (s.disConnect c).eqpNum := by
    have hleft := disConnect_cases s c
    generalize s.disConnect c = s' at hleft ⊢
    cases hleft with
    | same | shared | releases => exact fun hclass => ⟨hclass, rfl⟩
    | frees =>
      intro hclass
      cases hclass
  rcases disConnectAs_eq s clss c with heq | heq
  · rw [heq] at h ⊢
    exact ⟨h, rfl⟩
  · rw [heq] at h ⊢
    exact hslot h

theorem slotChange_ctim (h : SlotChange wa m i s e s') (hs : s.Numbered)
    (hclass : s'.eqpClass = .CTIM) :
    (s.eqpClass = .CTIM ∧ s.eqpNum = s'.eqpNum) ∨
      ((wa.moduleContexts m).emptySlot = some i ∧
        (wa.moduleContexts m).matching s'.eqpNum .CTIM = []) := by
  cases h with
  | same | connects | writes => exact .inl ⟨hclass, rfl⟩
  | fills hc hempty hkind hslot hnone => exact .inr ⟨hslot, hnone⟩
  | disconnects | leaves | closes => exact .inl (disConnectAs_ctim hclass)
  | acts hselected hnumber hnothard htests =>
    rcases htests with hempty | ⟨hnum, hsame, -⟩
    · exact absurd hempty (hs.occupied hnothard)
    · exact .inl ⟨hsame.trans hclass, hnum⟩
  | claims => cases hclass
  | clears => cases hclass

theorem change_single (h : Change wa e wa') (hnumbered : Numbered wa) (m : Nat)
    (eqpNum : U32) (i : Nat) (hi : i ∈ (wa'.moduleContexts m).matching eqpNum .CTIM)
    (j : Nat) (hj : j ∈ (wa'.moduleContexts m).matching eqpNum .CTIM) : i = j := by
  have hbefore : ∀ k ∈ (wa'.moduleContexts m).matching eqpNum .CTIM,
      k ∈ (wa.moduleContexts m).matching eqpNum .CTIM ∨
        ((wa.moduleContexts m).emptySlot = some k ∧
          (wa.moduleContexts m).matching eqpNum .CTIM = []) := by
    intro k hk
    obtain ⟨hlt, hnum, hclass⟩ := mem_matching.mp hk
    have hslot : ((wa'.moduleContexts m).slot k).eqpNum = eqpNum := hnum
    rcases slotChange_ctim (change_slot h hlt m) (hnumbered.slots m k hlt) hclass with
      ⟨hold, hsame⟩ | hnew
    · exact .inl (mem_matching.mpr ⟨hlt, hsame.trans hslot, hold⟩)
    · rw [hslot] at hnew
      exact .inr hnew
  rcases hbefore i hi with hiold | ⟨hinew, hnone⟩
  · rcases hbefore j hj with hjold | ⟨-, hnone⟩
    · exact hnumbered.single m eqpNum i hiold j hjold
    · rw [hnone] at hiold
      cases hiold
  · rcases hbefore j hj with hjold | ⟨hjnew, -⟩
    · rw [hnone] at hjold
      cases hjold
    · exact Option.some.inj (hinew.symm.trans hjnew)

theorem objects_step (h : CtimChange wa.ctim e wa'.ctim) (hgives : GivesNumbers e)
    (hctim : ∀ obj ∈ wa.ctim, obj.eqpNum ≠ 0) : ∀ obj ∈ wa'.ctim, obj.eqpNum ≠ 0 := by
  generalize wa'.ctim = ctims at h ⊢
  intro obj hobj
  cases h with
  | same => exact hctim obj hobj
  | creates hnew =>
    rcases List.mem_append.mp hobj with hold | hmade
    · exact hctim obj hold
    · rw [List.mem_singleton.mp hmade]
      exact hgives
  | destroys hfound => exact hctim obj (mem_of_mem_swapRemove hfound hobj)
  | changes hfound =>
    rcases mem_of_mem_alter hfound hobj with hold | hnew
    · exact hctim obj hold
    · have hold := hctim _ (lookup_mem hfound).1
      rw [hnew]
      exact hold

theorem numbered_invariant : (driver.guarded fun _ => GivesNumbers).Invariant Numbered where
  init h := by
    refine ⟨fun obj hobj => ?_, fun m i _ => ?_, fun m eqpNum i hi => ?_⟩
    · rw [h.fresh] at hobj
      cases hobj
    · rw [h.slot m i]
      refine ⟨fun _ => ⟨rfl, rfl⟩, fun hne => absurd rfl hne, fun hctim => ?_,
        fun hctim => ?_⟩
      · cases hctim
      · cases hctim
    · have hclass : ((_ : ModuleContext).slot i).eqpClass = .CTIM := (mem_matching.mp hi).2.2
      rw [h.slot m i] at hclass
      cases hclass
  step hnumbered hstep := by
    have hchange := next_change hstep.2.1 hstep.2.2
    exact ⟨objects_step (change_ctim hchange) hstep.1 hnumbered.objects,
      fun m i hi => slotChange_numbered (change_slot hchange hi m) hstep.1
        hnumbered.objects (hnumbered.slots m i hi),
      change_single hchange hnumbered⟩

end

/-!
## The raw connections and the enabled interrupts

What the commands do to `HardClients[]`, to `InterruptEnable` and to its
register. To connect adds the bits of the sources it is for. To disconnect goes
over slots or sources and takes away the bit of one whose last client leaves
it, unless others need it; which others there are does not depend on what the
loop has done before (`SameOthers`), so each visit can be judged by the state
before the first one.
-/

def ModuleContext.InRegister (mcon : ModuleContext) : Prop :=
  mcon.map mapInterruptEnable = mcon.interruptEnable

def ModuleContext.Enabled (mcon : ModuleContext) (s : Nat) : Prop :=
  mcon.interruptEnable.getLsbD s = true

/-- The two agree on what triggers there are and on the connections of other
clients. -/
structure SameOthers (c : Nat) (mcon mcon' : ModuleContext) : Prop where
  trigs : mcon'.trigs = mcon.trigs
  hardClients : ∀ k, mcon'.hardClients k &&& ~~~clientMask c =
    mcon.hardClients k &&& ~~~clientMask c
  clients : ∀ i, mcon'.clients i &&& ~~~clientMask c =
    mcon.clients i &&& ~~~clientMask c

def ModuleContext.SlotDrops (mcon : ModuleContext) (behind : Behind) (c i : Nat) : Prop :=
  clientMask c &&& mcon.clients i ≠ 0 ∧ mcon.clients i &&& ~~~clientMask c = 0 ∧
    ¬ mcon.othersRemain behind (mcon.trigs i).counter i c

/-- The last client leaves the source, and it is disabled. -/
def ModuleContext.SourceDrops (mcon : ModuleContext) (behind : Behind) (c s : Nat) :
    Prop :=
  mcon.hardClients s ≠ 0 ∧ mcon.hardClients s &&& ~~~clientMask c = 0 ∧
    ¬ mcon.othersRemain behind (mcon.counterOf .HARD s) s c

section

variable {mcon mcon' : ModuleContext} {behind : Behind} {c i s : Nat} {eqpNum : U32}

theorem shift_bit {k : Nat} (hs : s < 32) :
    (1#32 <<< k).getLsbD s = decide (k = s) := by
  rw [getLsbD_one_shiftLeft, decide_eq_decide]
  exact ⟨fun h => h.1.symm, fun h => ⟨h.symm, hs⟩⟩

/-! ### Connect -/

theorem enableInterrupts_raw (mcon : ModuleContext) :
    (mcon.enableInterrupts mcon.interruptEnable).InRegister ∧
      (mcon.enableInterrupts mcon.interruptEnable).interruptEnable =
        mcon.interruptEnable ∧
      (mcon.enableInterrupts mcon.interruptEnable).hardClients = mcon.hardClients := by
  exact ⟨map_hWr_self _ _ _, BitVec.or_self, rfl⟩

theorem connectPtim_raw (h : mcon.connectPtim eqpNum c = .ok mcon') :
    mcon'.InRegister ∧ mcon'.hardClients = mcon.hardClients ∧
      ∀ s < 32, mcon'.Enabled s ↔ mcon.Enabled s ∨
        ∃ i ∈ mcon.matching eqpNum .PTIM, (mcon.trigs i).counter.toNat = s := by
  unfold ModuleContext.connectPtim at h
  dsimp only at h
  split at h
  · cases h
  rw [← Except.ok.inj h]
  obtain ⟨hregister, henable, hhard⟩ := enableInterrupts_raw
    ((mcon.matching eqpNum .PTIM).foldl (fun mcon i =>
      mcon.connectSlot c (1#32 <<< (mcon.trigs i).counter.toNat) i) mcon)
  refine ⟨hregister, hhard.trans ?_, fun s hs => ?_⟩
  · exact foldl_keeps (P := fun m : ModuleContext => m.hardClients = mcon.hardClients)
      (fun m i _ heq => heq) rfl
  · unfold ModuleContext.Enabled
    rw [henable]
    refine @foldl_adds _ _ _ _ (fun m : ModuleContext => m.trigs = mcon.trigs)
      (fun m => m.interruptEnable.getLsbD s = true)
      (fun m i => (mcon.trigs i).counter.toNat = s) (fun m i _ hm => hm) ?_
      (fun m i _ _ j _ => Iff.rfl) matching_nodup rfl
    intro m i _ hm
    show (m.interruptEnable ||| 1#32 <<< (m.trigs i).counter.toNat).getLsbD s = true ↔ _
    rw [BitVec.getLsbD_or, shift_bit hs, hm, Bool.or_eq_true, decide_eq_true_iff]

theorem fillCtim_raw {frame : CtrDrvrEventFrame} :
    (mcon.fillCtim eqpNum frame c i).hardClients = mcon.hardClients ∧
      (mcon.fillCtim eqpNum frame c i).interruptEnable = mcon.interruptEnable ||| 1#32 := by
  unfold ModuleContext.fillCtim
  dsimp only
  rw [(writeConfig_sameTables _ _ _).hardClients,
    (writeConfig_sameTables _ _ _).interruptEnable,
    (writeTrig_sameTables _ _ _).hardClients, (writeTrig_sameTables _ _ _).interruptEnable]
  exact ⟨rfl, rfl⟩

theorem connectCtim_raw {ctim : List CtrDrvrCtimBinding}
    (h : mcon.connectCtim ctim eqpNum c = .ok mcon') :
    mcon'.InRegister ∧ mcon'.hardClients = mcon.hardClients ∧
      ∀ s < 32, mcon'.Enabled s ↔ mcon.Enabled s ∨ s = 0 := by
  have hmask : ∀ s < 32, (mcon.interruptEnable ||| 1#32).getLsbD s = true ↔
      mcon.Enabled s ∨ s = 0 := by
    intro s hs
    rw [BitVec.getLsbD_or, BitVec.getLsbD_one, Bool.or_eq_true]
    simp [ModuleContext.Enabled]
  rcases connectCtim_ok h with ⟨i, -, heq⟩ | ⟨-, -, i, -, heq⟩
  · obtain ⟨hregister, henable, hhard⟩ := enableInterrupts_raw (mcon.connectSlot c 1 i)
    rw [heq]
    refine ⟨hregister, hhard, fun s hs => ?_⟩
    unfold ModuleContext.Enabled
    rw [henable]
    exact hmask s hs
  · dsimp only at heq
    obtain ⟨hregister, henable, hhard⟩ := enableInterrupts_raw
      (mcon.fillCtim eqpNum (ModuleContext.ctimFrame ctim eqpNum) c i)
    rw [heq]
    refine ⟨hregister, hhard.trans fillCtim_raw.1, fun s hs => ?_⟩
    unfold ModuleContext.Enabled
    rw [henable, fillCtim_raw.2]
    exact hmask s hs

theorem mem_sourcesOf : s ∈ ModuleContext.sourcesOf eqpNum ↔
    s < CtrDrvrInterruptSOURCES ∧ eqpNum.getLsbD s = true := by
  simp [ModuleContext.sourcesOf]

theorem sourcesOf_nodup : (ModuleContext.sourcesOf eqpNum).Nodup :=
  List.nodup_range.filter _

theorem connectHard_raw (h : mcon.connectHard eqpNum c = .ok mcon') :
    mcon'.InRegister ∧ mcon'.trigs = mcon.trigs ∧
      (∀ s, mcon'.hardClients s = if s ∈ ModuleContext.sourcesOf eqpNum
        then mcon.hardClients s ||| clientMask c else mcon.hardClients s) ∧
      ∀ s < 32, mcon'.Enabled s ↔ mcon.Enabled s ∨ s ∈ ModuleContext.sourcesOf eqpNum := by
  unfold ModuleContext.connectHard at h
  dsimp only at h
  split at h
  · cases h
  rw [← Except.ok.inj h]
  obtain ⟨hregister, henable, hhard⟩ := enableInterrupts_raw
    ((ModuleContext.sourcesOf eqpNum).foldl (fun mcon i => mcon.connectSource c i) mcon)
  refine ⟨hregister, ?_, fun s => ?_, fun s hs => ?_⟩
  · exact foldl_keeps (P := fun m : ModuleContext => m.trigs = mcon.trigs)
      (fun m i _ heq => heq) rfl
  · rw [hhard]
    have hsep : Separate (fun mcon i => mcon.connectSource c i) ModuleContext.hardClients
        (ModuleContext.sourcesOf eqpNum) :=
      fun m i _ j hj => Function.update_of_ne hj _ _
    have hlocal : Local (fun mcon i => mcon.connectSource c i) ModuleContext.hardClients
        (ModuleContext.sourcesOf eqpNum) := by
      intro m m' i _ heq
      show Function.update m.hardClients i _ i = Function.update m'.hardClients i _ i
      rw [Function.update_self, Function.update_self, heq]
    split
    · next hmem =>
      rw [foldl_visit hsep hlocal sourcesOf_nodup hmem]
      exact Function.update_self _ _ _
    · next hmem => exact foldl_not_mem hsep hmem
  · unfold ModuleContext.Enabled
    rw [henable]
    have hadds := @foldl_adds _ (fun mcon i => mcon.connectSource c i)
      (ModuleContext.sourcesOf eqpNum) mcon (fun _ => True)
      (fun m => m.interruptEnable.getLsbD s = true) (fun _ i => i = s)
      (fun _ _ _ _ => trivial) ?_ (fun _ _ _ _ _ _ => Iff.rfl) sourcesOf_nodup trivial
    · rw [hadds]
      simp
    · intro m i _ _
      show (m.interruptEnable ||| 1#32 <<< i).getLsbD s = true ↔ _
      rw [BitVec.getLsbD_or, shift_bit hs, Bool.or_eq_true, decide_eq_true_iff]

/-! ### What a visit leaves of the others -/

theorem SameOthers.refl (c : Nat) (mcon : ModuleContext) : SameOthers c mcon mcon :=
  ⟨rfl, fun _ => rfl, fun _ => rfl⟩

theorem SameOthers.trans {mcon'' : ModuleContext} (h : SameOthers c mcon mcon')
    (h' : SameOthers c mcon' mcon'') : SameOthers c mcon mcon'' where
  trigs := h'.trigs.trans h.trigs
  hardClients k := (h'.hardClients k).trans (h.hardClients k)
  clients i := (h'.clients i).trans (h.clients i)

theorem SameOthers.remain (h : SameOthers c mcon mcon') {cntr : U32} {tndx : Nat} :
    mcon'.othersRemain behind cntr tndx c ↔ mcon.othersRemain behind cntr tndx c := by
  have hword : ∀ k, mcon'.hardWord behind k &&& ~~~clientMask c =
      mcon.hardWord behind k &&& ~~~clientMask c := by
    intro k
    unfold ModuleContext.hardWord
    split
    · exact h.hardClients k
    · rfl
  unfold ModuleContext.othersRemain
  rw [hword, hword, h.trigs]
  simp only [h.clients]

theorem leave_leave {w : U32} :
    (w &&& ~~~clientMask c) &&& ~~~clientMask c = w &&& ~~~clientMask c := by
  rw [BitVec.and_assoc, BitVec.and_self]

theorem leaveSlot_others (mcon : ModuleContext) (c i : Nat) :
    SameOthers c mcon (mcon.leaveSlot c i) where
  trigs := rfl
  hardClients _ := rfl
  clients j := by
    show Function.update mcon.clients i _ j &&& _ = _
    by_cases hj : j = i
    · subst hj
      rw [Function.update_self, leave_leave]
    · rw [Function.update_of_ne hj]

theorem leaveSource_others (mcon : ModuleContext) (c i : Nat) :
    SameOthers c mcon (mcon.leaveSource c i) where
  trigs := rfl
  hardClients k := by
    show Function.update mcon.hardClients i _ k &&& _ = _
    by_cases hk : k = i
    · subst hk
      rw [Function.update_self, leave_leave]
    · rw [Function.update_of_ne hk]
  clients _ := rfl

structure OnlyEnable (mcon mcon' : ModuleContext) : Prop where
  trigs : mcon'.trigs = mcon.trigs
  hardClients : mcon'.hardClients = mcon.hardClients
  clients : mcon'.clients = mcon.clients
  eqpClass : mcon'.eqpClass = mcon.eqpClass

theorem disableInterrupts_only {clss : CtrDrvrConnectionClass} :
    OnlyEnable mcon (mcon.disableInterrupts behind clss c i) := by
  unfold ModuleContext.disableInterrupts
  dsimp only
  split <;> exact ⟨rfl, rfl, rfl, rfl⟩

theorem OnlyEnable.others (h : OnlyEnable mcon mcon') : SameOthers c mcon mcon' where
  trigs := h.trigs
  hardClients k := by rw [h.hardClients]
  clients j := by rw [h.clients]

theorem disableInterrupts_enabled {clss : CtrDrvrConnectionClass} {k : Nat}
    (hs : s < 32) (hk : k = (if mcon.counterOf clss i ≠ -1
      then (mcon.counterOf clss i).toNat else i)) :
    (mcon.disableInterrupts behind clss c i).Enabled s ↔ mcon.Enabled s ∧
      ¬ (¬ mcon.othersRemain behind (mcon.counterOf clss i) i c ∧ k = s) := by
  unfold ModuleContext.disableInterrupts
  dsimp only
  rw [← hk]
  split
  · next hremain =>
    exact ⟨fun h => ⟨h, fun hand => hand.1 hremain⟩, fun h => h.1⟩
  · next hnone =>
    show (mcon.interruptEnable &&& ~~~(1#32 <<< k)).getLsbD s = true ↔ _
    rw [BitVec.getLsbD_and, BitVec.getLsbD_not, shift_bit hs]
    simp [ModuleContext.Enabled, hs, hnone]

theorem disableInterrupts_register {clss : CtrDrvrConnectionClass}
    (h : mcon.InRegister) : (mcon.disableInterrupts behind clss c i).InRegister := by
  unfold ModuleContext.disableInterrupts
  dsimp only
  split
  · exact h
  · exact map_hWr_self _ _ _

theorem releaseSlot_raw (mcon : ModuleContext) (i : Nat) :
    (mcon.releaseSlot i).trigs = mcon.trigs ∧
      (mcon.releaseSlot i).hardClients = mcon.hardClients ∧
      (mcon.releaseSlot i).clients = mcon.clients ∧
      (mcon.releaseSlot i).interruptEnable = mcon.interruptEnable ∧
      (mcon.releaseSlot i).map mapInterruptEnable = mcon.map mapInterruptEnable := by
  unfold ModuleContext.releaseSlot
  split
  · have htables := (writeTrig_sameTables mcon i {}).trans (writeConfig_sameTables _ i {})
    refine ⟨htables.trigs, htables.hardClients, htables.clients, htables.interruptEnable, ?_⟩
    exact register_writeConfig.trans register_writeTrig
  · exact ⟨rfl, rfl, rfl, rfl, map_hWr_of_ne mapInterruptEnable_ne.1⟩

/-! ### Visits -/

theorem disConnectSlot_others {clss : CtrDrvrConnectionClass} :
    SameOthers c mcon (mcon.disConnectSlot behind clss c i) := by
  unfold ModuleContext.disConnectSlot
  dsimp only
  split
  · exact .refl c mcon
  split
  · exact leaveSlot_others mcon c i
  · have hleft := leaveSlot_others mcon c i
    generalize mcon.leaveSlot c i = left at hleft ⊢
    have honly := @disableInterrupts_only left behind c i clss
    generalize left.disableInterrupts behind clss c i = disabled at honly ⊢
    obtain ⟨htrigs, hhard, hclients, -⟩ := releaseSlot_raw disabled i
    have hreleased : SameOthers c disabled (disabled.releaseSlot i) :=
      ⟨htrigs, fun k => by rw [hhard], fun j => by rw [hclients]⟩
    exact (hleft.trans honly.others).trans hreleased

theorem disConnectSource_others : SameOthers c mcon (mcon.disConnectSource behind c i) := by
  unfold ModuleContext.disConnectSource
  dsimp only
  split
  · exact .refl c mcon
  split
  · exact leaveSource_others mcon c i
  · exact (leaveSource_others mcon c i).trans disableInterrupts_only.others

theorem disConnectSlot_hardClients {clss : CtrDrvrConnectionClass} :
    (mcon.disConnectSlot behind clss c i).hardClients = mcon.hardClients := by
  unfold ModuleContext.disConnectSlot
  dsimp only
  split
  · rfl
  split
  · rfl
  · rw [(releaseSlot_raw _ i).2.1, disableInterrupts_only.hardClients]
    rfl

theorem disConnectSlot_register {clss : CtrDrvrConnectionClass} (h : mcon.InRegister) :
    (mcon.disConnectSlot behind clss c i).InRegister := by
  unfold ModuleContext.disConnectSlot
  dsimp only
  split
  · exact h
  split
  · exact h
  · unfold ModuleContext.InRegister
    rw [(releaseSlot_raw _ i).2.2.2.1, (releaseSlot_raw _ i).2.2.2.2]
    exact disableInterrupts_register h

theorem disConnectSource_register (h : mcon.InRegister) :
    (mcon.disConnectSource behind c i).InRegister := by
  unfold ModuleContext.disConnectSource
  dsimp only
  split
  · exact h
  split
  · exact h
  · exact disableInterrupts_register h

theorem disConnectSlot_enabled {clss : CtrDrvrConnectionClass} (hclss : clss ≠ .HARD)
    (hs : s < 32) (hcounter : (mcon.trigs i).counter.toNat < 32) :
    (mcon.disConnectSlot behind clss c i).Enabled s ↔ mcon.Enabled s ∧
      ¬ (mcon.SlotDrops behind c i ∧ (mcon.trigs i).counter.toNat = s) := by
  unfold ModuleContext.disConnectSlot
  dsimp only
  split
  · next hnone =>
    exact ⟨fun h => ⟨h, fun hand => hand.1.1 hnone⟩, fun h => h.1⟩
  next hmember =>
  have hleft := leaveSlot_others mcon c i
  have hclients : (mcon.leaveSlot c i).clients i =
      mcon.clients i &&& ~~~clientMask c := Function.update_self _ _ _
  have henabled : (mcon.leaveSlot c i).Enabled s ↔ mcon.Enabled s := Iff.rfl
  generalize mcon.leaveSlot c i = left at hleft hclients henabled ⊢
  rw [hclients]
  split
  · next hne => exact ⟨fun h => ⟨henabled.mp h, fun hand => hne hand.1.2.1⟩,
      fun h => henabled.mpr h.1⟩
  · next hzero =>
    have hcntr : left.counterOf clss i = (mcon.trigs i).counter := by
      unfold ModuleContext.counterOf
      rw [if_pos hclss, hleft.trigs]
    have hnot : (mcon.trigs i).counter ≠ -1 := by
      intro heq
      rw [heq] at hcounter
      exact absurd hcounter (by decide)
    have hdisable := @disableInterrupts_enabled left behind c i s clss
      (mcon.trigs i).counter.toNat hs (by rw [hcntr, if_pos hnot])
    rw [hcntr, hleft.remain, henabled] at hdisable
    have hrelease := releaseSlot_raw (left.disableInterrupts behind clss c i) i
    unfold ModuleContext.Enabled at hdisable ⊢
    rw [hrelease.2.2.2.1, hdisable]
    have hdrops : mcon.SlotDrops behind c i ↔
        ¬ mcon.othersRemain behind (mcon.trigs i).counter i c :=
      ⟨fun h => h.2.2, fun h => ⟨hmember, by simpa using hzero, h⟩⟩
    rw [hdrops]

theorem source_bit (hi : i < CtrDrvrInterruptSOURCES) :
    i = if mcon.counterOf .HARD i ≠ -1 then (mcon.counterOf .HARD i).toNat else i := by
  have hall : ∀ i < 14, i =
      if (if i ≤ 9 then BitVec.ofNat 32 i else -1) ≠ (-1 : U32) then
        (if i ≤ 9 then BitVec.ofNat 32 i else -1).toNat else i := by decide
  exact hall i hi

theorem disConnectSource_enabled (hs : s < 32) (hi : i < CtrDrvrInterruptSOURCES) :
    (mcon.disConnectSource behind c i).Enabled s ↔ mcon.Enabled s ∧
      ¬ (mcon.SourceDrops behind c i ∧ i = s) := by
  unfold ModuleContext.disConnectSource
  dsimp only
  split
  · next hnone =>
    exact ⟨fun h => ⟨h, fun hand => hand.1.1 hnone⟩, fun h => h.1⟩
  next hne =>
  have hleft := leaveSource_others mcon c i
  have hclients : (mcon.leaveSource c i).hardClients i =
      mcon.hardClients i &&& ~~~clientMask c := Function.update_self _ _ _
  have henabled : (mcon.leaveSource c i).Enabled s ↔ mcon.Enabled s := Iff.rfl
  generalize mcon.leaveSource c i = left at hleft hclients henabled ⊢
  rw [hclients]
  split
  · next hrest => exact ⟨fun h => ⟨henabled.mp h, fun hand => hrest hand.1.2.1⟩,
      fun h => henabled.mpr h.1⟩
  · next hzero =>
    have hcntr : left.counterOf .HARD i = mcon.counterOf .HARD i := rfl
    have hbit : i = if left.counterOf .HARD i ≠ -1
        then (left.counterOf .HARD i).toNat else i := source_bit hi
    have hdisable := @disableInterrupts_enabled left behind c i s .HARD i hs hbit
    rw [hcntr, hleft.remain, henabled] at hdisable
    rw [hdisable]
    have hdrops : mcon.SourceDrops behind c i ↔
        ¬ mcon.othersRemain behind (mcon.counterOf .HARD i) i c :=
      ⟨fun h => h.2.2, fun h => ⟨hne, by simpa using hzero, h⟩⟩
    rw [hdrops]

/-! ### Loops -/

theorem disConnectSlot_clients {clss : CtrDrvrConnectionClass} {j : Nat}
    (hi : i < CtrDrvrRamTableSIZE) (hj : j ≠ i) :
    (mcon.disConnectSlot behind clss c i).clients j = mcon.clients j :=
  congrArg Slot.clients ((disConnectSlot_slot hi j).trans (if_neg hj))

theorem disConnectSource_hardClients : (mcon.disConnectSource behind c i).hardClients =
    Function.update mcon.hardClients i (mcon.hardClients i &&& ~~~clientMask c) := by
  unfold ModuleContext.disConnectSource
  dsimp only
  split
  · next hnone =>
    have hsame : mcon.hardClients i &&& ~~~clientMask c = mcon.hardClients i := by
      rw [hnone]
      exact BitVec.zero_and
    rw [hsame, Function.update_eq_self]
  split
  · rfl
  · exact disableInterrupts_only.hardClients

theorem slots_raw {slots : List Nat} {clss : Nat → CtrDrvrConnectionClass}
    (hclss : ∀ i ∈ slots, clss i = .CTIM ∨ clss i = .PTIM)
    (htable : ∀ i ∈ slots, i < CtrDrvrRamTableSIZE) (hnodup : slots.Nodup) :
    let left := slots.foldl (fun m i => m.disConnectOne behind (clss i) c i) mcon
    left.hardClients = mcon.hardClients ∧ SameOthers c mcon left ∧
      (mcon.InRegister → left.InRegister) ∧
      ((∀ i ∈ slots, (mcon.trigs i).counter.toNat < 32) → ∀ s < 32,
        left.Enabled s ↔ mcon.Enabled s ∧ ¬ ∃ i ∈ slots,
          mcon.SlotDrops behind c i ∧ (mcon.trigs i).counter.toNat = s) := by
  have hvisit : ∀ m : ModuleContext, ∀ i ∈ slots,
      m.disConnectOne behind (clss i) c i = m.disConnectSlot behind (clss i) c i := by
    intro m i hi
    rcases hclss i hi with hkind | hkind
    · rw [hkind]
      rfl
    · rw [hkind]
      rfl
  have hloop : slots.foldl (fun m i => m.disConnectOne behind (clss i) c i) mcon =
      slots.foldl (fun m i => m.disConnectSlot behind (clss i) c i) mcon :=
    List.foldl_ext _ _ _ fun m i hi => hvisit m i hi
  have hkept : ∀ m : ModuleContext, ∀ i ∈ slots, SameOthers c mcon m →
      SameOthers c mcon (m.disConnectSlot behind (clss i) c i) :=
    fun m i _ hm => hm.trans disConnectSlot_others
  dsimp only
  rw [hloop]
  refine ⟨?_, foldl_keeps hkept (.refl c mcon), ?_, fun hcounters s hs => ?_⟩
  · exact foldl_keeps (P := fun m : ModuleContext => m.hardClients = mcon.hardClients)
      (fun m i _ hm => disConnectSlot_hardClients.trans hm) rfl
  · exact foldl_keeps (P := fun m : ModuleContext => m.InRegister)
      (fun m i _ hm => disConnectSlot_register hm)
  · refine @foldl_drops _ _ _ _ (fun m => SameOthers c mcon m) (fun m => m.Enabled s)
      (fun m i => m.SlotDrops behind c i ∧ (mcon.trigs i).counter.toNat = s) hkept
      ?_ ?_ hnodup (.refl c mcon)
    · intro m i hi hm
      have hne : clss i ≠ .HARD := by
        rcases hclss i hi with hkind | hkind <;> rw [hkind] <;> decide
      have hcounter := hcounters i hi
      rw [← hm.trigs] at hcounter ⊢
      exact disConnectSlot_enabled hne hs hcounter
    · intro m i hi hm j hj
      unfold ModuleContext.SlotDrops
      rw [disConnectSlot_clients (htable i hi) hj, disConnectSlot_others.remain,
        disConnectSlot_others.trigs]

theorem sources_raw : let left := mcon.disConnectSources behind c
    (∀ s < CtrDrvrInterruptSOURCES,
      left.hardClients s = mcon.hardClients s &&& ~~~clientMask c) ∧
    SameOthers c mcon left ∧ left.clients = mcon.clients ∧
      (mcon.InRegister → left.InRegister) ∧
      ∀ s < CtrDrvrInterruptSOURCES,
        left.Enabled s ↔ mcon.Enabled s ∧ ¬ mcon.SourceDrops behind c s := by
  have hkept : ∀ m : ModuleContext, ∀ i ∈ List.range CtrDrvrInterruptSOURCES,
      SameOthers c mcon m → SameOthers c mcon (m.disConnectSource behind c i) :=
    fun m i _ hm => hm.trans disConnectSource_others
  have hloop : mcon.disConnectSources behind c =
      (List.range CtrDrvrInterruptSOURCES).foldl
        (fun m i => m.disConnectSource behind c i) mcon := rfl
  dsimp only
  rw [hloop]
  refine ⟨fun s hs => ?_, foldl_keeps hkept (.refl c mcon), ?_, ?_, fun s hs => ?_⟩
  · have hsep : Separate (fun m i => ModuleContext.disConnectSource m behind c i)
        ModuleContext.hardClients (List.range CtrDrvrInterruptSOURCES) := by
      intro m i _ j hj
      rw [disConnectSource_hardClients, Function.update_of_ne hj]
    have hlocal : Local (fun m i => ModuleContext.disConnectSource m behind c i)
        ModuleContext.hardClients (List.range CtrDrvrInterruptSOURCES) := by
      intro m m' i _ heq
      rw [disConnectSource_hardClients, disConnectSource_hardClients,
        Function.update_self, Function.update_self, heq]
    rw [foldl_visit hsep hlocal List.nodup_range (List.mem_range.mpr hs),
      disConnectSource_hardClients, Function.update_self]
  · refine foldl_keeps (P := fun m : ModuleContext => m.clients = mcon.clients)
      (fun m i _ hm => Eq.trans ?_ hm) rfl
    unfold ModuleContext.disConnectSource
    dsimp only
    split
    · rfl
    split
    · rfl
    · exact disableInterrupts_only.clients
  · exact foldl_keeps (P := fun m : ModuleContext => m.InRegister)
      (fun m i _ hm => disConnectSource_register hm)
  · have hlt : s < 32 := Nat.lt_trans hs (by decide)
    have hdrops := @foldl_drops _ (fun m i => ModuleContext.disConnectSource m behind c i)
      (List.range CtrDrvrInterruptSOURCES) mcon (fun m => SameOthers c mcon m)
      (fun m => m.Enabled s) (fun m i => m.SourceDrops behind c i ∧ i = s) hkept
      (fun m i hi _ => disConnectSource_enabled hlt (List.mem_range.mp hi))
      ?_ List.nodup_range (.refl c mcon)
    · rw [hdrops]
      refine and_congr_right fun _ => not_congr ⟨?_, fun h => ?_⟩
      · intro ⟨i, _, h, heq⟩
        rw [← heq]
        exact h
      · exact ⟨s, List.mem_range.mpr hs, h, rfl⟩
    · intro m i _ _ j hj
      unfold ModuleContext.SourceDrops
      rw [disConnectSource_hardClients, Function.update_of_ne hj,
        disConnectSource_others.remain]
      have hcntr : (m.disConnectSource behind c i).counterOf .HARD j =
          m.counterOf .HARD j := rfl
      rw [hcntr]

end

end Coht.Ctr
