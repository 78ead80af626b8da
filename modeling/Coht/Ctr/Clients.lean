import Coht.Ctr.Raw

/-!
# Who is connected to what

A connection adds the client to the slots of the object on the module, or to
the sources that the number names as a mask; a disconnection takes it away from
them again, and a close from everything. The module of a PTIM object is the one
its binding names, whatever the connection says, and `DISCONNECT` of the number
0 is one of everything, on all modules. All this holds where no object has the
number 0.

Of `DISCONNECT` of raw sources it is said only that the client leaves those the
number names: it leaves the others too.
-/

namespace Coht.Ctr

open Coht.Lib

namespace ModuleContext

variable (mcon : ModuleContext)

/-- Client `d` is connected to slot `i`. -/
def At (d i : Nat) : Prop := (mcon.clients i).getLsbD d = true

/-- Client `d` is connected to source `s`. -/
def AtSource (d s : Nat) : Prop := (mcon.hardClients s).getLsbD d = true

/-- The slot has the object of the connection. -/
def Carries (conx : CtrDrvrConnection) (i : Nat) : Prop :=
  mcon.eqpNum i = conx.eqpNum ∧ mcon.eqpClass i = conx.eqpClass

end ModuleContext

/-- The module that `Connect()` works on. -/
def connectTarget (wa : WorkingArea) (conx : CtrDrvrConnection) (c : Nat) : Option Nat :=
  if conx.eqpClass = .PTIM then wa.getPtimModule conx.eqpNum
  else some (connectModule wa conx c)

/-- The client has been added to the slots that carry the object on module `m`,
or to the sources of the mask. -/
structure Joins (wa wa' : WorkingArea) (conx : CtrDrvrConnection) (c m : Nat) :
    Prop where
  target : connectTarget wa conx c = some m
  others : ∀ m', m' ≠ m → wa'.moduleContexts m' = wa.moduleContexts m'
  found : conx.eqpClass = .CTIM ∨ conx.eqpClass = .PTIM →
    ∃ i < CtrDrvrRamTableSIZE, (wa'.moduleContexts m).Carries conx i
  slots : ∀ i < CtrDrvrRamTableSIZE, ∀ d, (wa'.moduleContexts m).At d i ↔
    (wa.moduleContexts m).At d i ∨ d = c ∧ (wa'.moduleContexts m).Carries conx i
  sources : ∀ s < CtrDrvrInterruptSOURCES, ∀ d, (wa'.moduleContexts m).AtSource d s ↔
    (wa.moduleContexts m).AtSource d s ∨
      d = c ∧ conx.eqpClass ≠ .CTIM ∧ conx.eqpClass ≠ .PTIM ∧
        conx.eqpNum.getLsbD s = true

/-- The client has been taken away from the slots that carried the object on
module `m`; from the sources of the mask, if they are what is disconnected. -/
structure Leaves (wa wa' : WorkingArea) (conx : CtrDrvrConnection) (c m : Nat) :
    Prop where
  target : conx.module = m + 1
  others : ∀ m', m' ≠ m → wa'.moduleContexts m' = wa.moduleContexts m'
  slots : ∀ i < CtrDrvrRamTableSIZE, ∀ d, (wa'.moduleContexts m).At d i ↔
    (wa.moduleContexts m).At d i ∧ ¬ (d = c ∧ (wa.moduleContexts m).Carries conx i)
  kept : conx.eqpClass ≠ .HARD → ∀ s < CtrDrvrInterruptSOURCES, ∀ d,
    (wa'.moduleContexts m).AtSource d s ↔ (wa.moduleContexts m).AtSource d s
  sources : ∀ s < CtrDrvrInterruptSOURCES, ∀ d, d ≠ c →
    ((wa'.moduleContexts m).AtSource d s ↔ (wa.moduleContexts m).AtSource d s)
  left : conx.eqpClass = .HARD → ∀ s < CtrDrvrInterruptSOURCES,
    conx.eqpNum.getLsbD s = true → ¬ (wa'.moduleContexts m).AtSource c s

/-- The client has been taken away from everything. -/
structure Gone (wa wa' : WorkingArea) (c : Nat) : Prop where
  slots : ∀ m < wa.modules, ∀ i < CtrDrvrRamTableSIZE, ∀ d,
    (wa'.moduleContexts m).At d i ↔ (wa.moduleContexts m).At d i ∧ d ≠ c
  sources : ∀ m < wa.modules, ∀ s < CtrDrvrInterruptSOURCES, ∀ d,
    (wa'.moduleContexts m).AtSource d s ↔ (wa.moduleContexts m).AtSource d s ∧ d ≠ c

/-- What the commands and a close of the client do to the connections, and when
a slot of a CTIM object is occupied. -/
structure Precise (wa : WorkingArea) (behind : Nat → Behind) (c : Nat) : Prop where
  connects : ∀ conx wa', wa.ioctl behind c (.connect conx) = .returns wa' →
    ∃ m, Joins wa wa' conx c m
  disconnects : ∀ conx wa', conx.eqpNum ≠ 0 →
    wa.ioctl behind c (.disconnect conx) = .returns wa' → ∃ m, Leaves wa wa' conx c m
  leaves : ∀ conx wa', conx.eqpNum = 0 →
    wa.ioctl behind c (.disconnect conx) = .returns wa' → Gone wa wa' c
  closes : ∃ wa', wa.closeClient behind c = .returns wa' ∧ Gone wa wa' c
  ctims : ∀ m, ∀ i < CtrDrvrRamTableSIZE, (wa.moduleContexts m).eqpClass i = .CTIM →
    ((wa.moduleContexts m).eqpNum i ≠ 0 ↔ (wa.moduleContexts m).clients i ≠ 0)

section

variable {mcon mcon' : ModuleContext} {wa wa' : WorkingArea} {conx : CtrDrvrConnection}
  {c d i m s : Nat} {behind : Nat → Behind}

theorem at_slot : mcon.At d i ↔ (mcon.slot i).clients.getLsbD d = true := Iff.rfl

theorem mem_matching_carries : i ∈ mcon.matching conx.eqpNum conx.eqpClass ↔
    i < CtrDrvrRamTableSIZE ∧ mcon.Carries conx i :=
  mem_matching

/-! ## Connect -/

theorem connect_joins_slot {slot : Slot} (hc : c < CtrDrvrCLIENT_CONTEXTS) :
    (slot.connect c).clients.getLsbD d = true ↔ slot.clients.getLsbD d = true ∨ d = c := by
  show (slot.clients ||| clientMask c).getLsbD d = true ↔ _
  rw [joins_bit hc, Bool.or_eq_true, decide_eq_true_iff]

theorem not_carries (hnumbered : (mcon.slot i).Numbered) (hnum : conx.eqpNum ≠ 0)
    (hctim : conx.eqpClass ≠ .CTIM) (hptim : conx.eqpClass ≠ .PTIM) :
    ¬ mcon.Carries conx i := by
  intro ⟨hsame, hclass⟩
  have hne : (mcon.slot i).eqpNum ≠ 0 := by
    show mcon.eqpNum i ≠ 0
    rw [hsame]
    exact hnum
  rcases hnumbered.full hne with hkind | hkind
  · exact hctim (hclass.symm.trans hkind)
  · exact hptim (hclass.symm.trans hkind)

theorem connectPtim_joins (hc : c < CtrDrvrCLIENT_CONTEXTS)
    (hclass : conx.eqpClass = .PTIM) (h : mcon.connectPtim conx.eqpNum c = .ok mcon') :
    (∃ i < CtrDrvrRamTableSIZE, mcon'.Carries conx i) ∧
      ∀ i < CtrDrvrRamTableSIZE, ∀ d,
        mcon'.At d i ↔ mcon.At d i ∨ d = c ∧ mcon'.Carries conx i := by
  have hslot := @connectPtim_slot mcon mcon' conx.eqpNum c h
  have hcarries : ∀ i, mcon'.Carries conx i ↔ mcon.Carries conx i := by
    intro i
    have hsame : (mcon'.slot i).eqpNum = (mcon.slot i).eqpNum ∧
        (mcon'.slot i).eqpClass = (mcon.slot i).eqpClass := by
      rw [hslot]
      split <;> exact ⟨rfl, rfl⟩
    unfold ModuleContext.Carries
    rw [show mcon'.eqpNum i = mcon.eqpNum i from hsame.1,
      show mcon'.eqpClass i = mcon.eqpClass i from hsame.2]
  rw [← hclass] at hslot
  constructor
  · have hsome : mcon.matching conx.eqpNum .PTIM ≠ [] := by
      intro hnone
      unfold ModuleContext.connectPtim at h
      dsimp only at h
      rw [if_pos hnone] at h
      cases h
    obtain ⟨i, hi⟩ := List.exists_mem_of_ne_nil _ hsome
    rw [← hclass] at hi
    obtain ⟨hlt, hhas⟩ := mem_matching_carries.mp hi
    exact ⟨i, hlt, (hcarries i).mpr hhas⟩
  · intro i hi d
    rw [at_slot, hslot, hcarries]
    split
    · next hmem =>
      rw [connect_joins_slot hc]
      have hhas := (mem_matching_carries.mp hmem).2
      exact or_congr_right ⟨fun heq => ⟨heq, hhas⟩, fun hand => hand.1⟩
    · next hmem =>
      refine ⟨.inl, fun h => h.resolve_right fun hand => hmem ?_⟩
      exact mem_matching_carries.mpr ⟨hi, hand.2⟩

theorem connectCtim_joins (hc : c < CtrDrvrCLIENT_CONTEXTS)
    (hclass : conx.eqpClass = .CTIM) {ctim : List CtrDrvrCtimBinding}
    (h : mcon.connectCtim ctim conx.eqpNum c = .ok mcon')
    (hsingle : ∀ i ∈ mcon.matching conx.eqpNum .CTIM,
      ∀ j ∈ mcon.matching conx.eqpNum .CTIM, i = j) :
    (∃ i < CtrDrvrRamTableSIZE, mcon'.Carries conx i) ∧
      ∀ i < CtrDrvrRamTableSIZE, ∀ d,
        mcon'.At d i ↔ mcon.At d i ∨ d = c ∧ mcon'.Carries conx i := by
  obtain ⟨j, hj, hslot⟩ := connectCtim_slot h
  -- No other slot carries the object, before the step or after it.
  have hother : ∀ f, Changes mcon mcon' j f →
      (∀ i < CtrDrvrRamTableSIZE, i ≠ j → ¬ mcon.Carries conx i) →
      mcon'.Carries conx j → (∀ d, mcon'.At d j ↔ mcon.At d j ∨ d = c) →
      (∃ i < CtrDrvrRamTableSIZE, mcon'.Carries conx i) ∧
        ∀ i < CtrDrvrRamTableSIZE, ∀ d,
          mcon'.At d i ↔ mcon.At d i ∨ d = c ∧ mcon'.Carries conx i := by
    intro f hchange hnot hhas hjoins
    refine ⟨⟨j, hj, hhas⟩, fun i hi d => ?_⟩
    by_cases heq : i = j
    · subst heq
      rw [hjoins]
      exact or_congr_right ⟨fun heq => ⟨heq, hhas⟩, fun hand => hand.1⟩
    · have hsame : mcon'.slot i = mcon.slot i := (hchange i).trans (if_neg heq)
      rw [at_slot, hsame]
      refine ⟨.inl, fun h => h.resolve_right fun hand => hnot i hi heq ?_⟩
      have hcarried := hand.2
      unfold ModuleContext.Carries at hcarried ⊢
      rw [← show (mcon'.slot i).eqpNum = mcon.eqpNum i by rw [hsame]; rfl,
        ← show (mcon'.slot i).eqpClass = mcon.eqpClass i by rw [hsame]; rfl]
      exact hcarried
  rcases hslot with ⟨hnum, hkind, hchange⟩ | ⟨hnone, hempty, hchange⟩
  · have hat : mcon'.slot j = (mcon.slot j).connect c := (hchange j).trans (if_pos rfl)
    refine hother _ hchange (fun i hi hne hcarried => hne ?_) ?_ fun d => ?_
    · rw [← hclass] at hsingle hkind
      exact hsingle i (mem_matching_carries.mpr ⟨hi, hcarried⟩) j
        (mem_matching_carries.mpr ⟨hj, hnum, hkind⟩)
    · exact ⟨(congrArg Slot.eqpNum hat).trans hnum,
        (congrArg Slot.eqpClass hat).trans (hkind.trans hclass.symm)⟩
    · rw [at_slot, hat]
      exact connect_joins_slot hc
  · have hat : mcon'.slot j = (mcon.slot j).fill conx.eqpNum _ c :=
      (hchange j).trans (if_pos rfl)
    refine hother _ hchange (fun i hi hne hcarried => ?_) ?_ fun d => ?_
    · have hmem := mem_matching_carries.mpr ⟨hi, hcarried⟩
      rw [hclass, hnone] at hmem
      cases hmem
    · exact ⟨congrArg Slot.eqpNum hat, (congrArg Slot.eqpClass hat).trans hclass.symm⟩
    · rw [at_slot, hat]
      exact connect_joins_slot hc

theorem connect_joins (hnumbered : Numbered wa) (hc : c < CtrDrvrCLIENT_CONTEXTS)
    (h : connect wa conx c = .ok (m, mcon')) (hone : OneModule wa wa' m mcon') :
    Joins wa wa' conx c m := by
  have hat := hone.at
  have hothers : ∀ m', m' ≠ m → wa'.moduleContexts m' = wa.moduleContexts m' :=
    fun m' hne => hone.other hne
  cases connect_ok h with
  | ptim hclass hmodule hconnect =>
    obtain ⟨hfound, hslots⟩ := connectPtim_joins hc hclass hconnect
    rw [← hat] at hfound hslots
    refine ⟨(if_pos hclass).trans hmodule, hothers, fun _ => hfound, hslots,
      fun s hs d => ?_⟩
    unfold ModuleContext.AtSource
    rw [hat, (connectPtim_raw hconnect).2.1]
    exact ⟨.inl, fun h => h.resolve_right fun hand => hand.2.2.1 hclass⟩
  | ctim hclass hconnect =>
    obtain ⟨hfound, hslots⟩ := connectCtim_joins hc hclass hconnect
      (hnumbered.single _ _)
    rw [← hat] at hfound hslots
    refine ⟨if_neg (by rw [hclass]; decide), hothers, fun _ => hfound, hslots,
      fun s hs d => ?_⟩
    unfold ModuleContext.AtSource
    rw [hat, (connectCtim_raw hconnect).2.1]
    exact ⟨.inl, fun h => h.resolve_right fun hand => hand.2.1 hclass⟩
  | hard hptim hctim hconnect =>
    obtain ⟨-, -, hhard, -⟩ := connectHard_raw hconnect
    have hslot := @connectHard_slot _ mcon' conx.eqpNum c hconnect
    have hnum : conx.eqpNum ≠ 0 := by
      intro hzero
      have hnone : ModuleContext.sourcesOf 0 = [] := by decide
      unfold ModuleContext.connectHard at hconnect
      dsimp only at hconnect
      rw [hzero, if_pos hnone] at hconnect
      cases hconnect
    refine ⟨if_neg hptim, hothers, fun hkind => ?_, fun i hi d => ?_, fun s hs d => ?_⟩
    · rcases hkind with hkind | hkind
      · exact absurd hkind hctim
      · exact absurd hkind hptim
    · have hnot : ¬ (wa'.moduleContexts (connectModule wa conx c)).Carries conx i := by
        refine not_carries ?_ hnum hctim hptim
        rw [hat, hslot]
        exact hnumbered.slots _ i hi
      rw [at_slot, hat, hslot]
      rw [hat] at hnot
      exact ⟨.inl, fun h => h.resolve_right fun hand => hnot hand.2⟩
    · unfold ModuleContext.AtSource
      rw [hat, hhard]
      split
      · next hmem =>
        rw [joins_bit hc, Bool.or_eq_true, decide_eq_true_iff]
        exact or_congr_right
          ⟨fun heq => ⟨heq, hctim, hptim, (mem_sourcesOf.mp hmem).2⟩, fun hand => hand.1⟩
      · next hmem =>
        refine ⟨.inl, fun h => h.resolve_right fun hand => hmem ?_⟩
        exact mem_sourcesOf.mpr ⟨hs, hand.2.2.2⟩

/-! ## Disconnect -/

theorem disConnect_clients {slot : Slot} :
    (slot.disConnect c).clients = slot.clients &&& ~~~clientMask c := by
  have hleft := disConnect_cases slot c
  generalize slot.disConnect c = slot' at hleft ⊢
  cases hleft with
  | same hnone => exact (leaves_idle hnone).symm
  | shared | frees | releases => rfl

theorem disConnectAs_left {slot : Slot} (hc : c < CtrDrvrCLIENT_CONTEXTS)
    {clss : CtrDrvrConnectionClass} (hkind : clss = .CTIM ∨ clss = .PTIM) :
    (slot.disConnectAs clss c).clients.getLsbD d = true ↔
      slot.clients.getLsbD d = true ∧ d ≠ c := by
  have hclients : (slot.disConnectAs clss c).clients =
      slot.clients &&& ~~~clientMask c := by
    rcases hkind with rfl | rfl
    · exact disConnect_clients
    · exact disConnect_clients
  rw [hclients, leaves_bit hc]
  simp

theorem matching_none (hnumbered : ∀ i < CtrDrvrRamTableSIZE, (mcon.slot i).Numbered)
    (hnum : conx.eqpNum ≠ 0) (hctim : conx.eqpClass ≠ .CTIM)
    (hptim : conx.eqpClass ≠ .PTIM) : mcon.matching conx.eqpNum conx.eqpClass = [] := by
  refine List.eq_nil_iff_forall_not_mem.mpr fun i hi => ?_
  obtain ⟨hlt, hcarries⟩ := mem_matching_carries.mp hi
  exact not_carries (hnumbered i hlt) hnum hctim hptim hcarries

theorem disConnectSources_left {behind : Behind} (hc : c < CtrDrvrCLIENT_CONTEXTS)
    (hs : s < CtrDrvrInterruptSOURCES) :
    (mcon.disConnectSources behind c).AtSource d s ↔ mcon.AtSource d s ∧ d ≠ c := by
  obtain ⟨hleft, -⟩ := @sources_raw mcon behind c
  unfold ModuleContext.AtSource
  rw [hleft s hs, leaves_bit hc]
  simp

theorem disConnect_at {behind : Behind} (hc : c < CtrDrvrCLIENT_CONTEXTS)
    (hnumbered : ∀ i < CtrDrvrRamTableSIZE, (mcon.slot i).Numbered)
    (hnum : conx.eqpNum ≠ 0) (hi : i < CtrDrvrRamTableSIZE) :
    (mcon.disConnect behind conx.eqpNum conx.eqpClass c).At d i ↔
      mcon.At d i ∧ ¬ (d = c ∧ mcon.Carries conx i) := by
  rw [at_slot]
  by_cases hkind : conx.eqpClass = .CTIM ∨ conx.eqpClass = .PTIM
  · have hclass : conx.eqpClass ≠ .HARD := by
      rcases hkind with hkind | hkind <;> rw [hkind] <;> decide
    rw [disConnect_slot hclass]
    split
    · next hmem =>
      rw [disConnectAs_left hc hkind]
      have hcarries := (mem_matching_carries.mp hmem).2
      exact and_congr_right fun _ => ⟨fun hne hand => hne hand.1,
        fun hnot heq => hnot ⟨heq, hcarries⟩⟩
    · next hmem =>
      refine ⟨fun h => ⟨h, fun hand => hmem ?_⟩, fun h => h.1⟩
      exact mem_matching_carries.mpr ⟨hi, hand.2⟩
  · have hctim : conx.eqpClass ≠ .CTIM := fun heq => hkind (.inl heq)
    have hptim : conx.eqpClass ≠ .PTIM := fun heq => hkind (.inr heq)
    have hsame : (mcon.disConnect behind conx.eqpNum conx.eqpClass c).slot i =
        mcon.slot i := by
      by_cases hhard : conx.eqpClass = .HARD
      · rw [hhard]
        exact disConnect_hard_slot i
      · rw [disConnect_slot hhard, matching_none hnumbered hnum hctim hptim,
          if_neg List.not_mem_nil]
    rw [hsame]
    have hnot := not_carries (hnumbered i hi) hnum hctim hptim
    exact ⟨fun h => ⟨h, fun hand => hnot hand.2⟩, fun h => h.1⟩

theorem disConnect_hardClients {behind : Behind} {eqpNum : U32}
    {eqpClass : CtrDrvrConnectionClass} (hclass : eqpClass ≠ .HARD) :
    (mcon.disConnect behind eqpNum eqpClass c).hardClients = mcon.hardClients := by
  unfold ModuleContext.disConnect
  rw [if_pos hclass]
  refine foldl_keeps (P := fun m : ModuleContext => m.hardClients = mcon.hardClients)
    (fun m i _ hm => Eq.trans ?_ hm) rfl
  cases eqpClass with
  | HARD => exact absurd rfl hclass
  | CTIM => exact disConnectSlot_hardClients
  | PTIM => exact disConnectSlot_hardClients
  | other => rfl

theorem disConnect_leaves (hnumbered : Numbered wa) (hc : c < CtrDrvrCLIENT_CONTEXTS)
    (hnum : conx.eqpNum ≠ 0) (hmodule : conx.module = m + 1)
    (hone : OneModule wa wa' m ((wa.moduleContexts m).disConnect (behind m)
      conx.eqpNum conx.eqpClass c)) : Leaves wa wa' conx c m := by
  have hat := hone.at
  have hsources : conx.eqpClass = .HARD →
      wa'.moduleContexts m = (wa.moduleContexts m).disConnectSources (behind m) c := by
    intro hhard
    rw [hat, hhard]
    exact if_neg (by simp)
  have hkept : conx.eqpClass ≠ .HARD →
      (wa'.moduleContexts m).hardClients = (wa.moduleContexts m).hardClients := by
    intro hclass
    rw [hat]
    exact disConnect_hardClients hclass
  refine ⟨hmodule, fun m' hne => hone.other hne, fun i hi d => ?_, fun hclass s hs d => ?_,
    fun s hs d hne => ?_, fun hhard s hs _ h => ?_⟩
  · rw [hat]
    exact disConnect_at hc (hnumbered.slots m) hnum hi
  · unfold ModuleContext.AtSource
    rw [hkept hclass]
  · by_cases hhard : conx.eqpClass = .HARD
    · rw [hsources hhard, disConnectSources_left hc hs]
      exact ⟨fun h => h.1, fun h => ⟨h, hne⟩⟩
    · unfold ModuleContext.AtSource
      rw [hkept hhard]
  · rw [hsources hhard, disConnectSources_left hc hs] at h
    exact h.2 rfl

/-! ## Leave everything -/

theorem occupied_kind (hnumbered : ∀ i < CtrDrvrRamTableSIZE, (mcon.slot i).Numbered)
    (hi : i ∈ mcon.occupied) : mcon.eqpClass i = .CTIM ∨ mcon.eqpClass i = .PTIM := by
  obtain ⟨hlt, hne⟩ := mem_occupied.mp hi
  exact (hnumbered i hlt).full hne

theorem not_strays (hnumbered : ∀ i < CtrDrvrRamTableSIZE, (mcon.slot i).Numbered) :
    mcon.strays = false := by
  unfold ModuleContext.strays
  refine List.any_eq_false.mpr fun i hi hstray => ?_
  have hhard : mcon.eqpClass i = .HARD := (of_decide_eq_true hstray).2
  rcases occupied_kind hnumbered hi with hkind | hkind
  · rw [hkind] at hhard
    cases hhard
  · rw [hkind] at hhard
    cases hhard

theorem occupied_visits {behind : Behind} :
    mcon.occupied.foldl (fun m i => m.disConnectOne behind (m.eqpClass i) c i) mcon =
      mcon.occupied.foldl (fun m i => m.disConnectOne behind (mcon.eqpClass i) c i) mcon := by
  have hsep : Separate (fun m i => ModuleContext.disConnectOne m behind (m.eqpClass i) c i)
      ModuleContext.eqpClass mcon.occupied := by
    intro m i hi j hj
    have hslot := @disConnectOwn_slot m i c behind (mem_occupied.mp hi).1 j
    rw [if_neg hj] at hslot
    exact congrArg Slot.eqpClass hslot
  exact @foldl_read _ _ mcon.occupied mcon ModuleContext.eqpClass
    (fun clss m i => ModuleContext.disConnectOne m behind clss c i) hsep occupied_nodup

theorem disConnectModule_eq {behind : Behind} : mcon.disConnectModule behind c =
    (mcon.occupied.foldl (fun m i => m.disConnectOne behind (mcon.eqpClass i) c i)
      mcon).disConnectSources behind c := by
  unfold ModuleContext.disConnectModule
  dsimp only
  rw [occupied_visits]

theorem disConnectModule_at {behind : Behind} (hc : c < CtrDrvrCLIENT_CONTEXTS)
    (hnumbered : ∀ i < CtrDrvrRamTableSIZE, (mcon.slot i).Numbered) :
    (∀ i < CtrDrvrRamTableSIZE, ∀ d, (mcon.disConnectModule behind c).At d i ↔
      mcon.At d i ∧ d ≠ c) ∧
    ∀ s < CtrDrvrInterruptSOURCES, ∀ d,
      (mcon.disConnectModule behind c).AtSource d s ↔ mcon.AtSource d s ∧ d ≠ c := by
  constructor
  · intro i hi d
    rw [at_slot, disConnectModule_slot]
    split
    · next hmem => exact disConnectAs_left hc (occupied_kind hnumbered hmem)
    · next hmem =>
      have hzero : mcon.eqpNum i = 0 :=
        Decidable.byContradiction fun hne => hmem (mem_occupied.mpr ⟨hi, hne⟩)
      have hnone : mcon.clients i = 0 := ((hnumbered i hi).empty hzero).2
      show (mcon.clients i).getLsbD d = true ↔ (mcon.clients i).getLsbD d = true ∧ _
      rw [hnone]
      simp
  · intro s hs d
    rw [disConnectModule_eq, disConnectSources_left hc hs]
    unfold ModuleContext.AtSource
    have hraw := @slots_raw mcon behind c mcon.occupied mcon.eqpClass
      (fun i hi => occupied_kind hnumbered hi) (fun i hi => (mem_occupied.mp hi).1)
      occupied_nodup
    rw [hraw.1]

theorem disConnectAll_gone {wa₁ : WorkingArea} (hnumbered : Numbered wa)
    (hc : c < CtrDrvrCLIENT_CONTEXTS)
    (h : wa₁.moduleContexts = (disConnectAll wa behind c).moduleContexts) :
    Gone wa wa₁ c := by
  have hat : ∀ m < wa.modules, wa₁.moduleContexts m =
      (wa.moduleContexts m).disConnectModule (behind m) c := by
    intro m hm
    rw [h]
    exact if_pos hm
  refine ⟨fun m hm i hi d => ?_, fun m hm s hs d => ?_⟩
  · rw [hat m hm]
    exact (disConnectModule_at hc (hnumbered.slots m)).1 i hi d
  · rw [hat m hm]
    exact (disConnectModule_at hc (hnumbered.slots m)).2 s hs d

/-- In every state of a run in which no object gets the number 0, connections
and disconnections of every client are precise. -/
theorem clients_precise (hwa : (driver.guarded fun _ => GivesNumbers).Reachable wa)
    (hc : c < CtrDrvrCLIENT_CONTEXTS) (behind : Nat → Behind) : Precise wa behind c := by
  have hnumbered := numbered_invariant.reachable hwa
  refine ⟨fun conx wa' h => ?_, fun conx wa' hnum h => ?_, fun conx wa' hzero h => ?_, ?_,
    fun m i hi hctim => ?_⟩
  · obtain ⟨-, hcommand⟩ := ioctl_admits h
    obtain ⟨m, mcon, hconnect, -, hone⟩ := command_connect hcommand
    exact ⟨m, connect_joins hnumbered hc hconnect hone⟩
  · obtain ⟨-, hcommand⟩ := ioctl_admits h
    rcases command_disconnect hcommand with ⟨hzero, -⟩ | ⟨-, m, hmodule, -, hone⟩
    · exact absurd hzero hnum
    · exact ⟨m, disConnect_leaves hnumbered hc hnum hmodule hone⟩
  · obtain ⟨-, hcommand⟩ := ioctl_admits h
    rcases command_disconnect hcommand with ⟨-, -, heq⟩ | ⟨hnum, -⟩
    · exact disConnectAll_gone hnumbered hc (by rw [heq])
    · exact absurd hzero hnum
  · refine ⟨_, if_neg ?_, disConnectAll_gone hnumbered hc rfl⟩
    rw [List.any_eq_true]
    intro ⟨m, hm, hstray⟩
    have hnone := not_strays (hnumbered.slots m)
    exact absurd (hstray.symm.trans hnone) (by decide)
  · have hslot := hnumbered.slots m i hi
    refine ⟨fun _ => hslot.used hctim, fun _ hzero => ?_⟩
    have hhard := (hslot.empty hzero).1
    rw [show ((wa.moduleContexts m).slot i).eqpClass = .CTIM from hctim] at hhard
    cases hhard

end

def objectEvents : List Event :=
  [.opens 0, .ioctl 0 (.createPtim ⟨7, 0, 1, 1, 0⟩) fun _ _ => 0]

def joinEvent (module : Nat) : Event :=
  .ioctl 0 (.connect ⟨module, .PTIM, 7⟩) fun _ _ => 0

theorem clients_precise_ptim : ∃ wa : WorkingArea,
    (wa.moduleContexts 0).clients 0 = clientMask 0 ∧ Precise wa (fun _ _ => 0) 0 := by
  have hruns : (twoModules.run (fun _ => GivesNumbers) (objectEvents ++ [joinEvent 1])).any
      (fun wa => (wa.moduleContexts 0).clients 0 = clientMask 0) = true := by
    decide +kernel
  obtain ⟨wa, hrun, hclients⟩ := exists_run hruns
  exact ⟨wa, hclients, clients_precise (.run (.init twoModules_installed) (run_run hrun))
    (by decide) _⟩

/-- A connection to a PTIM object that names the second module is one on the
first. -/
theorem connect_elsewhere : ¬ ∀ (wa wa' : WorkingArea) (behind : Nat → Behind)
    (c m : Nat) (conx : CtrDrvrConnection), driver.Reachable wa →
    m < CtrDrvrMODULE_CONTEXTS → conx.module = m + 1 →
    wa.ioctl behind c (.connect conx) = .returns wa' →
    ∀ m', ∀ i < CtrDrvrRamTableSIZE, ∀ d, (wa'.moduleContexts m').At d i ↔
      (wa.moduleContexts m').At d i ∨
        d = c ∧ m' = m ∧ (wa'.moduleContexts m').Carries conx i := by
  intro h
  have hruns : (twoModules.run (fun _ _ => True) objectEvents).any (fun wa =>
      (wa.moduleContexts 0).clients 0 = 0 ∧
        (wa.run (fun _ _ => True) [joinEvent 2]).any
          (fun wa' => (wa'.moduleContexts 0).clients 0 = clientMask 0) = true) = true := by
    decide +kernel
  obtain ⟨wa, hrun, hbefore, hrest⟩ := exists_run hruns
  obtain ⟨wa', hjoin, hafter⟩ := exists_run hrest
  have hwa : driver.Reachable wa :=
    .run (.init twoModules_installed) (run_run hrun).of_guarded
  have hreturns : wa.ioctl (fun _ _ => 0) 0 (.connect ⟨2, .PTIM, 7⟩) = .returns wa' := by
    cases run_run hjoin with
    | cons hstep hnil =>
      cases hnil
      rcases after_eq_some hstep.2.2 with hreturns | heq
      · exact hreturns
      · rw [heq, hbefore] at hafter
        exact absurd hafter (by decide)
  have hat := h wa wa' _ 0 1 _ hwa (by decide) rfl hreturns 0 0 (by decide) 0
  have hjoined : (wa'.moduleContexts 0).At 0 0 := by
    unfold ModuleContext.At
    rw [hafter]
    decide
  rcases hat.mp hjoined with hold | ⟨-, hmodule, -⟩
  · unfold ModuleContext.At at hold
    rw [hbefore] at hold
    cases hold
  · cases hmodule

end Coht.Ctr
