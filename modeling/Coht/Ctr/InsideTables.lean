import Coht.Ctr.AccessValues
import Coht.Ctr.UpLock

/-!
# When the functions stay inside the tables

One lemma for each function says when all its accesses are inside. What is found in a
table is inside of it, so for most of them this is when the module is `OnBoard`,
installed and mapped, unless they come to nothing before they get at it.

A slot that its last client leaves is taken for an interrupt source, and so is the
counter of its trigger (`LooksInside`). What a visit of a loop accesses can be said in
terms of the beginning of the loop, since the visits before have changed what they
visited and nothing else that it looks at (`Ahead`).
-/

namespace Coht.Ctr

open Coht.Lib Accessing Accesses

/-- The module is installed, and its memory is mapped. -/
def OnBoard (wa : WorkingArea) (mapped : Nat → Bool) (m : Nat) : Prop :=
  (wa.moduleContexts m).inUse = true ∧ mapped m = true

instance (wa : WorkingArea) (mapped : Nat → Bool) (m : Nat) :
    Decidable (OnBoard wa mapped m) :=
  inferInstanceAs (Decidable (_ ∧ _))

/-! ## What leaving stays inside for -/

namespace ModuleContext

variable (mcon : ModuleContext) (onBoard : Prop) (behind : Behind) (c : Nat)

/-- The client leaves the slot, and is the last one. -/
def Empties (i : Nat) : Prop :=
  clientMask c &&& mcon.clients i ≠ 0 ∧ mcon.clients i &&& ~~~clientMask c = 0

/-- Another client has the counter itself, or a slot with it. -/
def Shares (cntr : U32) : Prop :=
  mcon.hardClients cntr.toNat &&& ~~~clientMask c ≠ 0 ∨
    ∃ i ∈ List.range CtrDrvrRamTableSIZE,
      (mcon.trigs i).counter = cntr ∧ mcon.clients i &&& ~~~clientMask c ≠ 0

/-- The words of `HardClients[]` that are read for other clients are in it. The last
one is that of the slot, where no other client is found before. -/
def LooksInside (cntr : U32) (tndx : Nat) : Prop :=
  (cntr ≠ -1 → cntr.toNat < CtrDrvrInterruptSOURCES) ∧
    (tndx < CtrDrvrInterruptSOURCES ∨ cntr ≠ -1 ∧ mcon.Shares c cntr)

/-- The visit of `DisConnectOne()` to `i` stays inside. -/
def VisitFits (clss : CtrDrvrConnectionClass) (i : Nat) : Prop :=
  match clss with
  | .CTIM | .PTIM =>
    mcon.Empties c i → onBoard ∧ mcon.LooksInside c (mcon.trigs i).counter i
  | .HARD => i < CtrDrvrInterruptSOURCES ∧ (mcon.SourceDrops behind c i → onBoard)
  | .other _ => True

/-- All raw interrupts can be left. -/
def SourcesFit : Prop :=
  ∀ s < CtrDrvrInterruptSOURCES, mcon.SourceDrops behind c s → onBoard

def ObjectFits (conx : CtrDrvrConnection) : Prop :=
  if conx.eqpClass ≠ .HARD then
    ∀ i ∈ mcon.matching conx.eqpNum conx.eqpClass,
      mcon.VisitFits onBoard behind c conx.eqpClass i
  else mcon.SourcesFit onBoard behind c

def AllFits : Prop :=
  (∀ i ∈ mcon.occupied, mcon.VisitFits onBoard behind c (mcon.eqpClass i) i) ∧
    mcon.SourcesFit onBoard behind c

/-- The tests of `CtrDrvrSET_ACTION`. -/
def TakesAction (act : CtrDrvrAction) : Prop :=
  let i := act.triggerNumber - 1
  act.triggerNumber ≠ 0 ∧ act.triggerNumber ≤ CtrDrvrRamTableSIZE ∧
    mcon.eqpClass i ≠ .HARD ∧ ¬ mcon.refusesAction i act

end ModuleContext

/-! ## The areas -/

section

variable {wa : WorkingArea} {mapped : Nat → Bool} {mcon mcon' : ModuleContext}
  {behind : Behind} {midx c i j tndx w : Nat} {eqpNum : U32}
  {eqpClass clss : CtrDrvrConnectionClass}

@[simp] theorem inside_moduleContexts : Inside (areas wa mapped) (access .moduleContexts i) ↔
    i < CtrDrvrMODULE_CONTEXTS := inside_access

@[simp] theorem inside_configs : Inside (areas wa mapped) (access .configs i) ↔
    i < CtrDrvrRamTableSIZE := inside_access

@[simp] theorem inside_clients : Inside (areas wa mapped) (access .clients i) ↔
    i < CtrDrvrRamTableSIZE := inside_access

@[simp] theorem inside_trigs : Inside (areas wa mapped) (access .trigs i) ↔
    i < CtrDrvrRamTableSIZE := inside_access

@[simp] theorem inside_eqpNum : Inside (areas wa mapped) (access .eqpNum i) ↔
    i < CtrDrvrRamTableSIZE := inside_access

@[simp] theorem inside_eqpClass : Inside (areas wa mapped) (access .eqpClass i) ↔
    i < CtrDrvrRamTableSIZE := inside_access

@[simp] theorem inside_hardClients : Inside (areas wa mapped) (access .hardClients i) ↔
    i < CtrDrvrInterruptSOURCES := inside_access

@[simp] theorem inside_counters : Inside (areas wa mapped) (access .counters i) ↔
    i < CtrDrvrCOUNTERS := inside_access

@[simp] theorem inside_connections : Inside (areas wa mapped) (access .connections i) ↔
    i < CtrDrvrCONNECTIONS := inside_access

theorem inside_map (hw : w < mapSIZE) :
    Inside (areas wa mapped) (access (.map midx) w) ↔ OnBoard wa mapped midx := by
  rw [inside_access]
  unfold areas OnBoard
  dsimp only
  split
  · next h => exact ⟨fun _ => h, fun _ => hw⟩
  · next h => exact ⟨fun hlt => absurd hlt (Nat.not_lt_zero _), fun hin => absurd hin h⟩

theorem inside_words (hw : w + 1 < mapSIZE) :
    Inside (areas wa mapped) (words midx w) ↔ OnBoard wa mapped midx := by
  unfold words
  rw [inside_bind, inside_map (Nat.lt_of_succ_lt hw), inside_map hw, and_self]

theorem inside_change (hw : w < mapSIZE) :
    Inside (areas wa mapped) (change midx w) ↔ OnBoard wa mapped midx := by
  unfold change
  rw [inside_bind, inside_map hw, and_self]

theorem mapTrigs_lt (hi : i < CtrDrvrRamTableSIZE) : mapTrigs i + 1 < mapSIZE := by
  unfold CtrDrvrRamTableSIZE at hi
  unfold mapTrigs mapSIZE mapSetup
  omega

theorem mapConfigs_lt (hi : i < CtrDrvrRamTableSIZE) : mapConfigs i + 1 < mapSIZE := by
  unfold CtrDrvrRamTableSIZE at hi
  unfold mapConfigs mapSIZE mapSetup
  omega

@[simp] theorem inside_trigWords (hi : i < CtrDrvrRamTableSIZE) :
    Inside (areas wa mapped) (words midx (mapTrigs i)) ↔ OnBoard wa mapped midx :=
  inside_words (mapTrigs_lt hi)

@[simp] theorem inside_configWords (hi : i < CtrDrvrRamTableSIZE) :
    Inside (areas wa mapped) (words midx (mapConfigs i)) ↔ OnBoard wa mapped midx :=
  inside_words (mapConfigs_lt hi)

@[simp] theorem inside_configWord (hi : i < CtrDrvrRamTableSIZE) :
    Inside (areas wa mapped) (change midx (mapConfigs i)) ↔ OnBoard wa mapped midx :=
  inside_change (Nat.lt_of_succ_lt (mapConfigs_lt hi))

@[simp] theorem inside_enableInterrupts :
    Inside (areas wa mapped) (Accesses.enableInterrupts midx mcon) ↔
      OnBoard wa mapped midx := by
  unfold Accesses.enableInterrupts
  rw [inside_bind, inside_map (by decide)]
  exact and_iff_left (inside_pure _)

/-! ## Searches -/

theorem inside_isObject (hi : i < CtrDrvrRamTableSIZE) :
    Inside (areas wa mapped) (isObject mcon eqpNum eqpClass i) := by
  unfold isObject
  simp [inside_ite, hi]

theorem inside_find {test : Nat → Code Bool}
    (h : ∀ i < CtrDrvrRamTableSIZE, Inside (areas wa mapped) (test i)) :
    Inside (areas wa mapped) (find test (List.range CtrDrvrRamTableSIZE)) :=
  find_inside fun i hi => h i (List.mem_range.mp hi)

theorem inside_select {test : Nat → Code Bool}
    (h : ∀ i < CtrDrvrRamTableSIZE, Inside (areas wa mapped) (test i)) :
    Inside (areas wa mapped) (select test (List.range CtrDrvrRamTableSIZE)) :=
  select_inside fun i hi => h i (List.mem_range.mp hi)

@[simp] theorem inside_matching :
    Inside (areas wa mapped) (Accesses.matching mcon eqpNum eqpClass) :=
  inside_select fun _ hi => inside_isObject hi

@[simp] theorem inside_findObject : Inside (areas wa mapped)
    (find (isObject mcon eqpNum eqpClass) (List.range CtrDrvrRamTableSIZE)) :=
  inside_find fun _ hi => inside_isObject hi

/-! ## Connect -/

theorem each_onBoard {body : ModuleContext → Nat → Code ModuleContext} {is : List Nat}
    (h : ∀ mcon, ∀ i ∈ is, Inside (areas wa mapped) (body mcon i) ↔ OnBoard wa mapped midx) :
    Inside (areas wa mapped) (each body is mcon) ↔ (is ≠ [] → OnBoard wa mapped midx) := by
  rw [each_inside (fun _ => OnBoard wa mapped midx)
    (fun rest _ => ∀ i ∈ rest, i ∈ is) ?_ fun _ hi => hi]
  · cases is with
    | nil => simp
    | cons i is =>
      exact ⟨fun hall _ => hall i List.mem_cons_self,
        fun hsome _ _ => hsome (List.cons_ne_nil i is)⟩
  · intro i rest s hall
    exact ⟨h s i (hall i List.mem_cons_self), fun j hj => hall j (List.mem_cons_of_mem _ hj)⟩

theorem inside_connectPtim (hmidx : midx < CtrDrvrMODULE_CONTEXTS) :
    Inside (areas wa mapped) (Accesses.connectPtim midx mcon c eqpNum) ↔
      (mcon.matching eqpNum .PTIM ≠ [] → OnBoard wa mapped midx) := by
  have hround : ∀ m : ModuleContext, ∀ i ∈ mcon.matching eqpNum .PTIM,
      Inside (areas wa mapped) (connectPtimSlot midx m c i) ↔ OnBoard wa mapped midx := by
    intro m i hi
    have hlt := (mem_matching.mp hi).1
    unfold connectPtimSlot Accesses.connectSlot
    simp [hlt]
  unfold Accesses.connectPtim
  simp only [inside_bind, inside_ite, inside_pure, inside_moduleContexts, inside_matching,
    matching_value, each_onBoard hround, inside_enableInterrupts, hmidx, and_true, true_and,
    implies_true]
  exact and_self_iff

theorem inside_connectCtim {ctim : List CtrDrvrCtimBinding} :
    Inside (areas wa mapped) (Accesses.connectCtim midx mcon c ctim eqpNum) ↔
      (mcon.matching eqpNum .CTIM ≠ [] ∨
        (ModuleContext.ctimFrame ctim eqpNum).header ≠ 0 ∧ mcon.emptySlot ≠ none →
          OnBoard wa mapped midx) := by
  unfold Accesses.connectCtim
  rw [inside_bind, isObject_find]
  cases hmatch : mcon.matching eqpNum .CTIM with
  | cons i rest =>
    have hlt : i < CtrDrvrRamTableSIZE := by
      have hmem : i ∈ mcon.matching eqpNum .CTIM := by
        rw [hmatch]
        exact List.mem_cons_self
      exact (mem_matching.mp hmem).1
    unfold Accesses.connectSlot
    simp [hlt]
  | nil =>
    have hsearch : Inside (areas wa mapped)
        (find (Accesses.isEmpty mcon) (List.range CtrDrvrRamTableSIZE)) := by
      refine inside_find fun i hi => ?_
      unfold Accesses.isEmpty
      simp [hi]
    simp only [inside_findObject, List.head?_nil, inside_ite, inside_pure, inside_bind,
      isEmpty_find, hsearch]
    cases hempty : mcon.emptySlot with
    | none => simp
    | some i =>
      have hlt := (emptySlot_eq_some hempty).1
      unfold Accesses.fillCtim
      simp [hlt]

theorem inside_connectHard :
    Inside (areas wa mapped) (Accesses.connectHard midx mcon c eqpNum) ↔
      (ModuleContext.sourcesOf eqpNum ≠ [] → OnBoard wa mapped midx) := by
  have hround : Inside (areas wa mapped)
      (each (fun mcon i => Accesses.connectSource mcon c i)
        (ModuleContext.sourcesOf eqpNum) mcon) := by
    refine each_all_inside fun i hi s => ?_
    have hlt := (mem_sourcesOf.mp hi).1
    unfold Accesses.connectSource
    simp [hlt]
  unfold Accesses.connectHard
  simp only [inside_bind, inside_ite, inside_pure, inside_enableInterrupts, hround, and_true,
    true_and, implies_true]

/-! ## Disconnect -/

theorem inside_isShared {cntr : U32} (hi : i < CtrDrvrRamTableSIZE) :
    Inside (areas wa mapped) (isShared mcon c cntr i) := by
  unfold isShared
  simp [inside_ite, hi]

theorem inside_othersAt {k : Nat} : Inside (areas wa mapped) (othersAt behind mcon c k) ↔
    k < CtrDrvrInterruptSOURCES := by
  unfold othersAt
  simp

theorem inside_othersRemain {cntr : U32} :
    Inside (areas wa mapped) (othersRemain behind mcon c cntr tndx) ↔
      mcon.LooksInside c cntr tndx := by
  have hshared : Inside (areas wa mapped)
      (find (isShared mcon c cntr) (List.range CtrDrvrRamTableSIZE)) :=
    inside_find fun _ hi => inside_isShared hi
  unfold othersRemain ModuleContext.LooksInside
  simp only [inside_ite, inside_bind, inside_othersAt, inside_pure, hshared, isShared_find,
    othersAt_value, decide_eq_true_iff]
  by_cases hcntr : cntr = -1
  · simp [hcntr]
  · simp only [ne_eq, hcntr, not_false_eq_true, true_and, true_implies, not_true_eq_false,
      false_implies, and_true, implies_true]
    refine and_congr_right fun hlt => ?_
    unfold ModuleContext.Shares ModuleContext.hardWord
    rw [if_pos hlt]
    by_cases hcounter : mcon.hardClients cntr.toNat &&& ~~~clientMask c = 0
    · by_cases hslot : ∃ i ∈ List.range CtrDrvrRamTableSIZE,
          (mcon.trigs i).counter = cntr ∧ mcon.clients i &&& ~~~clientMask c ≠ 0
      · exact ⟨fun _ => .inr (.inr hslot), fun _ _ hnone => absurd hslot hnone⟩
      · refine ⟨fun h => .inl (h (fun hne => hne hcounter) hslot), fun h _ _ => ?_⟩
        exact h.resolve_right fun hor => hor.elim (fun hne => hne hcounter) hslot
    · exact ⟨fun _ => .inr (.inl hcounter), fun _ hnone => absurd hcounter hnone⟩

theorem inside_counterOf (h : clss ≠ .HARD → tndx < CtrDrvrRamTableSIZE) :
    Inside (areas wa mapped) (Accesses.counterOf mcon clss tndx) := by
  unfold Accesses.counterOf
  simp only [inside_ite, inside_bind, inside_trigs, inside_pure, and_true, implies_true]
  exact h

theorem inside_disableInterrupts (hmidx : midx < CtrDrvrMODULE_CONTEXTS)
    (h : clss ≠ .HARD → tndx < CtrDrvrRamTableSIZE) :
    Inside (areas wa mapped) (Accesses.disableInterrupts behind midx mcon c clss tndx) ↔
      mcon.LooksInside c (mcon.counterOf clss tndx) tndx ∧
        (¬ mcon.othersRemain behind (mcon.counterOf clss tndx) tndx c →
          OnBoard wa mapped midx) := by
  unfold Accesses.disableInterrupts
  simp only [inside_bind, inside_ite, inside_pure, inside_moduleContexts, inside_counterOf h,
    counterOf_value, inside_othersRemain, othersRemain_value, decide_eq_true_iff,
    inside_map (show mapInterruptEnable < mapSIZE by decide), hmidx, true_and, and_true,
    implies_true]

theorem inside_releaseSlot (hi : i < CtrDrvrRamTableSIZE) :
    Inside (areas wa mapped) (Accesses.releaseSlot midx mcon i) ↔ OnBoard wa mapped midx := by
  unfold Accesses.releaseSlot
  rw [inside_bind, inside_ite]
  by_cases hctim : mcon.eqpClass i = .CTIM <;> simp [hctim, hi]

theorem looksInside_source (hi : i < CtrDrvrInterruptSOURCES) :
    mcon.LooksInside c (mcon.counterOf .HARD i) i := by
  refine ⟨fun hne => ?_, .inl hi⟩
  have hbit := @source_bit mcon _ hi
  rw [if_pos hne] at hbit
  rwa [← hbit]

theorem looksInside_congr (h : SameOthers c mcon mcon') {cntr : U32} :
    mcon'.LooksInside c cntr tndx ↔ mcon.LooksInside c cntr tndx := by
  unfold ModuleContext.LooksInside ModuleContext.Shares
  rw [h.hardClients, h.trigs]
  simp only [h.clients]

theorem inside_disConnectSlot (hmidx : midx < CtrDrvrMODULE_CONTEXTS)
    (hi : i < CtrDrvrRamTableSIZE) (hclss : clss ≠ .HARD) :
    Inside (areas wa mapped) (Accesses.disConnectSlot behind midx mcon c clss i) ↔
      (mcon.Empties c i →
        OnBoard wa mapped midx ∧ mcon.LooksInside c (mcon.trigs i).counter i) := by
  have hclients : (mcon.leaveSlot c i).clients i = mcon.clients i &&& ~~~clientMask c :=
    Function.update_self _ _ _
  have hleft := leaveSlot_others mcon c i
  have hcntr : (mcon.leaveSlot c i).counterOf clss i = (mcon.trigs i).counter := by
    unfold ModuleContext.counterOf
    rw [if_pos hclss, hleft.trigs]
  unfold Accesses.disConnectSlot ModuleContext.Empties
  simp only [inside_bind, inside_ite, inside_pure, inside_clients, hi, hclients,
    inside_releaseSlot hi, inside_disableInterrupts hmidx fun _ => hi, hcntr,
    looksInside_congr hleft, true_and, implies_true]
  constructor
  · intro h hand
    have hin := h hand.1 fun hne => hne hand.2
    exact ⟨hin.2, hin.1.1⟩
  · intro h hmember hzero
    have hin := h ⟨hmember, not_not.mp hzero⟩
    exact ⟨⟨hin.2, fun _ => hin.1⟩, hin.1⟩

theorem inside_disConnectSource (hmidx : midx < CtrDrvrMODULE_CONTEXTS) :
    Inside (areas wa mapped) (Accesses.disConnectSource behind midx mcon c i) ↔
      i < CtrDrvrInterruptSOURCES ∧ (mcon.SourceDrops behind c i → OnBoard wa mapped midx) := by
  have hclients : (mcon.leaveSource c i).hardClients i =
      mcon.hardClients i &&& ~~~clientMask c := Function.update_self _ _ _
  have hleft := leaveSource_others mcon c i
  have hcntr : (mcon.leaveSource c i).counterOf .HARD i = mcon.counterOf .HARD i := rfl
  unfold Accesses.disConnectSource ModuleContext.SourceDrops
  simp only [inside_bind, inside_ite, inside_pure, inside_hardClients, hclients,
    inside_disableInterrupts hmidx fun hne => absurd rfl hne, hcntr, looksInside_congr hleft,
    hleft.remain, true_and, implies_true]
  refine and_congr_right fun hi => ⟨?_, ?_⟩
  · intro h hand
    exact ((h hand.1).2 fun hne => hne hand.2.1).2 hand.2.2
  · intro h hne
    refine ⟨hi, fun hzero => ⟨looksInside_source hi, fun hnone => ?_⟩⟩
    exact h ⟨hne, not_not.mp hzero, hnone⟩

theorem inside_disConnectOne (hmidx : midx < CtrDrvrMODULE_CONTEXTS)
    (hi : i < CtrDrvrRamTableSIZE) :
    Inside (areas wa mapped) (Accesses.disConnectOne behind midx mcon c clss i) ↔
      mcon.VisitFits (OnBoard wa mapped midx) behind c clss i := by
  unfold Accesses.disConnectOne
  rw [inside_bind, inside_moduleContexts, and_iff_right hmidx]
  cases clss with
  | CTIM => exact inside_disConnectSlot hmidx hi (by decide)
  | PTIM => exact inside_disConnectSlot hmidx hi (by decide)
  | HARD => exact inside_disConnectSource hmidx
  | other n => exact iff_of_true (inside_pure _) trivial

structure Ahead (c : Nat) (mcon mcon' : ModuleContext) (i : Nat) : Prop where
  others : SameOthers c mcon mcon'
  clients : mcon'.clients i = mcon.clients i
  hardClients : mcon'.hardClients i = mcon.hardClients i
  eqpClass : mcon'.eqpClass i = mcon.eqpClass i

theorem Ahead.refl (c : Nat) (mcon : ModuleContext) (i : Nat) : Ahead c mcon mcon i :=
  ⟨.refl c mcon, rfl, rfl, rfl⟩

theorem Ahead.fits (h : Ahead c mcon mcon' i) {onBoard : Prop} :
    mcon'.VisitFits onBoard behind c clss i ↔ mcon.VisitFits onBoard behind c clss i := by
  have hslot : (mcon'.Empties c i →
      onBoard ∧ mcon'.LooksInside c (mcon'.trigs i).counter i) ↔
      (mcon.Empties c i → onBoard ∧ mcon.LooksInside c (mcon.trigs i).counter i) := by
    unfold ModuleContext.Empties
    rw [h.clients, looksInside_congr h.others, h.others.trigs]
  have hsource : mcon'.SourceDrops behind c i ↔ mcon.SourceDrops behind c i := by
    have hcntr : mcon'.counterOf .HARD i = mcon.counterOf .HARD i := rfl
    unfold ModuleContext.SourceDrops
    rw [h.hardClients, hcntr, h.others.remain]
  unfold ModuleContext.VisitFits
  cases clss with
  | CTIM => exact hslot
  | PTIM => exact hslot
  | HARD => dsimp only; rw [hsource]
  | other n => exact Iff.rfl

theorem disConnectOne_others :
    SameOthers c mcon (mcon.disConnectOne behind clss c i) := by
  cases clss with
  | CTIM => exact disConnectSlot_others
  | PTIM => exact disConnectSlot_others
  | HARD => exact disConnectSource_others
  | other n => exact .refl c mcon

theorem Ahead.visit (h : Ahead c mcon mcon' j) (hi : i < CtrDrvrRamTableSIZE) (hj : j ≠ i) :
    Ahead c mcon (mcon'.disConnectOne behind clss c i) j := by
  have hslot : (mcon'.disConnectOne behind clss c i).slot j = mcon'.slot j := by
    by_cases hclss : clss = .HARD
    · rw [hclss]
      exact disConnectSource_slot
    · exact (disConnectOne_slot hi hclss j).trans (if_neg hj)
  have hhard : (mcon'.disConnectOne behind clss c i).hardClients j =
      mcon'.hardClients j := by
    cases clss with
    | CTIM => exact congrFun disConnectSlot_hardClients j
    | PTIM => exact congrFun disConnectSlot_hardClients j
    | HARD =>
      refine (congrFun disConnectSource_hardClients j).trans ?_
      exact Function.update_of_ne hj _ _
    | other n => rfl
  exact {
    others := h.others.trans disConnectOne_others
    clients := (congrArg Slot.clients hslot).trans h.clients
    hardClients := hhard.trans h.hardClients
    eqpClass := (congrArg Slot.eqpClass hslot).trans h.eqpClass }

theorem visits_inside {body : ModuleContext → Nat → Code ModuleContext}
    (kind : ModuleContext → Nat → CtrDrvrConnectionClass) {is : List Nat}
    (hbody : ∀ m, ∀ i < CtrDrvrRamTableSIZE, (Inside (areas wa mapped) (body m i) ↔
      m.VisitFits (OnBoard wa mapped midx) behind c (kind m i) i) ∧
        (body m i).value = m.disConnectOne behind (kind m i) c i)
    (hkind : ∀ m i, m.eqpClass i = mcon.eqpClass i → kind m i = kind mcon i)
    (htable : ∀ i ∈ is, i < CtrDrvrRamTableSIZE) (hnodup : is.Nodup) :
    Inside (areas wa mapped) (each body is mcon) ↔
      ∀ i ∈ is, mcon.VisitFits (OnBoard wa mapped midx) behind c (kind mcon i) i := by
  refine each_inside _ (fun rest m => rest.Nodup ∧ ∀ i ∈ rest,
    i < CtrDrvrRamTableSIZE ∧ Ahead c mcon m i) ?_
    ⟨hnodup, fun i hi => ⟨htable i hi, .refl c mcon i⟩⟩
  intro i rest m hrest
  obtain ⟨hlt, hahead⟩ := hrest.2 i List.mem_cons_self
  obtain ⟨hfirst, hnodup⟩ := List.nodup_cons.mp hrest.1
  obtain ⟨hin, hvalue⟩ := hbody m i hlt
  refine ⟨?_, hnodup, fun j hj => ?_⟩
  · rw [hin, hkind m i hahead.eqpClass]
    exact hahead.fits
  · obtain ⟨hjlt, hjahead⟩ := hrest.2 j (List.mem_cons_of_mem _ hj)
    rw [hvalue]
    exact ⟨hjlt, hjahead.visit hlt (ne_of_mem_of_not_mem hj hfirst)⟩

theorem inside_disConnectSources (hmidx : midx < CtrDrvrMODULE_CONTEXTS) :
    Inside (areas wa mapped) (Accesses.disConnectSources behind midx mcon c) ↔
      mcon.SourcesFit (OnBoard wa mapped midx) behind c := by
  have htable : ∀ i ∈ List.range CtrDrvrInterruptSOURCES, i < CtrDrvrRamTableSIZE :=
    fun i hi => Nat.lt_trans (List.mem_range.mp hi) (by decide)
  unfold Accesses.disConnectSources ModuleContext.SourcesFit
  rw [visits_inside (fun _ _ => .HARD)
    (fun m i hi => ⟨inside_disConnectOne hmidx hi, disConnectOne_value⟩)
    (fun _ _ _ => rfl) htable List.nodup_range]
  constructor
  · exact fun h s hs => (h s (List.mem_range.mpr hs)).2
  · exact fun h s hs => ⟨List.mem_range.mp hs, h s (List.mem_range.mp hs)⟩

theorem inside_disConnect (hmidx : midx < CtrDrvrMODULE_CONTEXTS) {conx : CtrDrvrConnection} :
    Inside (areas wa mapped)
        (Accesses.disConnect behind midx mcon c conx.eqpNum conx.eqpClass) ↔
      mcon.ObjectFits (OnBoard wa mapped midx) behind c conx := by
  unfold Accesses.disConnect ModuleContext.ObjectFits
  rw [inside_bind, inside_moduleContexts, and_iff_right hmidx]
  split
  · rw [inside_bind, and_iff_right inside_matching, matching_value,
      visits_inside (fun _ _ => conx.eqpClass)
        (fun m i hi => ⟨inside_disConnectOne hmidx hi, disConnectOne_value⟩)
        (fun _ _ _ => rfl) (fun i hi => (mem_matching.mp hi).1) matching_nodup]
  · exact inside_disConnectSources hmidx

theorem disConnectOne_hardClients : (mcon.disConnectOne behind clss c i).hardClients =
    if clss = .HARD then
      Function.update mcon.hardClients i (mcon.hardClients i &&& ~~~clientMask c)
    else mcon.hardClients := by
  cases clss with
  | CTIM => exact disConnectSlot_hardClients
  | PTIM => exact disConnectSlot_hardClients
  | HARD => exact disConnectSource_hardClients
  | other n => rfl

theorem sourcesFit_occupied {onBoard : Prop}
    (hslots : ∀ i ∈ mcon.occupied, mcon.VisitFits onBoard behind c (mcon.eqpClass i) i) :
    (mcon.occupied.foldl (fun m i => m.disConnectOne behind (m.eqpClass i) c i)
      mcon).SourcesFit onBoard behind c ↔ mcon.SourcesFit onBoard behind c := by
  rw [occupied_visits]
  have hothers : SameOthers c mcon (mcon.occupied.foldl
      (fun m i => m.disConnectOne behind (mcon.eqpClass i) c i) mcon) :=
    foldl_keeps (fun m i _ hm => hm.trans disConnectOne_others) (.refl c mcon)
  have hsep : Separate (fun m i => ModuleContext.disConnectOne m behind (mcon.eqpClass i) c i)
      ModuleContext.hardClients mcon.occupied := by
    intro m i _ j hj
    rw [disConnectOne_hardClients]
    split
    · exact Function.update_of_ne hj _ _
    · rfl
  have hlocal : Local (fun m i => ModuleContext.disConnectOne m behind (mcon.eqpClass i) c i)
      ModuleContext.hardClients mcon.occupied := by
    intro m m' i _ heq
    rw [disConnectOne_hardClients, disConnectOne_hardClients]
    split
    · rw [Function.update_self, Function.update_self, heq]
    · exact heq
  -- A source has the same word as before, or it has been visited under its own number.
  have hword : ∀ s, (mcon.occupied.foldl
      (fun m i => m.disConnectOne behind (mcon.eqpClass i) c i) mcon).hardClients s =
        mcon.hardClients s ∨
      (mcon.occupied.foldl
        (fun m i => m.disConnectOne behind (mcon.eqpClass i) c i) mcon).hardClients s =
          mcon.hardClients s &&& ~~~clientMask c ∧ (mcon.SourceDrops behind c s → onBoard) := by
    intro s
    by_cases hmem : s ∈ mcon.occupied
    · rw [foldl_visit hsep hlocal occupied_nodup hmem, disConnectOne_hardClients]
      have hfits := hslots s hmem
      split
      · next hclass =>
        rw [hclass] at hfits
        exact .inr ⟨Function.update_self _ _ _, hfits.2⟩
      · exact .inl rfl
    · exact .inl (foldl_not_mem hsep hmem)
  generalize mcon.occupied.foldl
    (fun m i => m.disConnectOne behind (mcon.eqpClass i) c i) mcon = left at hothers hword ⊢
  have hsame : ∀ s, left.hardClients s = mcon.hardClients s →
      (left.SourceDrops behind c s ↔ mcon.SourceDrops behind c s) := by
    intro s heq
    have hcntr : left.counterOf .HARD s = mcon.counterOf .HARD s := rfl
    unfold ModuleContext.SourceDrops
    rw [heq, hcntr, hothers.remain]
  constructor
  · intro h s hs hdrops
    rcases hword s with heq | ⟨-, hvisited⟩
    · exact h s hs ((hsame s heq).mpr hdrops)
    · exact hvisited hdrops
  · intro h s hs hdrops
    rcases hword s with heq | ⟨heq, -⟩
    · exact h s hs ((hsame s heq).mp hdrops)
    · obtain ⟨hne, hnone, -⟩ := hdrops
      rw [heq, leave_leave] at hnone
      exact absurd (heq.trans hnone) hne

theorem inside_disConnectModule (hmidx : midx < CtrDrvrMODULE_CONTEXTS) :
    Inside (areas wa mapped) (Accesses.disConnectModule behind midx mcon c) ↔
      mcon.AllFits (OnBoard wa mapped midx) behind c := by
  have hsearch : Inside (areas wa mapped)
      (select (isOccupied mcon) (List.range CtrDrvrRamTableSIZE)) := by
    refine inside_select fun i hi => ?_
    unfold isOccupied
    simp [hi]
  have hoccupied : (select (isOccupied mcon) (List.range CtrDrvrRamTableSIZE)).value =
      mcon.occupied := select_value
  have hvalue : ∀ (m : ModuleContext) i, (disConnectOccupied behind midx m c i).value =
      m.disConnectOne behind (m.eqpClass i) c i := fun _ _ => disConnectOne_value
  have hslots := @visits_inside wa mapped mcon behind midx c
    (fun m i => disConnectOccupied behind midx m c i) (fun m i => m.eqpClass i) mcon.occupied
    (fun m i hi => ⟨by
      unfold disConnectOccupied
      rw [inside_bind, inside_eqpClass, and_iff_right hi]
      exact inside_disConnectOne hmidx hi, hvalue m i⟩)
    (fun _ _ heq => heq) (fun i hi => (mem_occupied.mp hi).1) occupied_nodup
  unfold Accesses.disConnectModule ModuleContext.AllFits
  rw [inside_bind, inside_moduleContexts, and_iff_right hmidx, inside_bind,
    and_iff_right hsearch, inside_bind, hoccupied, hslots, each_value,
    inside_disConnectSources hmidx]
  simp only [hvalue]
  exact and_congr_right fun hfits => sourcesFit_occupied hfits

theorem inside_disConnectAll {behind : Nat → Behind}
    (hmodules : wa.modules ≤ CtrDrvrMODULE_CONTEXTS) :
    Inside (areas wa mapped) (Accesses.disConnectAll behind wa c) ↔ ∀ m < wa.modules,
      (wa.moduleContexts m).AllFits (OnBoard wa mapped m) (behind m) c := by
  unfold Accesses.disConnectAll
  rw [each_inside (fun m => (wa.moduleContexts m).AllFits (OnBoard wa mapped m) (behind m) c)
    (fun rest wa' => rest.Nodup ∧ ∀ m ∈ rest, m < wa.modules ∧
      wa'.moduleContexts m = wa.moduleContexts m) ?_
    ⟨List.nodup_range, fun m hm => ⟨List.mem_range.mp hm, rfl⟩⟩]
  · simp only [List.mem_range]
  · intro m rest wa' hrest
    obtain ⟨hlt, hsame⟩ := hrest.2 m List.mem_cons_self
    obtain ⟨hfirst, hnodup⟩ := List.nodup_cons.mp hrest.1
    refine ⟨?_, hnodup, fun j hj => ?_⟩
    · rw [inside_bind, hsame, inside_disConnectModule (Nat.lt_of_lt_of_le hlt hmodules)]
      exact and_iff_left (inside_pure _)
    · obtain ⟨hjlt, hjsame⟩ := hrest.2 j (List.mem_cons_of_mem _ hj)
      refine ⟨hjlt, Eq.trans ?_ hjsame⟩
      exact Function.update_of_ne (ne_of_mem_of_not_mem hj hfirst) _ _

/-! ## Actions -/

theorem inside_claimAction {act : CtrDrvrAction} (hi : i < CtrDrvrRamTableSIZE) :
    Inside (areas wa mapped) (Accesses.claimAction mcon i act) := by
  unfold Accesses.claimAction
  simp [inside_ite, hi]

theorem inside_writeAction {act : CtrDrvrAction} (hi : i < CtrDrvrRamTableSIZE) :
    Inside (areas wa mapped) (Accesses.writeAction midx mcon i act) ↔
      OnBoard wa mapped midx := by
  unfold Accesses.writeAction
  simp [hi]

theorem inside_setAction {act : CtrDrvrAction} :
    Inside (areas wa mapped) (Accesses.setAction midx mcon act) ↔
      (mcon.TakesAction act → OnBoard wa mapped midx) := by
  unfold Accesses.setAction ModuleContext.TakesAction
  dsimp only
  by_cases hrange : act.triggerNumber = 0 ∨ CtrDrvrRamTableSIZE < act.triggerNumber
  · rw [if_pos hrange]
    refine iff_of_true (inside_pure _) fun h => ?_
    exact absurd hrange (not_or.mpr ⟨h.1, Nat.not_lt.mpr h.2.1⟩)
  · obtain ⟨hzero, hle⟩ := not_or.mp hrange
    have hle := Nat.not_lt.mp hle
    have hi : act.triggerNumber - 1 < CtrDrvrRamTableSIZE := by omega
    rw [if_neg hrange, inside_bind, inside_eqpClass, and_iff_right hi]
    generalize act.triggerNumber - 1 = i at hi ⊢
    by_cases hclass : mcon.eqpClass i = .HARD
    · rw [if_pos hclass]
      exact iff_of_true (inside_pure _) fun h => absurd hclass h.2.2.1
    · rw [if_neg hclass, inside_bind, and_iff_right (inside_claimAction hi),
        claimAction_value]
      by_cases hrefuses : mcon.refusesAction i act
      · rw [if_pos hrefuses]
        exact iff_of_true (inside_pure _) fun h => absurd hrefuses h.2.2.2
      · rw [if_neg hrefuses]
        have htakes : act.triggerNumber ≠ 0 ∧ act.triggerNumber ≤ CtrDrvrRamTableSIZE ∧
            mcon.eqpClass i ≠ .HARD ∧ ¬ mcon.refusesAction i act :=
          ⟨hzero, hle, hclass, hrefuses⟩
        rw [forall_prop_of_true htakes]
        by_cases hheld : mcon.eqpNum i ≠ 0
        · rw [if_pos hheld]
          dsimp only
          rw [inside_bind, inside_writeAction hi, and_iff_left (inside_pure _)]
        · rw [if_neg hheld]
          dsimp only
          rw [inside_bind, inside_writeAction hi, and_iff_left (inside_pure _)]

theorem inside_getAction {triggerNumber : Nat} :
    Inside (areas wa mapped) (Accesses.getAction midx mcon triggerNumber) ↔
      (0 < triggerNumber ∧ triggerNumber ≤ CtrDrvrRamTableSIZE → OnBoard wa mapped midx) := by
  unfold Accesses.getAction
  dsimp only
  split
  · next hrange =>
    have hi : triggerNumber - 1 < CtrDrvrRamTableSIZE := by omega
    rw [forall_prop_of_true hrange]
    simp [hi]
  · next hrange => exact iff_of_true (inside_pure _) fun h => absurd h hrange

/-! ## Objects of PTIMs -/

theorem inside_searchSlots {want : Nat} {ns : List Nat} {acc : Search}
    (h : ∀ n ∈ ns, n < CtrDrvrRamTableSIZE) :
    Inside (areas wa mapped) (searchSlots mcon want ns acc) := by
  induction ns generalizing acc with
  | nil => exact inside_pure _
  | cons n ns ih =>
    have hrest : ∀ {acc}, Inside (areas wa mapped) (searchSlots mcon want ns acc) :=
      ih fun m hm => h m (List.mem_cons_of_mem _ hm)
    unfold searchSlots
    rw [inside_bind, inside_eqpNum]
    refine ⟨h n List.mem_cons_self, ?_⟩
    dsimp only
    split
    · split
      · exact inside_pure _
      · exact hrest
    · exact hrest

theorem inside_createPtim {ptim : CtrDrvrPtimBinding}
    (hmodules : wa.modules ≤ CtrDrvrMODULE_CONTEXTS) :
    Inside (areas wa mapped) (Accesses.createPtim wa ptim) := by
  have hrow : ∀ n ∈ List.range' 0 CtrDrvrRamTableSIZE, n < CtrDrvrRamTableSIZE := by
    intro n hn
    have hlt := (List.mem_range'_1.mp hn).2
    omega
  unfold Accesses.createPtim
  simp only [inside_ite, inside_pure, implies_true, inside_bind, inside_moduleContexts,
    inside_searchSlots hrow, searchSlots_value, true_and, and_true]
  intro _ _ hmodule
  refine ⟨Nat.lt_of_lt_of_le hmodule hmodules, fun hfound => ?_⟩
  refine each_all_inside fun i hi m => ?_
  obtain ⟨hlow, hhigh⟩ := List.mem_range'_1.mp hi
  have hspec := @ptimSlots_spec (wa.moduleContexts ptim.moduleIndex) ptim.size (by omega)
    hfound.1 hfound.2
  have hlt := Nat.lt_of_lt_of_le hhigh hspec.1
  unfold Accesses.claimPtim
  simp [hlt]

theorem inside_destroyPtim {ptim : CtrDrvrPtimBinding}
    (hmodules : wa.modules ≤ CtrDrvrMODULE_CONTEXTS) :
    Inside (areas wa mapped) (Accesses.destroyPtim wa ptim) ↔
      (GivesPtim wa ptim → OnBoard wa mapped ptim.moduleIndex) := by
  have hbusy : Inside (areas wa mapped)
      (find (isBusy (wa.moduleContexts ptim.moduleIndex) ptim.eqpNum)
        (List.range CtrDrvrRamTableSIZE)) := by
    refine inside_find fun i hi => ?_
    unfold isBusy
    simp [inside_ite, inside_isObject hi, hi]
  have hround : ∀ m : ModuleContext,
      ∀ i ∈ (wa.moduleContexts ptim.moduleIndex).matching ptim.eqpNum .PTIM,
        Inside (areas wa mapped) (Accesses.clearPtim ptim.moduleIndex m i) ↔
          OnBoard wa mapped ptim.moduleIndex := by
    intro m i hi
    have hlt := (mem_matching.mp hi).1
    unfold Accesses.clearPtim
    simp [hlt]
  unfold Accesses.destroyPtim GivesPtim
  simp only [inside_ite, inside_pure, implies_true, and_true, inside_bind,
    inside_moduleContexts, hbusy, inside_matching, isBusy_find, matching_value,
    each_onBoard hround, true_and]
  constructor
  · intro h hand
    refine (h hand.1).2 ?_ hand.2.1 hand.2.1
    simpa using hand.2.2
  · intro h hmodule
    refine ⟨Nat.lt_of_lt_of_le hmodule hmodules, fun hfree hsome _ => h ⟨hmodule, hsome, ?_⟩⟩
    simpa using hfree

/-! ## Configurations -/

theorem inside_setConfig {counter : Nat} {conf : CtrDrvrCounterConfiguration} :
    Inside (areas wa mapped) (Accesses.setConfig midx mcon counter conf) ↔
      counter ≤ 8 ∧ OnBoard wa mapped midx := by
  unfold Accesses.setConfig
  by_cases hcounter : counter ≤ 8
  · have hlock : mapLockConfig counter < mapSIZE := by
      unfold mapLockConfig mapCounters mapSIZE mapSetup
      omega
    have hconfig : mapCounterConfig counter + 1 < mapSIZE := by
      unfold mapCounterConfig mapCounters mapSIZE mapSetup
      omega
    have hlt : counter < CtrDrvrCOUNTERS := Nat.lt_of_le_of_lt hcounter (by decide)
    simp only [inside_bind, inside_counters, inside_map hlock, inside_ite, inside_pure,
      inside_words hconfig, hlt, hcounter, true_and, and_true, implies_true, true_implies,
      not_true_eq_false]
    exact and_iff_left_of_imp fun h _ => h
  · rw [inside_bind, inside_counters]
    refine iff_of_false (fun h => ?_) fun h => hcounter h.1
    have hlt : counter < 9 := h.1
    omega

theorem inside_getConfig {counter : Nat} :
    Inside (areas wa mapped) (Accesses.getConfig midx mcon counter) ↔
      (counter ≤ 8 → OnBoard wa mapped midx) := by
  unfold Accesses.getConfig
  by_cases hcounter : counter ≤ 8
  · have hconfig : mapCounterConfig counter + 1 < mapSIZE := by
      unfold mapCounterConfig mapCounters mapSIZE mapSetup
      omega
    have hlt : counter < CtrDrvrCOUNTERS := Nat.lt_of_le_of_lt hcounter (by decide)
    rw [if_pos hcounter, forall_prop_of_true hcounter]
    simp only [inside_bind, inside_counters, inside_pure, inside_words hconfig, hlt, true_and,
      and_true]
  · rw [if_neg hcounter]
    exact iff_of_true (inside_pure _) fun h => absurd h hcounter

end

end Coht.Ctr
