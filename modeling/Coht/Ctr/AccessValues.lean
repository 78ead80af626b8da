import Coht.Ctr.Accesses

/-!
# What the requests compute

The functions with their accesses compute what the model of the functions computes.
Where an access goes wrong they go on with what the model has there: `behind` for
`HardClients[]`.
-/

namespace Coht.Ctr.Accesses

open Coht.Lib Accessing Errno

section

variable {mcon : ModuleContext} {behind : Behind} {midx c i tndx counter : Nat}
  {eqpNum : U32} {eqpClass clss : CtrDrvrConnectionClass}

/-! ## Objects -/

@[simp] theorem isObject_value : (isObject mcon eqpNum eqpClass i).value =
    decide (mcon.eqpNum i = eqpNum ∧ mcon.eqpClass i = eqpClass) := by
  unfold isObject
  by_cases heqp : mcon.eqpNum i = eqpNum <;> simp [heqp]

@[simp] theorem matching_value :
    (matching mcon eqpNum eqpClass).value = mcon.matching eqpNum eqpClass := by
  unfold matching
  rw [select_value]
  simp only [isObject_value]
  rfl

theorem isObject_find :
    (find (isObject mcon eqpNum eqpClass) (List.range CtrDrvrRamTableSIZE)).value =
      (mcon.matching eqpNum eqpClass).head? := by
  rw [find_value]
  simp only [isObject_value]
  exact List.head?_filter.symm

@[simp] theorem enableInterrupts_value : (enableInterrupts midx mcon).value =
    mcon.enableInterrupts mcon.interruptEnable := rfl

/-! ## Connect -/

@[simp] theorem connectSlot_value {hmsk : U32} :
    (connectSlot midx mcon c hmsk i).value = mcon.connectSlot c hmsk i := rfl

theorem connectPtim_value :
    (connectPtim midx mcon c eqpNum).value = mcon.connectPtim eqpNum c := by
  unfold connectPtim ModuleContext.connectPtim
  simp only [value_bind, value_ite, value_pure, matching_value, each_value,
    enableInterrupts_value]
  rfl

@[simp] theorem isEmpty_find :
    (find (isEmpty mcon) (List.range CtrDrvrRamTableSIZE)).value = mcon.emptySlot :=
  find_value

theorem connectCtim_value {ctim : List CtrDrvrCtimBinding} :
    (connectCtim midx mcon c ctim eqpNum).value = mcon.connectCtim ctim eqpNum c := by
  unfold connectCtim ModuleContext.connectCtim
  rw [value_bind, isObject_find]
  cases (mcon.matching eqpNum .CTIM).head? with
  | some i => rfl
  | none =>
    dsimp only
    rw [value_ite]
    refine if_congr Iff.rfl rfl ?_
    rw [value_bind, isEmpty_find]
    cases mcon.emptySlot with
    | none => rfl
    | some i => rfl

theorem connectHard_value :
    (connectHard midx mcon c eqpNum).value = mcon.connectHard eqpNum c := by
  unfold connectHard ModuleContext.connectHard
  simp only [value_bind, value_ite, value_pure, each_value, enableInterrupts_value]
  rfl

/-! ## Disconnect -/

theorem isShared_value {cntr : U32} : (isShared mcon c cntr i).value =
    decide ((mcon.trigs i).counter = cntr ∧ mcon.clients i &&& ~~~clientMask c ≠ 0) := by
  unfold isShared
  by_cases hcntr : (mcon.trigs i).counter = cntr <;> simp [hcntr]

theorem isShared_find {cntr : U32} :
    (find (isShared mcon c cntr) (List.range CtrDrvrRamTableSIZE)).value.isSome = true ↔
      ∃ i ∈ List.range CtrDrvrRamTableSIZE,
        (mcon.trigs i).counter = cntr ∧ mcon.clients i &&& ~~~clientMask c ≠ 0 := by
  rw [find_value, List.find?_isSome]
  simp only [isShared_value, decide_eq_true_iff]

@[simp] theorem othersAt_value {k : Nat} : (othersAt behind mcon c k).value =
    decide (mcon.hardWord behind k &&& ~~~clientMask c ≠ 0) := rfl

theorem othersRemain_value {cntr : U32} : (othersRemain behind mcon c cntr tndx).value =
    decide (mcon.othersRemain behind cntr tndx c) := by
  rw [Bool.eq_iff_iff, decide_eq_true_iff]
  unfold othersRemain ModuleContext.othersRemain
  rw [value_ite]
  by_cases hcntr : cntr = -1
  · rw [if_neg fun h => h hcntr, othersAt_value, decide_eq_true_iff]
    exact ⟨.inr, fun h => h.resolve_left fun hand => hand.1 hcntr⟩
  · rw [if_pos hcntr, value_bind, value_ite, value_bind, value_ite, othersAt_value,
      othersAt_value]
    simp only [value_pure, decide_eq_true_iff, isShared_find]
    split
    · next hcounter => exact ⟨fun _ => .inl ⟨hcntr, .inl hcounter⟩, fun _ => rfl⟩
    · next hcounter =>
      split
      · next hshared => exact ⟨fun _ => .inl ⟨hcntr, .inr hshared⟩, fun _ => rfl⟩
      · next hshared =>
        rw [decide_eq_true_iff]
        exact ⟨.inr, fun h => h.resolve_left fun hand => hand.2.elim hcounter hshared⟩

theorem counterOf_value : (counterOf mcon clss tndx).value = mcon.counterOf clss tndx := by
  unfold counterOf
  rw [value_ite]
  exact ite_self _

theorem disableInterrupts_value : (disableInterrupts behind midx mcon c clss tndx).value =
    mcon.disableInterrupts behind clss c tndx := by
  unfold disableInterrupts
  simp only [value_bind, value_ite, value_pure]
  rw [counterOf_value, othersRemain_value]
  split
  · next hothers =>
    unfold ModuleContext.disableInterrupts
    dsimp only
    rw [if_pos (of_decide_eq_true hothers)]
  · rfl

theorem releaseSlot_value : (releaseSlot midx mcon tndx).value = mcon.releaseSlot tndx := by
  unfold releaseSlot
  rw [value_bind, value_ite]
  split <;> rfl

theorem disConnectSlot_value : (disConnectSlot behind midx mcon c clss tndx).value =
    mcon.disConnectSlot behind clss c tndx := by
  unfold disConnectSlot ModuleContext.disConnectSlot
  simp only [value_bind, value_ite, value_pure, disableInterrupts_value, releaseSlot_value]

theorem disConnectSource_value : (disConnectSource behind midx mcon c tndx).value =
    mcon.disConnectSource behind c tndx := by
  unfold disConnectSource ModuleContext.disConnectSource
  simp only [value_bind, value_ite, value_pure, disableInterrupts_value]

@[simp] theorem disConnectOne_value : (disConnectOne behind midx mcon c clss tndx).value =
    mcon.disConnectOne behind clss c tndx := by
  unfold disConnectOne ModuleContext.disConnectOne
  rw [value_bind]
  cases clss with
  | CTIM => exact disConnectSlot_value
  | PTIM => exact disConnectSlot_value
  | HARD => exact disConnectSource_value
  | other _ => rfl

@[simp] theorem disConnectSources_value : (disConnectSources behind midx mcon c).value =
    mcon.disConnectSources behind c := by
  unfold disConnectSources ModuleContext.disConnectSources
  simp only [each_value, disConnectOne_value]

theorem disConnect_value : (disConnect behind midx mcon c eqpNum eqpClass).value =
    mcon.disConnect behind eqpNum eqpClass c := by
  unfold disConnect ModuleContext.disConnect
  simp only [value_bind, value_ite, matching_value, each_value, disConnectOne_value,
    disConnectSources_value]

theorem disConnectModule_value : (disConnectModule behind midx mcon c).value =
    mcon.disConnectModule behind c := by
  have hoccupied : (select (isOccupied mcon) (List.range CtrDrvrRamTableSIZE)).value =
      mcon.occupied := select_value
  have hone : ∀ (mcon : ModuleContext) i, (disConnectOccupied behind midx mcon c i).value =
      mcon.disConnectOne behind (mcon.eqpClass i) c i := fun _ _ => disConnectOne_value
  unfold disConnectModule ModuleContext.disConnectModule
  simp only [value_bind, hoccupied, each_value, hone, disConnectSources_value]

/-! ## Actions -/

theorem claimAction_value {act : CtrDrvrAction} : (claimAction mcon i act).value =
    if mcon.refusesAction i act then .error .EINVAL
    else if mcon.eqpNum i ≠ 0 then .ok mcon else .ok (mcon.claimAction i act) := by
  unfold claimAction
  simp only [value_bind, value_ite, value_pure]
  by_cases hempty : mcon.eqpNum i ≠ 0
  · rw [if_pos hempty, if_pos hempty]
    by_cases heqp : mcon.eqpNum i ≠ act.eqpNum
    · rw [if_pos heqp, if_pos ⟨hempty, .inl heqp⟩]
    · by_cases hclass : mcon.eqpClass i ≠ act.eqpClass
      · rw [if_neg heqp, if_pos hclass, if_pos ⟨hempty, .inr (.inl hclass)⟩]
      · rw [if_neg heqp, if_neg hclass]
        refine if_congr ⟨fun h => ⟨hempty, .inr (.inr h)⟩, fun h => ?_⟩ rfl rfl
        exact (h.2.resolve_left heqp).resolve_left hclass
  · rw [if_neg hempty, if_neg fun h => hempty h.1, if_neg hempty]

theorem setAction_value {act : CtrDrvrAction} :
    (setAction midx mcon act).value = mcon.setAction act := by
  unfold setAction ModuleContext.setAction
  dsimp only
  rw [value_ite]
  refine if_congr Iff.rfl rfl ?_
  rw [value_bind, value_ite]
  refine if_congr Iff.rfl rfl ?_
  rw [value_bind, claimAction_value]
  generalize act.triggerNumber - 1 = i
  by_cases hrefuses : mcon.refusesAction i act
  · rw [if_pos hrefuses, if_pos hrefuses]
    rfl
  · rw [if_neg hrefuses, if_neg hrefuses]
    by_cases hheld : mcon.eqpNum i ≠ 0
    · rw [if_pos hheld, if_pos hheld]
      rfl
    · rw [if_neg hheld, if_neg hheld]
      rfl

theorem getAction_value {triggerNumber : Nat} :
    (getAction midx mcon triggerNumber).value = mcon.getAction triggerNumber := by
  unfold getAction ModuleContext.getAction
  rw [value_ite]
  rfl

/-! ## Objects of PTIMs -/

theorem searchSlots_value {want : Nat} {ns : List Nat} {acc : Search} :
    (searchSlots mcon want ns acc).value =
      search (fun i => mcon.eqpNum i = 0) want ns acc := by
  induction ns generalizing acc with
  | nil => rfl
  | cons n ns ih =>
    unfold searchSlots search
    dsimp only
    simp only [value_bind, value_ite, value_pure, decide_eq_true_iff, ih]

theorem isBusy_value : (isBusy mcon eqpNum i).value =
    decide ((mcon.eqpNum i = eqpNum ∧ mcon.eqpClass i = .PTIM) ∧ mcon.clients i ≠ 0) := by
  unfold isBusy
  simp only [value_bind, isObject_value, value_ite, value_pure, decide_eq_true_iff]
  by_cases hobject : mcon.eqpNum i = eqpNum ∧ mcon.eqpClass i = .PTIM <;> simp [hobject]

theorem isBusy_find :
    (find (isBusy mcon eqpNum) (List.range CtrDrvrRamTableSIZE)).value.isSome =
      (mcon.matching eqpNum .PTIM).any fun i => mcon.clients i ≠ 0 := by
  rw [find_value, Bool.eq_iff_iff, List.find?_isSome, List.any_eq_true]
  simp only [isBusy_value, decide_eq_true_iff]
  unfold ModuleContext.matching
  constructor
  · intro ⟨i, hi, hobject, hclients⟩
    exact ⟨i, List.mem_filter.mpr ⟨hi, decide_eq_true hobject⟩, hclients⟩
  · intro ⟨i, hi, hclients⟩
    obtain ⟨hlt, hobject⟩ := List.mem_filter.mp hi
    exact ⟨i, hlt, of_decide_eq_true hobject, hclients⟩

end

theorem createPtim_value {wa : WorkingArea} {ptim : CtrDrvrPtimBinding} :
    (createPtim wa ptim).value = Ctr.createPtim wa ptim := by
  unfold createPtim Ctr.createPtim
  simp only [value_ite, value_bind, value_pure, searchSlots_value, each_value]
  rfl

theorem destroyPtim_value {wa : WorkingArea} {ptim : CtrDrvrPtimBinding} :
    (destroyPtim wa ptim).value = Ctr.destroyPtim wa ptim := by
  unfold destroyPtim Ctr.destroyPtim
  simp only [value_ite, value_bind, value_pure, isBusy_find, matching_value, each_value]
  rfl

theorem connect_value {wa : WorkingArea} {conx : CtrDrvrConnection} {c : Nat} :
    (connect wa conx c).value = Ctr.connect wa conx c := by
  unfold connect Ctr.connect
  dsimp only
  rw [value_bind]
  cases conx.eqpClass with
  | PTIM =>
    dsimp only
    cases wa.getPtimModule conx.eqpNum with
    | none => rfl
    | some midx =>
      dsimp only
      rw [value_bind, connectPtim_value, value_pure]
  | CTIM =>
    dsimp only
    rw [value_bind, connectCtim_value, value_pure]
  | HARD =>
    dsimp only
    rw [value_bind, connectHard_value, value_pure]
  | other n =>
    dsimp only
    rw [value_bind, connectHard_value, value_pure]

theorem setConfig_value {mcon : ModuleContext} {midx counter : Nat}
    {conf : CtrDrvrCounterConfiguration} :
    (setConfig midx mcon counter conf).value = mcon.setConfig counter conf := by
  unfold setConfig ModuleContext.setConfig
  rw [value_bind, value_bind, value_ite, value_ite]
  rfl

theorem disConnectAll_value {behind : Nat → Behind} {wa : WorkingArea} {c : Nat} :
    (disConnectAll behind wa c).value = Ctr.disConnectAll wa behind c := by
  have hbody : ∀ (wa : WorkingArea) midx, (do
      let left ← disConnectModule (behind midx) midx (wa.moduleContexts midx) c
      pure (wa.setModule midx left) : Code WorkingArea).value =
        wa.setModule midx
          ((wa.moduleContexts midx).disConnectModule (behind midx) c) := by
    intro wa midx
    rw [value_bind, disConnectModule_value]
    rfl
  have hsep : Separate (fun (wa : WorkingArea) midx => wa.setModule midx
      ((wa.moduleContexts midx).disConnectModule (behind midx) c))
      WorkingArea.moduleContexts (List.range wa.modules) :=
    fun wa midx _ j hj => Function.update_of_ne hj _ _
  have hlocal : Local (fun (wa : WorkingArea) midx => wa.setModule midx
      ((wa.moduleContexts midx).disConnectModule (behind midx) c))
      WorkingArea.moduleContexts (List.range wa.modules) := by
    intro wa wa' midx _ heq
    have hself : ∀ wa : WorkingArea, (wa.setModule midx ((wa.moduleContexts midx).disConnectModule
        (behind midx) c)).moduleContexts midx =
          (wa.moduleContexts midx).disConnectModule (behind midx) c :=
      fun wa => Function.update_self _ _ _
    rw [hself, hself, heq]
  unfold disConnectAll
  rw [each_value]
  simp only [hbody]
  have hrest := @foldl_keeps _ (fun (wa : WorkingArea) midx => wa.setModule midx
    ((wa.moduleContexts midx).disConnectModule (behind midx) c)) (List.range wa.modules) wa
    (fun wa' => wa'.ctim = wa.ctim ∧ wa'.ptim = wa.ptim ∧ wa'.modules = wa.modules ∧
      wa'.clientContexts = wa.clientContexts) (fun _ _ _ h => h) ⟨rfl, rfl, rfl, rfl⟩
  have hcontexts : ∀ midx, ((List.range wa.modules).foldl (fun (wa : WorkingArea) midx =>
      wa.setModule midx ((wa.moduleContexts midx).disConnectModule (behind midx) c))
      wa).moduleContexts midx = (Ctr.disConnectAll wa behind c).moduleContexts midx := by
    intro midx
    unfold Ctr.disConnectAll
    dsimp only
    split
    · next hlt =>
      rw [foldl_visit hsep hlocal List.nodup_range (List.mem_range.mpr hlt)]
      exact Function.update_self _ _ _
    · next hout => exact foldl_not_mem hsep fun hmem => hout (List.mem_range.mp hmem)
  generalize (List.range wa.modules).foldl (fun (wa : WorkingArea) midx =>
    wa.setModule midx ((wa.moduleContexts midx).disConnectModule (behind midx) c)) wa = left
    at hrest hcontexts ⊢
  obtain ⟨hctim, hptim, hmodules, hclients⟩ := hrest
  cases left
  dsimp only at hctim hptim hmodules hclients hcontexts
  rw [hctim, hptim, hmodules, hclients, funext hcontexts]
  rfl

end Coht.Ctr.Accesses
