import Coht.Timlib.Ioctls

/-!
# What `ctr_set_ccv()` does

A call that succeeds has found the action, has written the output mask and the
polarity if they are selected, has found the CTIM if it is selected, and has
written the action. A call that fails may have done all but the last.
-/

namespace Coht.Timlib

open Coht.Lib Coht.Ctr Calls

def masksEdited (ccv : CtrCcv) (fields : U32) (counter : Nat) (mcon : ModuleContext) :
    ModuleContext :=
  let mcon := pick fields CTR_CCV_COUNTER_MASK (maskEdited counter (withMask ccv) mcon) mcon
  pick fields CTR_CCV_POLARITY (maskEdited counter (withPolarity ccv) mcon) mcon

/-- One of the two fields is selected. -/
def EditsMask (fields : U32) : Prop :=
  fields &&& CTR_CCV_COUNTER_MASK ≠ 0 ∨ fields &&& CTR_CCV_POLARITY ≠ 0

instance (fields : U32) : Decidable (EditsMask fields) := inferInstanceAs (Decidable (_ ∨ _))

def HasCtim (ccv : CtrCcv) (fields : U32) (ctim : List CtrDrvrCtimBinding)
    (trg trg' : CtrDrvrTrigger) : Prop :=
  if fields &&& CTR_CCV_CTIM ≠ 0 then
    ∃ obj, lookup (·.eqpNum) ccv.ctim ctim = some obj ∧
      trg' = { trg with ctim := ccv.ctim, frame := obj.frame }
  else trg' = trg

def newAction (ccv : CtrCcv) (fields : U32) (act : CtrDrvrAction) (trg : CtrDrvrTrigger) :
    CtrDrvrAction :=
  { act with
    trigger := setTriggerFields ccv fields trg
    config := setConfigFields ccv fields act.config }

def foundTrigger (act : CtrDrvrAction) (ob : CtrDrvrPtimBinding) : CtrDrvrTrigger :=
  { act.trigger with counter := ob.counter }

section

variable {wa wa' : WorkingArea} {c counter : Nat} {ccv : CtrCcv} {fields field ltim : U32}
  {index : Int} {change : CtrDrvrCounterMaskBuf → CtrDrvrCounterMaskBuf} {e : Failure}

theorem edit_self : edit c (fun mcon => mcon) wa = wa := by
  unfold edit WorkingArea.setModule current
  rw [Function.update_eq_self]

theorem edit_maskEdited : edit c (fun mcon => maskEdited counter change mcon) wa =
    edit c (fun mcon => mcon.hWr
      (outWord (givenMask counter (change ((current c wa).outMask counter)).mask) (decide
        ((change ((current c wa).outMask counter)).polarity = CtrDrvrPolarityTTL_BAR)))
      (mapRemOutMask counter)) wa := by
  unfold edit maskEdited
  rfl

theorem editOutMask_ok : editOutMask fields c field counter change wa = .ok () wa' ↔
    (fields &&& field ≠ 0 → (Usable wa c ∧ (current c wa).upLock = false) ∧
      1 ≤ counter ∧ counter ≤ 8) ∧
    wa' = edit c (fun mcon => pick fields field (maskEdited counter change mcon) mcon) wa := by
  unfold editOutMask pick
  split
  · next hsel =>
    rw [edit_maskEdited]
    constructor
    · intro h
      obtain ⟨cmsb, wa₁, hget, h₁⟩ := bind_ok.mp h
      obtain ⟨⟨-, hcmsb⟩, rfl⟩ := inquiry_ok.mp hget
      obtain ⟨hadm, hcounter, hwa⟩ := setOutMask_command.mp h₁
      rw [(getOutMask_ok.mp hcmsb).2] at hwa
      exact ⟨fun _ => ⟨hadm, hcounter⟩, hwa⟩
    · intro ⟨hsel', hwa⟩
      obtain ⟨hadm, hcounter⟩ := hsel' hsel
      refine bind_ok.mpr ⟨_, wa, inquiry_ok.mpr
        ⟨⟨hadm.1, getOutMask_ok.mpr ⟨hcounter, rfl⟩⟩, rfl⟩, ?_⟩
      exact setOutMask_command.mpr ⟨hadm, hcounter, hwa⟩
  · next hsel =>
    rw [pure_ok, edit_self]
    exact ⟨fun h => ⟨fun hsel' => absurd hsel' hsel, h.2⟩, fun h => ⟨rfl, h.2⟩⟩

theorem editOutMask_error (h : editOutMask fields c field counter change wa = .error e wa') :
    wa' = wa ∧ fields &&& field ≠ 0 := by
  unfold editOutMask at h
  split at h
  · next hsel =>
    refine ⟨?_, hsel⟩
    rcases bind_error.mp h with hget | ⟨cmsb, wa₁, hget, h₁⟩
    · exact inquiry_error hget
    · obtain ⟨-, rfl⟩ := inquiry_ok.mp hget
      exact command_error h₁
  · exact absurd h not_pure_error

theorem editOutMask_passes (huse : Usable wa c) (hlock : (current c wa).upLock = false)
    (hcounter : 1 ≤ counter ∧ counter ≤ 8) :
    editOutMask fields c field counter change wa ≠ .error e wa' := by
  intro h
  have hok := (@editOutMask_ok wa _ c counter fields field change).mpr
    ⟨fun _ => ⟨⟨huse, hlock⟩, hcounter⟩, rfl⟩
  cases hok.symm.trans h

theorem setCtim_ok {trg trg' : CtrDrvrTrigger} :
    setCtim ccv fields c trg wa = .ok trg' wa' ↔
      (fields &&& CTR_CCV_CTIM ≠ 0 → Usable wa c) ∧ HasCtim ccv fields wa.ctim trg trg' ∧
        wa' = wa := by
  unfold setCtim HasCtim
  split
  · next hsel =>
    constructor
    · intro h
      obtain ⟨ctimo, wa₁, hlist, h₁⟩ := bind_ok.mp h
      obtain ⟨⟨huse, hctimo⟩, rfl⟩ := inquiry_ok.mp hlist
      cases hctimo
      cases hobj : lookup (·.eqpNum) ccv.ctim wa₁.ctim with
      | some obj =>
        rw [hobj] at h₁
        obtain ⟨htrg, hwa⟩ := pure_ok.mp h₁
        exact ⟨fun _ => huse, ⟨obj, rfl, htrg⟩, hwa⟩
      | none =>
        rw [hobj] at h₁
        exact absurd h₁ not_throw_ok
    · intro h
      obtain ⟨huse, ⟨obj, hobj, htrg⟩, hwa⟩ := h
      refine bind_ok.mpr ⟨_, wa, inquiry_ok.mpr ⟨⟨huse hsel, rfl⟩, rfl⟩, ?_⟩
      rw [hobj]
      exact pure_ok.mpr ⟨htrg, hwa⟩
  · next hsel =>
    rw [pure_ok]
    exact ⟨fun h => ⟨fun hsel' => absurd hsel' hsel, h⟩, fun h => h.2⟩

theorem setCtim_error {trg : CtrDrvrTrigger} (h : setCtim ccv fields c trg wa = .error e wa')
    (huse : Usable wa c) : wa' = wa ∧ fields &&& CTR_CCV_CTIM ≠ 0 ∧
      lookup (·.eqpNum) ccv.ctim wa.ctim = none := by
  unfold setCtim at h
  split at h
  · next hsel =>
    rcases bind_error.mp h with hlist | ⟨ctimo, wa₁, hlist, h₁⟩
    · have hok : inquiry c (fun wa => .ok wa.ctim) wa = .ok wa.ctim wa :=
        inquiry_ok.mpr ⟨⟨huse, rfl⟩, rfl⟩
      cases hok.symm.trans hlist
    · obtain ⟨⟨-, hctimo⟩, rfl⟩ := inquiry_ok.mp hlist
      cases hctimo
      cases hobj : lookup (·.eqpNum) ccv.ctim wa₁.ctim with
      | some obj =>
        rw [hobj] at h₁
        exact absurd h₁ not_pure_error
      | none =>
        rw [hobj] at h₁
        exact ⟨(throw_error.mp h₁).2, hsel, rfl⟩
  · exact absurd h not_pure_error

structure SetsCcv (wa : WorkingArea) (c : Nat) (ltim : U32) (index : Int) (ccv : CtrCcv)
    (fields : U32) (wa' : WorkingArea) (ob : CtrDrvrPtimBinding) (trg : CtrDrvrTrigger) :
    Prop where
  finds : Finds wa c ltim index ob
  unlocked : (wa.moduleContexts ob.moduleIndex).upLock = false
  counter : EditsMask fields → 1 ≤ ob.counter.toNat ∧ ob.counter.toNat ≤ 8
  ctim : HasCtim ccv fields wa.ctim
    (foundTrigger ((wa.moduleContexts ob.moduleIndex).action (slotOf ob index)) ob) trg
  writes : ∃ mcon, (masksEdited ccv fields ob.counter.toNat
    (wa.moduleContexts ob.moduleIndex)).setAction (newAction ccv fields
      ((wa.moduleContexts ob.moduleIndex).action (slotOf ob index)) trg) = .ok mcon ∧
    wa' = (select c ob.moduleIndex wa).setModule ob.moduleIndex mcon

theorem edit_usable {f : ModuleContext → ModuleContext}
    (hf : (f (current c wa)).inUse = (current c wa).inUse) :
    Usable (edit c f wa) c ↔ Usable wa c := by
  constructor
  · intro ⟨hlt, hopen, hin⟩
    rw [edit_current, hf] at hin
    exact ⟨hlt, hopen, hin⟩
  · intro ⟨hlt, hopen, hin⟩
    refine ⟨hlt, hopen, ?_⟩
    rw [edit_current, hf]
    exact hin

theorem pick_inUse {mcon : ModuleContext} : (pick fields field (maskEdited counter change mcon)
    mcon).inUse = mcon.inUse := by
  unfold pick
  split <;> rfl

theorem pick_upLock {mcon : ModuleContext} : (pick fields field (maskEdited counter change mcon)
    mcon).upLock = mcon.upLock := by
  unfold pick
  split <;> rfl

theorem masks_edited (ccv : CtrCcv) :
    edit c (fun mcon => pick fields CTR_CCV_POLARITY
      (maskEdited counter (withPolarity ccv) mcon) mcon)
      (edit c (fun mcon => pick fields CTR_CCV_COUNTER_MASK
        (maskEdited counter (withMask ccv) mcon) mcon) wa) =
    edit c (masksEdited ccv fields counter) wa :=
  edit_edit

theorem masksEdited_same (mcon : ModuleContext) :
    (masksEdited ccv fields counter mcon).inUse = mcon.inUse ∧
      (masksEdited ccv fields counter mcon).upLock = mcon.upLock := by
  unfold masksEdited
  dsimp only
  rw [pick_inUse, pick_inUse, pick_upLock, pick_upLock]
  exact ⟨rfl, rfl⟩

theorem edit_select {m : Nat} {f : ModuleContext → ModuleContext} :
    edit c f (select c m wa) = (select c m wa).setModule m (f (wa.moduleContexts m)) := by
  unfold edit
  rw [select_selected, select_current]

theorem setModule_setModule {m : Nat} {mcon mcon' : ModuleContext} :
    (wa.setModule m mcon).setModule m mcon' = wa.setModule m mcon' := by
  unfold WorkingArea.setModule
  rw [Function.update_idem]

theorem ctrSetCcv_ok (h : ctrSetCcv c ltim index ccv fields wa = .ok () wa') :
    ∃ ob trg, SetsCcv wa c ltim index ccv fields wa' ob trg := by
  unfold ctrSetCcv at h
  obtain ⟨⟨ob, act⟩, wa₁, hfind, h₁⟩ := bind_ok.mp h
  obtain ⟨hfinds, rfl, rfl⟩ := findAction_ok.mp hfind
  dsimp only at h₁
  obtain ⟨_, wa₂, hmask, h₂⟩ := bind_ok.mp h₁
  obtain ⟨hmasks, rfl⟩ := editOutMask_ok.mp hmask
  obtain ⟨_, wa₃, hpol, h₃⟩ := bind_ok.mp h₂
  obtain ⟨hpols, rfl⟩ := editOutMask_ok.mp hpol
  rw [masks_edited] at h₃
  obtain ⟨trg, wa₄, hctim, h₄⟩ := bind_ok.mp h₃
  obtain ⟨-, hhas, rfl⟩ := setCtim_ok.mp hctim
  obtain ⟨⟨-, hlock⟩, mcon, hset, hwa⟩ := setAction_command.mp h₄
  rw [edit_current, select_current] at hlock hset
  refine ⟨ob, trg, hfinds, ?_, ?_, hhas, mcon, hset, ?_⟩
  · rw [← hlock, (masksEdited_same _).2]
  · intro hsel
    rcases hsel with hsel | hsel
    · exact (hmasks hsel).2
    · exact (hpols hsel).2
  · have hselected : (edit c (masksEdited ccv fields ob.counter.toNat)
        (select c ob.moduleIndex wa)).selected c = ob.moduleIndex := select_selected
    rw [hwa, hselected, edit_select, setModule_setModule]

theorem masksEdited_none (h : ¬ EditsMask fields) :
    masksEdited ccv fields counter = fun mcon => mcon := by
  have hmask : ¬ fields &&& CTR_CCV_COUNTER_MASK ≠ 0 := fun hsel => h (.inl hsel)
  have hpol : ¬ fields &&& CTR_CCV_POLARITY ≠ 0 := fun hsel => h (.inr hsel)
  funext mcon
  unfold masksEdited pick
  rw [if_neg hmask, if_neg hpol]

theorem ctrSetCcv_error (h : ctrSetCcv c ltim index ccv fields wa = .error e wa') :
    wa' = wa ∨ (∃ ob, lookup (·.eqpNum) ltim wa.ptim = some ob ∧
      wa' = select c ob.moduleIndex wa) ∨
    (∃ ob, Finds wa c ltim index ob ∧ EditsMask fields ∧
      (1 ≤ ob.counter.toNat ∧ ob.counter.toNat ≤ 8) ∧
      (wa.moduleContexts ob.moduleIndex).upLock = false ∧
      wa' = edit c (masksEdited ccv fields ob.counter.toNat)
        (select c ob.moduleIndex wa)) := by
  unfold ctrSetCcv at h
  rcases bind_error.mp h with hfind | ⟨⟨ob, act⟩, wa₁, hfind, h₁⟩
  · rcases findAction_error hfind with heq | ⟨ob, hob, -, -, heq⟩
    · exact .inl heq
    · exact .inr (.inl ⟨ob, hob, heq⟩)
  obtain ⟨hfinds, rfl, rfl⟩ := findAction_ok.mp hfind
  dsimp only at h₁
  rcases bind_error.mp h₁ with hmask | ⟨_, wa₂, hmask, h₂⟩
  · exact .inr (.inl ⟨ob, hfinds.binding, (editOutMask_error hmask).1⟩)
  obtain ⟨hmasks, rfl⟩ := editOutMask_ok.mp hmask
  rcases bind_error.mp h₂ with hpol | ⟨_, wa₃, hpol, h₃⟩
  · obtain ⟨heq, hsel⟩ := editOutMask_error hpol
    by_cases hmasksel : fields &&& CTR_CCV_COUNTER_MASK ≠ 0
    · -- The first edit has passed the tests of the second.
      obtain ⟨⟨huse, hlock⟩, hcounter⟩ := hmasks hmasksel
      refine absurd hpol (editOutMask_passes ((edit_usable pick_inUse).mpr huse) ?_ hcounter)
      rw [edit_current, pick_upLock]
      exact hlock
    · refine .inr (.inl ⟨ob, hfinds.binding, ?_⟩)
      rw [heq]
      simp only [pick, if_neg hmasksel]
      exact edit_self
  obtain ⟨hpols, rfl⟩ := editOutMask_ok.mp hpol
  rw [masks_edited] at h₃
  have hedited : wa' = edit c (masksEdited ccv fields ob.counter.toNat)
      (select c ob.moduleIndex wa) := by
    rcases bind_error.mp h₃ with hctim | ⟨trg, wa₄, hctim, h₄⟩
    · refine (setCtim_error hctim ((edit_usable (masksEdited_same _).1).mpr ?_)).1
      exact select_usable hfinds.usable hfinds.installed
    · obtain ⟨-, -, rfl⟩ := setCtim_ok.mp hctim
      exact command_error h₄
  by_cases hsel : EditsMask fields
  · refine .inr (.inr ⟨ob, hfinds, hsel, ?_, ?_, hedited⟩)
    · rcases hsel with hsel | hsel
      · exact (hmasks hsel).2
      · exact (hpols hsel).2
    · rcases hsel with hsel | hsel
      · have hlock := (hmasks hsel).1.2
        rw [select_current] at hlock
        exact hlock
      · have hlock := (hpols hsel).1.2
        rw [edit_current, pick_upLock, select_current] at hlock
        exact hlock
  · refine .inr (.inl ⟨ob, hfinds.binding, ?_⟩)
    rw [hedited, masksEdited_none hsel, edit_self]

end

end Coht.Timlib
