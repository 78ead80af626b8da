import Coht.Timlib.SetCcv
import Coht.Ctr.Bindings
import Coht.Ctr.Tables

/-!
# What is set is what is got

`ctr_get_ccv()` after a `ctr_set_ccv()` that succeeded returns the new value in
the fields that were selected and the old value in the others, with three
exceptions that the code makes itself. The bus bit of `enable` follows the
clients of the slot. An output mask of 0 stands for the output of the counter
itself, also where only the polarity was selected and the register held none. A
CTIM brings its frame with it, and with the frame the payload.

An LTIM shares its counter, and with it the output mask and the polarity, with
all others of that counter on its module; nothing else is changed that any other
LTIM or any other index reads.
-/

namespace Coht.Timlib

open Coht.Lib Coht.Ctr Calls

/-- The new values in the fields that are selected, and the old ones in the
others. -/
def overwrite (fields : U32) (ccv old : CtrCcv) : CtrCcv where
  enable := pick fields CTR_CCV_ENABLE ccv.enable old.enable
  start := pick fields CTR_CCV_START ccv.start old.start
  mode := pick fields CTR_CCV_MODE ccv.mode old.mode
  clock := pick fields CTR_CCV_CLOCK ccv.clock old.clock
  pulseWidth := pick fields CTR_CCV_PULSE_WIDTH ccv.pulseWidth old.pulseWidth
  delay := pick fields CTR_CCV_DELAY ccv.delay old.delay
  counterMask := pick fields CTR_CCV_COUNTER_MASK ccv.counterMask old.counterMask
  polarity := pick fields CTR_CCV_POLARITY ccv.polarity old.polarity
  ctim := pick fields CTR_CCV_CTIM ccv.ctim old.ctim
  payload := pick fields CTR_CCV_PAYLOAD ccv.payload old.payload
  cmpMethod := pick fields CTR_CCV_CMP_METHOD ccv.cmpMethod old.cmpMethod
  grnum := pick fields CTR_CCV_GRNUM ccv.grnum old.grnum
  grval := pick fields CTR_CCV_GRVAL ccv.grval old.grval
  tgnum := pick fields CTR_CCV_TGNUM ccv.tgnum old.tgnum

/-- All but the bus bit. -/
def apartFromBus (ccv : CtrCcv) : CtrCcv :=
  { ccv with enable := ccv.enable &&& ~~~CtrDrvrCounterOnZeroBUS }

def payloadField : Field := ⟨0, 16⟩

/-- The values fit into the fields of the hardware. -/
structure CtrCcv.Fits (ccv : CtrCcv) : Prop where
  enable : onZeroField.Holds ccv.enable
  start : startField.Holds ccv.start
  mode : modeField.Holds ccv.mode
  clock : clockField.Holds ccv.clock
  pulseWidth : pulseWidthField.Holds ccv.pulseWidth
  counterMask : outMaskField.Holds ccv.counterMask
  polarity : ccv.polarity = CtrDrvrPolarityTTL ∨ ccv.polarity = CtrDrvrPolarityTTL_BAR
  payload : payloadField.Holds ccv.payload
  cmpMethod : conditionField.Holds ccv.cmpMethod
  grnum : groupNumberField.Holds ccv.grnum
  grval : groupValueField.Holds ccv.grval
  tgnum : machineField.Holds ccv.tgnum

/-- The payload of a CTIM that is selected comes with it. -/
def ctimPayload (ctim : List CtrDrvrCtimBinding) (fields : U32) (ccv old : CtrCcv) : U32 :=
  pick fields CTR_CCV_CTIM
    (frameValue (((lookup (·.eqpNum) ccv.ctim ctim).map (·.frame)).getD {})) old.payload

/-- What is read after the call, but for the bus bit. -/
def expected (ctim : List CtrDrvrCtimBinding) (counter : Nat) (fields : U32)
    (ccv old : CtrCcv) : CtrCcv :=
  overwrite fields { ccv with counterMask := givenMask counter ccv.counterMask }
    { old with
      counterMask := pick fields CTR_CCV_POLARITY (givenMask counter old.counterMask)
        old.counterMask
      payload := ctimPayload ctim fields ccv old }

/-- The fields that are selected, over those that were read. -/
def editedMask (ccv : CtrCcv) (fields : U32) (counter : Nat) (old : CtrDrvrCounterMaskBuf) :
    CtrDrvrCounterMaskBuf where
  counter := counter
  mask := pick fields CTR_CCV_COUNTER_MASK (givenMask counter ccv.counterMask)
    (pick fields CTR_CCV_POLARITY (givenMask counter old.mask) old.mask)
  polarity := pick fields CTR_CCV_POLARITY ccv.polarity old.polarity

def settings (wa : WorkingArea) (ob : CtrDrvrPtimBinding) (index : Int) : CtrCcv :=
  let mcon := wa.moduleContexts ob.moduleIndex
  .of (mcon.action (slotOf ob index)) (mcon.outMask ob.counter.toNat)

section

variable {wa wa' : WorkingArea} {c counter : Nat} {ccv v : CtrCcv} {fields field ltim : U32}
  {index : Int} {ob : CtrDrvrPtimBinding}

theorem ctrGetCcv_ok : ctrGetCcv c ltim index wa = .ok v wa' ↔ ∃ ob,
    Finds wa c ltim index ob ∧ (1 ≤ ob.counter.toNat ∧ ob.counter.toNat ≤ 8) ∧
      v = settings wa ob index ∧ wa' = select c ob.moduleIndex wa := by
  unfold ctrGetCcv
  constructor
  · intro h
    obtain ⟨⟨ob, act⟩, wa₁, hfind, h₁⟩ := bind_ok.mp h
    obtain ⟨hfinds, rfl, rfl⟩ := findAction_ok.mp hfind
    obtain ⟨cmsb, wa₂, hget, h₂⟩ := bind_ok.mp h₁
    obtain ⟨⟨-, hcmsb⟩, rfl⟩ := inquiry_ok.mp hget
    rw [select_current, getOutMask_ok] at hcmsb
    obtain ⟨hv, hwa⟩ := pure_ok.mp h₂
    refine ⟨ob, hfinds, hcmsb.1, ?_, hwa⟩
    rw [hv, hcmsb.2]
    rfl
  · intro ⟨ob, hfinds, hcounter, hv, hwa⟩
    refine bind_ok.mpr ⟨(ob, _), _, findAction_ok.mpr ⟨hfinds, rfl, rfl⟩, ?_⟩
    refine bind_ok.mpr ⟨_, _, inquiry_ok.mpr
      ⟨⟨select_usable hfinds.usable hfinds.installed, ?_⟩, rfl⟩, pure_ok.mpr ⟨hv, hwa⟩⟩
    rw [select_current]
    exact getOutMask_ok.mpr ⟨hcounter, rfl⟩

/-! ## The output mask -/

theorem givenMask_holds (hcounter : counter ≤ 8) {mask : U32} (h : outMaskField.Holds mask) :
    outMaskField.Holds (givenMask counter mask) := by
  unfold givenMask
  split
  · have hall : ∀ k ≤ 8, outMaskField.Holds (1#32 <<< k) := by decide
    exact hall counter hcounter
  · exact h

theorem givenMask_twice (hcounter : counter ≤ 8) {mask : U32} :
    givenMask counter (givenMask counter mask) = givenMask counter mask := by
  unfold givenMask
  split
  · have hall : ∀ k ≤ 8, 1#32 <<< k ≠ 0 := by decide
    rw [if_neg (hall counter hcounter)]
  · rfl

theorem outMask_holds {mcon : ModuleContext} : outMaskField.Holds (mcon.outMask counter).mask := by
  unfold ModuleContext.outMask
  dsimp only
  rw [autoShiftRight_eq outMask_masks]
  exact Field.holds_get _

theorem outMask_polarity {mcon : ModuleContext} :
    (mcon.outMask counter).polarity = CtrDrvrPolarityTTL ∨
      (mcon.outMask counter).polarity = CtrDrvrPolarityTTL_BAR := by
  unfold ModuleContext.outMask
  dsimp only
  split
  · exact .inr rfl
  · exact .inl rfl

theorem outMask_hWr {mcon : ModuleContext} {mask : U32} {ttlBar : Bool}
    (hmask : outMaskField.Holds mask) :
    (mcon.hWr (outWord mask ttlBar) (mapRemOutMask counter)).outMask counter =
      { counter := counter
        mask := mask
        polarity := if ttlBar then CtrDrvrPolarityTTL_BAR else CtrDrvrPolarityTTL } := by
  obtain ⟨hread, hbar⟩ := @outWord_read mask ttlBar hmask
  unfold ModuleContext.outMask
  dsimp only
  rw [map_hWr_self, hread]
  simp only [hbar]

theorem maskEdited_outMask {mcon : ModuleContext}
    {change : CtrDrvrCounterMaskBuf → CtrDrvrCounterMaskBuf} (hcounter : counter ≤ 8)
    (hmask : outMaskField.Holds (change (mcon.outMask counter)).mask)
    (hpol : (change (mcon.outMask counter)).polarity = CtrDrvrPolarityTTL ∨
      (change (mcon.outMask counter)).polarity = CtrDrvrPolarityTTL_BAR) :
    (maskEdited counter change mcon).outMask counter =
      { counter := counter
        mask := givenMask counter (change (mcon.outMask counter)).mask
        polarity := (change (mcon.outMask counter)).polarity } := by
  unfold maskEdited
  dsimp only
  rw [outMask_hWr (givenMask_holds hcounter hmask)]
  rcases hpol with hpol | hpol
  · rw [hpol]
    rfl
  · rw [hpol]
    rfl

theorem masksEdited_outMask {mcon : ModuleContext} (hfits : ccv.Fits)
    (hcounter : counter ≤ 8) :
    (masksEdited ccv fields counter mcon).outMask counter =
      editedMask ccv fields counter (mcon.outMask counter) := by
  have hmask : ∀ mcon : ModuleContext, (maskEdited counter (withMask ccv) mcon).outMask counter =
      { counter := counter
        mask := givenMask counter ccv.counterMask
        polarity := (mcon.outMask counter).polarity } := fun mcon =>
    maskEdited_outMask hcounter hfits.counterMask outMask_polarity
  have hpol : ∀ mcon : ModuleContext,
      (maskEdited counter (withPolarity ccv) mcon).outMask counter =
        { counter := counter
          mask := givenMask counter (mcon.outMask counter).mask
          polarity := ccv.polarity } := fun mcon =>
    maskEdited_outMask hcounter outMask_holds hfits.polarity
  unfold editedMask masksEdited pick
  dsimp only
  by_cases hselm : fields &&& CTR_CCV_COUNTER_MASK ≠ 0
  · simp only [if_pos hselm]
    split
    · rw [hpol, hmask, givenMask_twice hcounter]
    · rw [hmask]
  · simp only [if_neg hselm]
    split
    · rw [hpol]
    · rfl

/-! ## The action -/

theorem pick_holds {f : Field} {w : Nat} {new old : BitVec w} (hnew : f.Holds new)
    (hold : f.Holds old) : f.Holds (pick fields field new old) := by
  unfold pick
  split
  · exact hnew
  · exact hold

theorem pick_map {α β : Type} (g : α → β) {new old : α} :
    g (pick fields field new old) = pick fields field (g new) (g old) := by
  unfold pick
  split
  · rfl
  · rfl

theorem holds_onZero {v : U32} (h : onZeroField.Holds v) : v = 0 ∨ v = 1 ∨ v = 2 ∨ v = 3 := by
  have hlt : v.toNat < 4 := h
  bv_omega

theorem onZero_set {clients : U32} {cnf : CtrDrvrCounterConfiguration} (hfits : ccv.Fits)
    (hcnf : cnf.Fits) :
    onZeroField.Holds (overrideBus clients (setConfigFields ccv fields cnf)).onZero ∧
    (overrideBus clients (setConfigFields ccv fields cnf)).onZero &&&
      ~~~CtrDrvrCounterOnZeroBUS =
        pick fields CTR_CCV_ENABLE ccv.enable cnf.onZero &&& ~~~CtrDrvrCounterOnZeroBUS := by
  have hnew : ∀ enable onZero : U32, onZeroField.Holds enable → onZeroField.Holds onZero →
      copyBit CtrDrvrCounterOnZeroOUT enable (copyBit CtrDrvrCounterOnZeroBUS enable onZero) =
        enable := by
    intro enable onZero henable honZero
    rcases holds_onZero henable with rfl | rfl | rfl | rfl <;>
      rcases holds_onZero honZero with rfl | rfl | rfl | rfl <;> decide
  have hpicked : (setConfigFields ccv fields cnf).onZero =
      pick fields CTR_CCV_ENABLE ccv.enable cnf.onZero := by
    unfold setConfigFields
    dsimp only
    rw [hnew _ _ hfits.enable hcnf.onZero]
  have hbus : ∀ onZero : U32, onZeroField.Holds onZero →
      (onZeroField.Holds (onZero ||| CtrDrvrCounterOnZeroBUS) ∧
        (onZero ||| CtrDrvrCounterOnZeroBUS) &&& ~~~CtrDrvrCounterOnZeroBUS =
          onZero &&& ~~~CtrDrvrCounterOnZeroBUS) ∧
      (onZeroField.Holds (onZero &&& ~~~CtrDrvrCounterOnZeroBUS) ∧
        (onZero &&& ~~~CtrDrvrCounterOnZeroBUS) &&& ~~~CtrDrvrCounterOnZeroBUS =
          onZero &&& ~~~CtrDrvrCounterOnZeroBUS) := by
    intro onZero honZero
    rcases holds_onZero honZero with rfl | rfl | rfl | rfl <;> decide
  have hboth := hbus (pick fields CTR_CCV_ENABLE ccv.enable cnf.onZero)
    (pick_holds hfits.enable hcnf.onZero)
  unfold overrideBus
  dsimp only
  rw [hpicked]
  split
  · exact hboth.1
  · exact hboth.2

theorem setConfigFields_fits {clients : U32} {cnf : CtrDrvrCounterConfiguration}
    (hfits : ccv.Fits) (hcnf : cnf.Fits) :
    (overrideBus clients (setConfigFields ccv fields cnf)).Fits where
  onZero := (onZero_set hfits hcnf).1
  start := pick_holds hfits.start hcnf.start
  mode := pick_holds hfits.mode hcnf.mode
  clock := pick_holds hfits.clock hcnf.clock
  pulsWidth := pick_holds hfits.pulseWidth hcnf.pulsWidth

theorem setTriggerFields_fits {trg : CtrDrvrTrigger} (hfits : ccv.Fits) (htrg : trg.Fits) :
    (setTriggerFields ccv fields trg).Fits where
  condition := pick_holds hfits.cmpMethod htrg.condition
  machine := pick_holds hfits.tgnum htrg.machine
  counter := htrg.counter
  groupNumber := pick_holds (setWidth_holds hfits.grnum) htrg.groupNumber

theorem setWidth_setWidth {f : Field} {v : U32} (hf : f.len ≤ 16) (h : f.Holds v) :
    (v.setWidth 16).setWidth 32 = v := by
  have hlt : v.toNat < 2 ^ 16 := Nat.lt_of_lt_of_le h (Nat.pow_le_pow_right (by omega) hf)
  apply BitVec.eq_of_toNat_eq
  rw [BitVec.toNat_setWidth, BitVec.toNat_setWidth, Nat.mod_eq_of_lt hlt,
    Nat.mod_eq_of_lt v.isLt]

theorem frameValue_setValue {frame : CtrDrvrEventFrame} {payload : U32}
    (h : payloadField.Holds payload) : frameValue (frame.setValue payload) = payload := by
  unfold frameValue CtrDrvrEventFrame.setValue
  dsimp only
  rw [BitVec.extractLsb'_append_eq_right, ← BitVec.setWidth_eq_extractLsb' (by omega)]
  exact setWidth_setWidth (Nat.le_refl 16) h

theorem of_newAction {act act' : CtrDrvrAction} {trg : CtrDrvrTrigger}
    {ctim : List CtrDrvrCtimBinding} {clients : U32} {cmsb cmsb' : CtrDrvrCounterMaskBuf}
    (hfits : ccv.Fits) (hconfig : act.config.Fits)
    (hctim : HasCtim ccv fields ctim (foundTrigger act ob) trg)
    (htrigger : act'.trigger = setTriggerFields ccv fields trg)
    (hconfig' : act'.config = overrideBus clients (setConfigFields ccv fields act.config))
    (hmask : cmsb'.mask = pick fields CTR_CCV_COUNTER_MASK
      (givenMask counter ccv.counterMask) (pick fields CTR_CCV_POLARITY
        (givenMask counter cmsb.mask) cmsb.mask))
    (hpol : cmsb'.polarity = pick fields CTR_CCV_POLARITY ccv.polarity cmsb.polarity) :
    apartFromBus (.of act' cmsb') =
      apartFromBus (expected ctim counter fields ccv (.of act cmsb)) := by
  have henable := (@onZero_set ccv fields clients act.config hfits hconfig).2
  have hgrnum : (pick fields CTR_CCV_GRNUM (ccv.grnum.setWidth 16)
      act.trigger.group.groupNumber).setWidth 32 =
      pick fields CTR_CCV_GRNUM ccv.grnum (act.trigger.group.groupNumber.setWidth 32) := by
    rw [pick_map (BitVec.setWidth 32), setWidth_setWidth (by decide) hfits.grnum]
  have hgrval : (pick fields CTR_CCV_GRVAL (ccv.grval.setWidth 16)
      act.trigger.group.groupValue).setWidth 32 =
      pick fields CTR_CCV_GRVAL ccv.grval (act.trigger.group.groupValue.setWidth 32) := by
    rw [pick_map (BitVec.setWidth 32), setWidth_setWidth (by decide) hfits.grval]
  have hkept : trg.triggerCondition = act.trigger.triggerCondition ∧
      trg.group = act.trigger.group ∧ trg.machine = act.trigger.machine := by
    unfold HasCtim at hctim
    split at hctim
    · obtain ⟨obj, -, rfl⟩ := hctim
      exact ⟨rfl, rfl, rfl⟩
    · rw [hctim]
      exact ⟨rfl, rfl, rfl⟩
  have hnumber : trg.ctim = pick fields CTR_CCV_CTIM ccv.ctim act.trigger.ctim ∧
      frameValue trg.frame = ctimPayload ctim fields ccv (.of act cmsb) := by
    unfold HasCtim at hctim
    unfold ctimPayload pick
    split at hctim
    · next hsel =>
      obtain ⟨obj, hobj, rfl⟩ := hctim
      rw [if_pos hsel, if_pos hsel, hobj]
      exact ⟨rfl, rfl⟩
    · next hsel =>
      rw [if_neg hsel, if_neg hsel, hctim]
      exact ⟨rfl, rfl⟩
  have hpayload : frameValue (pick fields CTR_CCV_PAYLOAD (trg.frame.setValue ccv.payload)
      trg.frame) = pick fields CTR_CCV_PAYLOAD ccv.payload
        (ctimPayload ctim fields ccv (.of act cmsb)) := by
    rw [pick_map frameValue, frameValue_setValue hfits.payload, hnumber.2]
  unfold apartFromBus expected overwrite CtrCcv.of
  rw [htrigger, hconfig', hmask, hpol]
  unfold setTriggerFields
  rw [hkept.1, hkept.2.1, hkept.2.2]
  dsimp only
  rw [henable, hnumber.1, hpayload, hgrnum, hgrval]
  rfl

theorem masksEdited_map {mcon : ModuleContext} {w : Nat}
    (h : EditsMask fields → w ≠ mapRemOutMask counter) :
    (masksEdited ccv fields counter mcon).map w = mcon.map w := by
  have hstep : ∀ (field : U32) (change : CtrDrvrCounterMaskBuf → CtrDrvrCounterMaskBuf)
      (mcon : ModuleContext), (fields &&& field ≠ 0 → w ≠ mapRemOutMask counter) →
      (pick fields field (maskEdited counter change mcon) mcon).map w = mcon.map w := by
    intro field change mcon hsel
    unfold pick
    split
    · next hfield => exact map_hWr_of_ne (hsel hfield)
    · rfl
  unfold masksEdited
  dsimp only
  rw [hstep _ _ _ fun hsel => h (.inr hsel), hstep _ _ _ fun hsel => h (.inl hsel)]

theorem masksEdited_sameTables (mcon : ModuleContext) :
    SameTables mcon (masksEdited ccv fields counter mcon) := by
  have hstep : ∀ (field : U32) (change : CtrDrvrCounterMaskBuf → CtrDrvrCounterMaskBuf)
      (mcon : ModuleContext),
      SameTables mcon (pick fields field (maskEdited counter change mcon) mcon) := by
    intro field change mcon
    unfold pick
    split
    · exact hWr_sameTables mcon _ _
    · exact .refl mcon
  exact (hstep _ _ _).trans (hstep _ _ _)

theorem masksEdited_action {mcon : ModuleContext} {i : Nat}
    (hcounter : EditsMask fields → counter ≤ 8) :
    (masksEdited ccv fields counter mcon).action i = mcon.action i := by
  have hsame := @masksEdited_sameTables counter ccv fields mcon
  refine action_congr (congrFun hsame.eqpNum i) (congrFun hsame.eqpClass i)
    (congrFun hsame.trigs i) fun k hk => ⟨?_, ?_⟩
  · exact masksEdited_map fun hsel =>
      Ne.symm (mapRemOutMask_apart (hcounter hsel) i k hk).1
  · exact masksEdited_map fun hsel =>
      Ne.symm (mapRemOutMask_apart (hcounter hsel) i k hk).2

theorem masksEdited_outMask_of_ne {mcon : ModuleContext} {k : Nat}
    (hk : EditsMask fields → k ≠ counter) :
    (masksEdited ccv fields counter mcon).outMask k = mcon.outMask k := by
  refine outMask_congr (masksEdited_map fun hsel => ?_)
  have hne := hk hsel
  unfold mapRemOutMask mapCounters
  omega

/-! ## The module after the call -/

section

variable {trg : CtrDrvrTrigger} {ob' : CtrDrvrPtimBinding} {index' : Int}
  (h : SetsCcv wa c ltim index ccv fields wa' ob trg)

include h

theorem SetsCcv.counter_le (hsel : EditsMask fields) : ob.counter.toNat ≤ 8 :=
  (h.counter hsel).2

theorem SetsCcv.at : ∃ mcon,
    Written (masksEdited ccv fields ob.counter.toNat (wa.moduleContexts ob.moduleIndex)) mcon
      (slotOf ob index) (newAction ccv fields
        ((wa.moduleContexts ob.moduleIndex).action (slotOf ob index)) trg) ∧
    wa' = (select c ob.moduleIndex wa).setModule ob.moduleIndex mcon := by
  obtain ⟨mcon, hset, hwa⟩ := h.writes
  exact ⟨mcon, setAction_written hset, hwa⟩

theorem SetsCcv.lists : wa'.ptim = wa.ptim ∧ wa'.modules = wa.modules ∧
    wa'.ctim = wa.ctim := by
  obtain ⟨mcon, -, rfl⟩ := h.at
  exact ⟨rfl, rfl, rfl⟩

theorem SetsCcv.context (m : Nat) : (wa'.moduleContexts m).inUse =
    (wa.moduleContexts m).inUse := by
  obtain ⟨mcon, hwritten, rfl⟩ := h.at
  show (Function.update wa.moduleContexts ob.moduleIndex mcon m).inUse = _
  by_cases hm : m = ob.moduleIndex
  · rw [hm, Function.update_self, hwritten.inUse, (masksEdited_same _).1]
  · rw [Function.update_of_ne hm]

theorem SetsCcv.usable : Usable wa' c := by
  have hin := h.context ob.moduleIndex
  rw [h.finds.installed] at hin
  obtain ⟨mcon, -, rfl⟩ := h.at
  have huse := select_usable h.finds.usable h.finds.installed
  refine ⟨huse.client, huse.open_, ?_⟩
  unfold current
  have hselected : ((select c ob.moduleIndex wa).setModule ob.moduleIndex mcon).selected c =
      ob.moduleIndex := select_selected
  rw [hselected]
  exact hin

theorem SetsCcv.finds_again {ltim' : U32} (hfinds : Finds wa c ltim' index' ob') :
    Finds wa' c ltim' index' ob' := by
  obtain ⟨hptim, hmodules, -⟩ := h.lists
  refine ⟨h.usable, ?_, ?_, ?_, hfinds.size, hfinds.number⟩
  · rw [hptim]
    exact hfinds.binding
  · rw [hmodules]
    exact hfinds.module
  · rw [h.context]
    exact hfinds.installed

theorem SetsCcv.trigger_fits (hcounter : ob.counter.toNat ≤ 8) : trg.Fits := by
  have hfound : (foundTrigger
      ((wa.moduleContexts ob.moduleIndex).action (slotOf ob index)) ob).Fits := by
    have hread := @hardToTrigger_fits
      ((wa.moduleContexts ob.moduleIndex).map (mapTrigs (slotOf ob index)))
      ((wa.moduleContexts ob.moduleIndex).map (mapTrigs (slotOf ob index) + 1))
    refine ⟨hread.condition, hread.machine, ?_, hread.groupNumber⟩
    exact Nat.lt_of_le_of_lt hcounter (by decide)
  have hctim := h.ctim
  unfold HasCtim at hctim
  split at hctim
  · obtain ⟨obj, -, rfl⟩ := hctim
    exact ⟨hfound.condition, hfound.machine, hfound.counter, hfound.groupNumber⟩
  · rw [hctim]
    exact hfound

theorem SetsCcv.reads (hfits : ccv.Fits) (hcounter : ob.counter.toNat ≤ 8) :
    apartFromBus (settings wa' ob index) =
      apartFromBus (expected wa.ctim ob.counter.toNat fields ccv (settings wa ob index)) := by
  have htrg := h.trigger_fits hcounter
  have hctim := h.ctim
  have hconfig : ((wa.moduleContexts ob.moduleIndex).action (slotOf ob index)).config.Fits :=
    hardToConfig_fits
  obtain ⟨mcon, hwritten, rfl⟩ := h.at
  have hafter : ((select c ob.moduleIndex wa).setModule ob.moduleIndex mcon).moduleContexts
      ob.moduleIndex = mcon := Function.update_self ..
  have htrigger := hwritten.trigger (setTriggerFields_fits hfits htrg)
    (setConfigFields_fits hfits hconfig)
  have hnew := hwritten.config (setTriggerFields_fits hfits htrg)
    (setConfigFields_fits hfits hconfig)
  have hmasks := hwritten.masks _ hcounter
  rw [masksEdited_outMask hfits hcounter] at hmasks
  unfold settings
  rw [hafter]
  refine of_newAction hfits hconfig hctim htrigger hnew ?_ ?_
  · rw [hmasks]
    rfl
  · rw [hmasks]
    rfl

theorem SetsCcv.reads_other (hslot : slotOf ob' index' < CtrDrvrRamTableSIZE)
    (hne : ob'.moduleIndex = ob.moduleIndex → slotOf ob' index' ≠ slotOf ob index)
    (hcounter : ob'.counter.toNat ≤ 8) :
    settings wa' ob' index' = { settings wa ob' index' with
      counterMask := (settings wa' ob' index').counterMask
      polarity := (settings wa' ob' index').polarity } ∧
    (settings wa' ob' index' ≠ settings wa ob' index' →
      ob'.moduleIndex = ob.moduleIndex ∧ ob'.counter = ob.counter) := by
  obtain ⟨mcon, hwritten, rfl⟩ := h.at
  by_cases hm : ob'.moduleIndex = ob.moduleIndex
  · have hafter : ((select c ob.moduleIndex wa).setModule ob.moduleIndex mcon).moduleContexts
        ob'.moduleIndex = mcon := by
      rw [hm]
      exact Function.update_self ..
    have haction : mcon.action (slotOf ob' index') =
        (wa.moduleContexts ob'.moduleIndex).action (slotOf ob' index') := by
      rw [hwritten.others _ hslot (hne hm), masksEdited_action h.counter_le, hm]
    have hafter' : settings ((select c ob.moduleIndex wa).setModule ob.moduleIndex mcon) ob'
        index' = .of ((wa.moduleContexts ob'.moduleIndex).action (slotOf ob' index'))
          (mcon.outMask ob'.counter.toNat) := by
      unfold settings
      dsimp only
      rw [hafter, haction]
    rw [hafter']
    refine ⟨rfl, fun hchanged => ⟨hm, ?_⟩⟩
    by_contra hcount
    refine hchanged ?_
    have hdiff : ob'.counter.toNat ≠ ob.counter.toNat := fun heq =>
      hcount (BitVec.eq_of_toNat_eq heq)
    rw [hwritten.masks _ hcounter, masksEdited_outMask_of_ne fun _ => hdiff, ← hm]
    rfl
  · have hafter : ((select c ob.moduleIndex wa).setModule ob.moduleIndex mcon).moduleContexts
        ob'.moduleIndex = wa.moduleContexts ob'.moduleIndex := Function.update_of_ne hm ..
    unfold settings
    rw [hafter]
    exact ⟨rfl, fun hchanged => absurd rfl hchanged⟩

end

/-! ## Round trips -/

/-- A call that has succeeded was inside the LTIM. The settings can be read before
and after it, if its counter is one of those with an output, and are then what is
expected. Those of all other slots are as before, but for the output mask and the
polarity of the same counter. Other LTIMs and indices are other slots where the
list of LTIMs and the trigger tables agree. -/
structure ReadsBack (wa wa' : WorkingArea) (c : Nat) (ltim : U32) (index : Int)
    (ob : CtrDrvrPtimBinding) (expect : CtrCcv → CtrCcv) : Prop where
  inside : 0 ≤ index ∧ index < ob.size
  reads : 1 ≤ ob.counter.toNat ∧ ob.counter.toNat ≤ 8 → ∃ old wb new wb',
    ctrGetCcv c ltim index wa = .ok old wb ∧ ctrGetCcv c ltim index wa' = .ok new wb' ∧
      apartFromBus new = apartFromBus (expect old)
  others : ∀ ltim' index' ob' v wb, lookup (·.eqpNum) ltim' wa.ptim = some ob' →
    ctrGetCcv c ltim' index' wa = .ok v wb →
    (ob'.moduleIndex = ob.moduleIndex → slotOf ob' index' ≠ slotOf ob index) →
    ∃ v' wb', ctrGetCcv c ltim' index' wa' = .ok v' wb' ∧
      v' = { v with counterMask := v'.counterMask, polarity := v'.polarity } ∧
      (v' ≠ v → ob'.moduleIndex = ob.moduleIndex ∧ ob'.counter = ob.counter)
  apart : Consistent wa → ∀ ltim' (index' : Int) ob',
    lookup (·.eqpNum) ltim' wa.ptim = some ob' → 0 ≤ index' → index' < ob'.size →
    (ltim', index') ≠ (ltim, index) → ob'.moduleIndex = ob.moduleIndex →
    slotOf ob' index' ≠ slotOf ob index

theorem slotOf_eq (hle : 0 ≤ index) (hlt : index < ob.size)
    (hroom : ob.startIndex + ob.size ≤ CtrDrvrRamTableSIZE) :
    slotOf ob index = ob.startIndex + index.toNat := by
  unfold CtrDrvrRamTableSIZE at hroom
  unfold slotOf actionNumber
  rw [BitVec.toNat_ofInt]
  omega

theorem slots_apart (hwa : Consistent wa) {ltim' : U32} {index' : Int}
    {ob' : CtrDrvrPtimBinding} (hob : lookup (·.eqpNum) ltim wa.ptim = some ob)
    (hob' : lookup (·.eqpNum) ltim' wa.ptim = some ob') (hle : 0 ≤ index)
    (hlt : index < ob.size) (hle' : 0 ≤ index') (hlt' : index' < ob'.size)
    (hne : (ltim', index') ≠ (ltim, index)) (hm : ob'.moduleIndex = ob.moduleIndex) :
    slotOf ob' index' ≠ slotOf ob index := by
  obtain ⟨hmem, hnum⟩ := lookup_mem hob
  obtain ⟨hmem', hnum'⟩ := lookup_mem hob'
  rw [slotOf_eq hle hlt (hwa.sized ob hmem).2, slotOf_eq hle' hlt' (hwa.sized ob' hmem').2]
  intro heq
  by_cases hsame : ob' = ob
  · subst hsame
    refine hne (Prod.ext (hnum'.symm.trans hnum) ?_)
    show index' = index
    omega
  · refine hwa.disjoint ob' hmem' ob hmem hsame ob.moduleIndex
      (ob.startIndex + index.toNat) ⟨⟨hm, ?_⟩, rfl, ?_⟩
    · omega
    · omega

/-- The settings that are got are those that were set. -/
theorem ctrSetCcv_reads (hob : lookup (·.eqpNum) ltim wa.ptim = some ob)
    (hindex : 0 ≤ index) (hfits : ccv.Fits)
    (hset : ctrSetCcv c ltim index ccv fields wa = .ok () wa') :
    ReadsBack wa wa' c ltim index ob
      (expected wa.ctim ob.counter.toNat fields ccv) := by
  obtain ⟨ob₁, trg, hsets⟩ := ctrSetCcv_ok hset
  have hsame : ob₁ = ob := Option.some.inj (hsets.finds.binding.symm.trans hob)
  subst hsame
  refine ⟨⟨hindex, hsets.finds.size⟩, ?_, ?_, ?_⟩
  · intro hcounter
    have hbefore := ctrGetCcv_ok.mpr ⟨ob₁, hsets.finds, hcounter, rfl, rfl⟩
    have hafter := ctrGetCcv_ok.mpr ⟨ob₁, hsets.finds_again hsets.finds, hcounter, rfl, rfl⟩
    exact ⟨_, _, _, _, hbefore, hafter, hsets.reads hfits hcounter.2⟩
  · intro ltim' index' ob' v wb hob' hget hapart
    obtain ⟨ob₂, hfinds', hcounter', rfl, -⟩ := ctrGetCcv_ok.mp hget
    have hsame' : ob₂ = ob' := Option.some.inj (hfinds'.binding.symm.trans hob')
    subst hsame'
    have hslot : slotOf ob₂ index' < CtrDrvrRamTableSIZE := by
      have hnumber := hfinds'.number
      unfold slotOf
      omega
    obtain ⟨hothers, hchanged⟩ := hsets.reads_other hslot hapart hcounter'.2
    have hafter := ctrGetCcv_ok.mpr ⟨ob₂, hsets.finds_again hfinds', hcounter', rfl, rfl⟩
    exact ⟨_, _, hafter, hothers, hchanged⟩
  · intro hwa ltim' index' ob' hob' hle hlt hne
    exact slots_apart hwa hob hob' hindex hsets.finds.size hle hlt hne

end

def setThenGet (c : Nat) (ltim : U32) (index : Int) (ccv : CtrCcv) (fields : U32)
    (wa : WorkingArea) : Option (CtrCcv × CtrCcv) :=
  match ctrGetCcv c ltim index wa, ctrSetCcv c ltim index ccv fields wa with
  | .ok old _, .ok () wa' =>
    match ctrGetCcv c ltim index wa' with
    | .ok new _ => some (old, new)
    | .error .. => none
  | _, _ => none

theorem setThenGet_some {c : Nat} {ltim : U32} {index : Int} {ccv old new : CtrCcv}
    {fields : U32} {wa : WorkingArea}
    (h : setThenGet c ltim index ccv fields wa = some (old, new)) : ∃ wb wa' wb',
      ctrGetCcv c ltim index wa = .ok old wb ∧
      ctrSetCcv c ltim index ccv fields wa = .ok () wa' ∧
      ctrGetCcv c ltim index wa' = .ok new wb' := by
  unfold setThenGet at h
  split at h
  · next old₁ wb wa' hget hset =>
    split at h
    · next new₁ wb' hget' =>
      cases h
      exact ⟨wb, wa', wb', hget, hset, hget'⟩
    · cases h
  · cases h

def ltimEvents : List Event :=
  [.opens 0, .ioctl 0 (.createCtim ⟨5, ⟨0x01050064⟩⟩) noMemory,
    .ioctl 0 (.createPtim ⟨7, 0, 1, 2, 0⟩) noMemory]

theorem ltimEvents_run : ∃ wa : WorkingArea,
    (driver.guarded Proper).Reachable wa ∧ wa.ptim = [⟨7, 0, 1, 2, 0⟩] ∧
    setThenGet 0 7 0 { ctim := 5, delay := 100 } (CTR_CCV_CTIM ||| CTR_CCV_DELAY) wa =
      some ({}, { ctim := 5, delay := 100, payload := 0x64 }) := by
  have hruns : (oneModule.run Proper ltimEvents).any (fun wa =>
      wa.ptim = [⟨7, 0, 1, 2, 0⟩] ∧
      setThenGet 0 7 0 { ctim := 5, delay := 100 } (CTR_CCV_CTIM ||| CTR_CCV_DELAY) wa =
        some ({}, { ctim := 5, delay := 100, payload := 0x64 })) = true := by
    decide +kernel
  obtain ⟨wa, hrun, hresult⟩ := exists_run hruns
  exact ⟨wa, .run (.init oneModule_installed) (run_run hrun), hresult⟩

theorem ccv_fits : ({ ctim := 5, delay := 100 } : CtrCcv).Fits := by
  refine ⟨?_, ?_, ?_, ?_, ?_, ?_, .inl rfl, ?_, ?_, ?_, ?_, ?_⟩ <;>
    decide

theorem ctrSetCcv_reads_ltim : ∃ wa wa', Consistent wa ∧
    ctrSetCcv 0 7 0 { ctim := 5, delay := 100 } (CTR_CCV_CTIM ||| CTR_CCV_DELAY) wa =
      .ok () wa' ∧
    ReadsBack wa wa' 0 7 0 ⟨7, 0, 1, 2, 0⟩ (expected wa.ctim 1
      (CTR_CCV_CTIM ||| CTR_CCV_DELAY) { ctim := 5, delay := 100 }) := by
  obtain ⟨wa, hreach, hptim, hboth⟩ := ltimEvents_run
  obtain ⟨-, wa', -, -, hset, -⟩ := setThenGet_some hboth
  refine ⟨wa, wa', (bound_invariant.reachable hreach).consistent, hset, ?_⟩
  exact ctrSetCcv_reads (by rw [hptim]; rfl) (Int.le_refl 0) ccv_fits hset

/-- The payload was not selected and is another one. -/
theorem not_ctrSetCcv_reads : ¬ ∀ (wa wa' : WorkingArea) (c : Nat) (ltim : U32)
    (index : Int) (ccv : CtrCcv) (fields : U32) (ob : CtrDrvrPtimBinding),
    driver.Reachable wa → lookup (·.eqpNum) ltim wa.ptim = some ob → ccv.Fits →
    ctrSetCcv c ltim index ccv fields wa = .ok () wa' →
    ReadsBack wa wa' c ltim index ob (overwrite fields ccv) := by
  intro h
  obtain ⟨wa, hreach, hptim, hboth⟩ := ltimEvents_run
  obtain ⟨wb, wa', wb', hget, hset, hget'⟩ := setThenGet_some hboth
  have hdriver : driver.Reachable wa :=
    System.Reachable.mono (S := driver.guarded Proper) (T := driver) (fun _ hi => hi)
      (fun _ _ _ hs => hs.2) hreach
  have hreads := (h wa wa' 0 7 0 _ _ ⟨7, 0, 1, 2, 0⟩ hdriver (by rw [hptim]; rfl)
    ccv_fits hset).reads (by decide)
  obtain ⟨old, wc, new, wc', hold, hnew, hexpect⟩ := hreads
  cases hget.symm.trans hold
  cases hget'.symm.trans hnew
  exact absurd (congrArg CtrCcv.payload hexpect) (by decide)

/-!
## What a `ctr_set_ccv()` that fails leaves

Nothing is taken back. The action is written last, so a call that fails has not
written it, and the trigger and the configuration of every slot are as before. But
the module of the LTIM is selected as soon as the LTIM is found, and stays selected.
The output mask and the polarity are written as soon as the action is found; they
stay where the CTIM is unknown or the action is refused.
-/

/-- The call comes to the output mask and the polarity of the LTIM and writes them. -/
structure Writes (wa : WorkingArea) (c : Nat) (ltim : U32) (index : Int) (fields : U32)
    (ob : CtrDrvrPtimBinding) : Prop where
  finds : Finds wa c ltim index ob
  edits : EditsMask fields
  counter : 1 ≤ ob.counter.toNat ∧ ob.counter.toNat ≤ 8
  unlocked : (wa.moduleContexts ob.moduleIndex).upLock = false

/-- What a call that fails changes at most. -/
structure Leaves (wa wa' : WorkingArea) (c : Nat) (ltim : U32) (index : Int) (ccv : CtrCcv)
    (fields : U32) : Prop where
  lists : wa'.ptim = wa.ptim ∧ wa'.ctim = wa.ctim ∧ wa'.modules = wa.modules
  tables : ∀ m, SameTables (wa.moduleContexts m) (wa'.moduleContexts m)
  actions : ∀ m i, (wa'.moduleContexts m).action i = (wa.moduleContexts m).action i
  handles : ∀ c', c' ≠ c → wa'.clientContexts c' = wa.clientContexts c'
  selected : wa'.selected c = wa.selected c ∨
    ∃ ob, lookup (·.eqpNum) ltim wa.ptim = some ob ∧ wa'.selected c = ob.moduleIndex
  outMasks : ∀ m k, (wa'.moduleContexts m).outMask k = (wa.moduleContexts m).outMask k ∨
    ∃ ob, Writes wa c ltim index fields ob ∧ m = ob.moduleIndex ∧ k = ob.counter.toNat ∧
      (ccv.Fits → (wa'.moduleContexts m).outMask k = editedMask ccv fields k
        ((wa.moduleContexts m).outMask k))
  nothing : (∀ ob, lookup (·.eqpNum) ltim wa.ptim = some ob →
    wa.selected c = ob.moduleIndex ∧ ¬ EditsMask fields) → wa' = wa

section

variable {wa wa' : WorkingArea} {c m : Nat} {ccv : CtrCcv} {fields ltim : U32} {index : Int}
  {ob : CtrDrvrPtimBinding} {e : Failure}

theorem leaves_same : Leaves wa wa c ltim index ccv fields where
  lists := ⟨rfl, rfl, rfl⟩
  tables _ := .refl _
  actions _ _ := rfl
  handles _ _ := rfl
  selected := .inl rfl
  outMasks _ _ := .inl rfl
  nothing _ := rfl

theorem select_same (h : wa.selected c = m) : select c m wa = wa := by
  unfold select WorkingArea.setClient
  rw [← h]
  unfold WorkingArea.selected
  rw [Function.update_eq_self]

theorem select_handle {c' : Nat} (hc : c' ≠ c) :
    (select c m wa).clientContexts c' = wa.clientContexts c' :=
  Function.update_of_ne hc ..

theorem leaves_select (hob : lookup (·.eqpNum) ltim wa.ptim = some ob) :
    Leaves wa (select c ob.moduleIndex wa) c ltim index ccv fields where
  lists := ⟨rfl, rfl, rfl⟩
  tables _ := .refl _
  actions _ _ := rfl
  handles _ hc := select_handle hc
  selected := .inr ⟨ob, hob, select_selected⟩
  outMasks _ _ := .inl rfl
  nothing h := select_same (h ob hob).1

theorem leaves_masks (h : Writes wa c ltim index fields ob) :
    Leaves wa (edit c (masksEdited ccv fields ob.counter.toNat) (select c ob.moduleIndex wa))
      c ltim index ccv fields := by
  rw [edit_select]
  have hafter : ∀ m, ((select c ob.moduleIndex wa).setModule ob.moduleIndex
      (masksEdited ccv fields ob.counter.toNat
        (wa.moduleContexts ob.moduleIndex))).moduleContexts m =
      if m = ob.moduleIndex then masksEdited ccv fields ob.counter.toNat (wa.moduleContexts m)
      else wa.moduleContexts m := by
    intro m
    show Function.update wa.moduleContexts ob.moduleIndex _ m = _
    by_cases hm : m = ob.moduleIndex
    · rw [hm, Function.update_self, if_pos rfl]
    · rw [Function.update_of_ne hm, if_neg hm]
  refine ⟨⟨rfl, rfl, rfl⟩, fun m => ?_, fun m i => ?_, fun _ hc => select_handle hc, ?_,
    fun m k => ?_, fun hsame => absurd h.edits (hsame ob h.finds.binding).2⟩
  · rw [hafter]
    split
    · exact masksEdited_sameTables _
    · exact .refl _
  · rw [hafter]
    split
    · exact masksEdited_action fun _ => h.counter.2
    · rfl
  · exact .inr ⟨ob, h.finds.binding, select_selected⟩
  · rw [hafter]
    split
    · next hm =>
      by_cases hk : k = ob.counter.toNat
      · rw [hk]
        exact .inr ⟨ob, h, hm, rfl, fun hfits => masksEdited_outMask hfits h.counter.2⟩
      · exact .inl (masksEdited_outMask_of_ne fun _ => hk)
    · exact .inl rfl

/-- A call that fails leaves all actions as they were, and of the rest it changes no
more than the module of the handle and the register of the counter of the LTIM. -/
theorem ctrSetCcv_leaves (h : ctrSetCcv c ltim index ccv fields wa = .error e wa') :
    Leaves wa wa' c ltim index ccv fields := by
  rcases ctrSetCcv_error h with heq | ⟨ob, hob, heq⟩ |
    ⟨ob, hfinds, hedits, hcounter, hlock, heq⟩
  · rw [heq]
    exact leaves_same
  · rw [heq]
    exact leaves_select hob
  · rw [heq]
    exact leaves_masks ⟨hfinds, hedits, hcounter, hlock⟩

end

def failThenMask (c : Nat) (ltim : U32) (index : Int) (ccv : CtrCcv) (fields : U32)
    (m counter : Nat) (wa : WorkingArea) : Option (Failure × CtrDrvrCounterMaskBuf) :=
  match ctrSetCcv c ltim index ccv fields wa with
  | .ok () _ => none
  | .error e wa' => some (e, (wa'.moduleContexts m).outMask counter)

theorem failThenMask_some {c m counter : Nat} {ltim : U32} {index : Int} {ccv : CtrCcv}
    {fields : U32} {wa : WorkingArea} {e : Failure} {cmsb : CtrDrvrCounterMaskBuf}
    (h : failThenMask c ltim index ccv fields m counter wa = some (e, cmsb)) : ∃ wa',
      ctrSetCcv c ltim index ccv fields wa = .error e wa' ∧
      (wa'.moduleContexts m).outMask counter = cmsb := by
  unfold failThenMask at h
  split at h
  · cases h
  · next e₁ wa' hset =>
    cases h
    exact ⟨wa', hset, rfl⟩

theorem ltimEvents_fails : ∃ wa wa' : WorkingArea, driver.Reachable wa ∧
    ctrSetCcv 0 7 0 { ctim := 9, counterMask := 4 } (CTR_CCV_CTIM ||| CTR_CCV_COUNTER_MASK)
      wa = .error .EADDRNOTAVAIL wa' ∧
    (wa.moduleContexts 0).outMask 1 = { counter := 1 } ∧
    (wa'.moduleContexts 0).outMask 1 = { counter := 1, mask := 4 } := by
  have hruns : (oneModule.run (fun _ _ => True) ltimEvents).any (fun wa =>
      (wa.moduleContexts 0).outMask 1 = { counter := 1 } ∧
      failThenMask 0 7 0 { ctim := 9, counterMask := 4 }
        (CTR_CCV_CTIM ||| CTR_CCV_COUNTER_MASK) 0 1 wa =
        some (.EADDRNOTAVAIL, { counter := 1, mask := 4 })) = true := by
    decide +kernel
  obtain ⟨wa, hrun, hbefore, hfails⟩ := exists_run hruns
  obtain ⟨wa', hset, hafter⟩ := failThenMask_some hfails
  exact ⟨wa, wa', .run (.init oneModule_installed) (run_run hrun).of_guarded, hset,
    hbefore, hafter⟩

theorem ctrSetCcv_leaves_ltim : ∃ wa wa' : WorkingArea,
    (wa'.moduleContexts 0).outMask 1 ≠ (wa.moduleContexts 0).outMask 1 ∧
    Leaves wa wa' 0 7 0 { ctim := 9, counterMask := 4 }
      (CTR_CCV_CTIM ||| CTR_CCV_COUNTER_MASK) := by
  obtain ⟨wa, wa', -, hset, hbefore, hafter⟩ := ltimEvents_fails
  refine ⟨wa, wa', ?_, ctrSetCcv_leaves hset⟩
  rw [hbefore, hafter]
  decide

/-- The output mask is another one after a call that has failed. -/
theorem not_ctrSetCcv_leaves : ¬ ∀ (wa wa' : WorkingArea) (c : Nat) (ltim : U32)
    (index : Int) (ccv : CtrCcv) (fields : U32) (e : Failure), driver.Reachable wa →
    ctrSetCcv c ltim index ccv fields wa = .error e wa' →
    wa'.selected c = wa.selected c ∧
      (∀ m i, (wa'.moduleContexts m).action i = (wa.moduleContexts m).action i) ∧
      ∀ m k, (wa'.moduleContexts m).outMask k = (wa.moduleContexts m).outMask k := by
  intro h
  obtain ⟨wa, wa', hreach, hset, hbefore, hafter⟩ := ltimEvents_fails
  have hsame := (h wa wa' 0 7 0 _ _ _ hreach hset).2.2 0 1
  rw [hbefore, hafter] at hsame
  exact absurd hsame (by decide)

end Coht.Timlib
