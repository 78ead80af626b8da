import Coht.Ctr.SlotSteps
import Coht.Lib.Word

/-!
# The commands that read (`ctrdrvr-vme.c`)

`GET_ACTION` reads the trigger and the configuration of a slot from the memory
of the module, and the object of the slot from its context. `GET_OUT_MASK`
reads the output mask and the polarity of a counter. The other commands read
the lists of the driver.

What is packed is read as it was given, where it fits.
-/

namespace Coht.Ctr

open Coht.Lib

/-- `AutoShiftRight()`, which shifts the mask as a signed number. -/
def autoShiftRight (mask value : U32) : U32 :=
  (value >>> shiftOf mask) &&& mask.sshiftRight (shiftOf mask)

/-- `HardToTrigger()` of the words `Frame` and `Trigger`. -/
def hardToTrigger (frame trigger : U32) : CtrDrvrTrigger where
  frame := ⟨frame⟩
  group := {
    groupValue := (autoShiftRight CtrDrvrTrigGROUP_VALUE_MASK trigger).setWidth 16
    groupNumber := (autoShiftRight CtrDrvrTrigGROUP_NUMBER_MASK trigger).setWidth 16 }
  triggerCondition := autoShiftRight CtrDrvrTrigCONDITION_MASK trigger
  machine := autoShiftRight CtrDrvrTrigMACHINE_MASK trigger
  counter := autoShiftRight CtrDrvrTrigCOUNTER_MASK trigger

/-- `HardToConfig()` of the words `Config` and `Delay`. -/
def hardToConfig (config delay : U32) : CtrDrvrCounterConfiguration where
  delay := delay
  onZero := autoShiftRight CtrDrvrCounterConfigON_ZERO_MASK config
  start := autoShiftRight CtrDrvrCounterConfigSTART_MASK config
  mode := autoShiftRight CtrDrvrCounterConfigMODE_MASK config
  clock := autoShiftRight CtrDrvrCounterConfigCLOCK_MASK config
  pulsWidth := autoShiftRight CtrDrvrCounterConfigPULSE_WIDTH_MASK config

def CtrDrvrPolarityTTL : U32 := 0
def CtrDrvrPolarityTTL_BAR : U32 := 1

structure CtrDrvrCounterMaskBuf where
  counter : Nat := 0
  mask : U32 := 0
  polarity : U32 := 0
  deriving DecidableEq

namespace ModuleContext

variable (mcon : ModuleContext)

/-- What `CtrDrvrGET_ACTION` finds in slot `i`. -/
def action (i : Nat) : CtrDrvrAction where
  triggerNumber := i + 1
  eqpNum := mcon.eqpNum i
  eqpClass := mcon.eqpClass i
  trigger := { hardToTrigger (mcon.map (mapTrigs i)) (mcon.map (mapTrigs i + 1)) with
    ctim := (mcon.trigs i).ctim }
  config := hardToConfig (mcon.map (mapConfigs i)) (mcon.map (mapConfigs i + 1))

/-- `CtrDrvrGET_ACTION` -/
def getAction (triggerNumber : Nat) : Except Errno CtrDrvrAction :=
  if 0 < triggerNumber ∧ triggerNumber ≤ CtrDrvrRamTableSIZE then
    .ok (mcon.action (triggerNumber - 1))
  else .error .EINVAL

/-- The output mask and the polarity that the register of a counter holds. -/
def outMask (counter : Nat) : CtrDrvrCounterMaskBuf :=
  let msk := mcon.map (mapRemOutMask counter)
  { counter := counter
    mask := autoShiftRight CtrDrvrCntrCntrlOUT_MASK (msk &&& ~~~CtrDrvrCntrCntrlTTL_BAR)
    polarity := if CtrDrvrCntrCntrlTTL_BAR &&& msk ≠ 0 then CtrDrvrPolarityTTL_BAR
      else CtrDrvrPolarityTTL }

/-- `CtrDrvrGET_OUT_MASK` -/
def getOutMask (counter : Nat) : Except Errno CtrDrvrCounterMaskBuf :=
  if 1 ≤ counter ∧ counter ≤ 8 then .ok (mcon.outMask counter) else .error .EINVAL

end ModuleContext

namespace WorkingArea

variable (wa : WorkingArea) (c : Nat)

/-- A command that reads, past the tests that all commands have in common. -/
def inquire {α : Type} (read : WorkingArea → Except Errno α) : Except Errno α :=
  let ccon := wa.clientContexts c
  if CtrDrvrCLIENT_CONTEXTS ≤ c then .error .ENODEV
  else if ccon.inUse = false then .error .EBADF
  else if (wa.moduleContexts ccon.moduleIndex).inUse = false then .error .ENODEV
  else read wa

/-- `CtrDrvrGET_PTIM_BINDING` -/
def getPtimBinding (eqpNum : U32) : Except Errno CtrDrvrPtimBinding :=
  match lookup (·.eqpNum) eqpNum wa.ptim with
  | some ob => .ok ob
  | none => .error .EINVAL

end WorkingArea

/-! ## Fields -/

def conditionField : Field := ⟨30, 2⟩
def machineField : Field := ⟨27, 3⟩
def counterField : Field := ⟨23, 4⟩
def groupNumberField : Field := ⟨16, 7⟩
def groupValueField : Field := ⟨0, 16⟩
def onZeroField : Field := ⟨30, 2⟩
def startField : Field := ⟨27, 3⟩
def modeField : Field := ⟨25, 2⟩
def clockField : Field := ⟨22, 3⟩
def pulseWidthField : Field := ⟨0, 22⟩
def outMaskField : Field := ⟨6, 12⟩

section

variable {mask value : U32} {f : Field}

def Masks (mask : U32) (f : Field) : Prop :=
  shiftOf mask = f.low ∧ mask = f.mask 32 ∧
    ∀ k < 32 - f.low, (mask.sshiftRight f.low).getLsbD k = (f.ones 32).getLsbD k

instance : Decidable (Masks mask f) := inferInstanceAs (Decidable (_ ∧ _))

theorem autoShiftLeft_eq (h : Masks mask f) : autoShiftLeft mask value = f.put value := by
  unfold autoShiftLeft Field.put
  rw [h.1, ← h.2.1]

theorem autoShiftRight_eq (h : Masks mask f) : autoShiftRight mask value = f.get value := by
  apply BitVec.eq_of_getLsbD_eq
  intro k hk
  unfold autoShiftRight Field.get
  rw [h.1, BitVec.getLsbD_and, BitVec.getLsbD_and, BitVec.getLsbD_ushiftRight]
  by_cases hlow : k < 32 - f.low
  · rw [h.2.2 k hlow]
  · rw [BitVec.getLsbD_of_ge value _ (by omega)]
    rfl

theorem condition_masks : Masks CtrDrvrTrigCONDITION_MASK conditionField := by decide
theorem machine_masks : Masks CtrDrvrTrigMACHINE_MASK machineField := by decide
theorem counter_masks : Masks CtrDrvrTrigCOUNTER_MASK counterField := by decide
theorem groupNumber_masks : Masks CtrDrvrTrigGROUP_NUMBER_MASK groupNumberField := by
  decide
theorem groupValue_masks : Masks CtrDrvrTrigGROUP_VALUE_MASK groupValueField := by decide
theorem onZero_masks : Masks CtrDrvrCounterConfigON_ZERO_MASK onZeroField := by decide
theorem start_masks : Masks CtrDrvrCounterConfigSTART_MASK startField := by decide
theorem mode_masks : Masks CtrDrvrCounterConfigMODE_MASK modeField := by decide
theorem clock_masks : Masks CtrDrvrCounterConfigCLOCK_MASK clockField := by decide
theorem pulseWidth_masks :
    Masks CtrDrvrCounterConfigPULSE_WIDTH_MASK pulseWidthField := by decide
theorem outMask_masks : Masks CtrDrvrCntrCntrlOUT_MASK outMaskField := by decide

end

structure CtrDrvrTrigger.Fits (strg : CtrDrvrTrigger) : Prop where
  condition : conditionField.Holds strg.triggerCondition
  machine : machineField.Holds strg.machine
  counter : counterField.Holds strg.counter
  groupNumber : groupNumberField.Holds strg.group.groupNumber

structure CtrDrvrCounterConfiguration.Fits (scnf : CtrDrvrCounterConfiguration) : Prop where
  onZero : onZeroField.Holds scnf.onZero
  start : startField.Holds scnf.start
  mode : modeField.Holds scnf.mode
  clock : clockField.Holds scnf.clock
  pulsWidth : pulseWidthField.Holds scnf.pulsWidth

section

variable {strg : CtrDrvrTrigger} {scnf : CtrDrvrCounterConfiguration} {frame config : U32}

theorem holds_setWidth {f : Field} {v : BitVec 16} (h : f.Holds v) :
    f.Holds (v.setWidth 32) := by
  unfold Field.Holds at h ⊢
  rw [BitVec.toNat_setWidth]
  exact Nat.lt_of_le_of_lt (Nat.mod_le _ _) h

theorem setWidth_holds {f : Field} {v : U32} (h : f.Holds v) : f.Holds (v.setWidth 16) := by
  unfold Field.Holds at h ⊢
  rw [BitVec.toNat_setWidth]
  exact Nat.lt_of_le_of_lt (Nat.mod_le _ _) h

theorem hardToTrigger_triggerToHard (h : strg.Fits) :
    hardToTrigger strg.frame.long (triggerToHard strg) = { strg with ctim := 0 } := by
  obtain ⟨hcondition, hmachine, hcounter, hnumber⟩ := h
  have hgroup := holds_setWidth hnumber
  have hvalue : groupValueField.Holds (strg.group.groupValue.setWidth 32) :=
    holds_setWidth strg.group.groupValue.isLt
  unfold hardToTrigger triggerToHard
  simp only [autoShiftLeft_eq condition_masks, autoShiftLeft_eq machine_masks,
    autoShiftLeft_eq counter_masks, autoShiftLeft_eq groupNumber_masks,
    autoShiftLeft_eq groupValue_masks, autoShiftRight_eq condition_masks,
    autoShiftRight_eq machine_masks, autoShiftRight_eq counter_masks,
    autoShiftRight_eq groupNumber_masks, autoShiftRight_eq groupValue_masks]
  simp (disch := decide) only [Field.get_or, Field.get_put_apart]
  simp (disch := first | assumption | decide) only [Field.get_put, BitVec.or_zero,
    BitVec.zero_or]
  simp

theorem hardToConfig_configToHard (h : scnf.Fits) :
    hardToConfig (configToHard scnf) scnf.delay = scnf := by
  obtain ⟨honZero, hstart, hmode, hclock, hwidth⟩ := h
  unfold hardToConfig configToHard
  simp only [autoShiftLeft_eq onZero_masks, autoShiftLeft_eq start_masks,
    autoShiftLeft_eq mode_masks, autoShiftLeft_eq clock_masks,
    autoShiftLeft_eq pulseWidth_masks, autoShiftRight_eq onZero_masks,
    autoShiftRight_eq start_masks, autoShiftRight_eq mode_masks,
    autoShiftRight_eq clock_masks, autoShiftRight_eq pulseWidth_masks]
  simp (disch := decide) only [Field.get_or, Field.get_put_apart]
  simp (disch := first | assumption | decide) only [Field.get_put, BitVec.or_zero,
    BitVec.zero_or]

theorem hardToTrigger_fits : (hardToTrigger frame config).Fits where
  condition := by
    show conditionField.Holds (autoShiftRight CtrDrvrTrigCONDITION_MASK config)
    rw [autoShiftRight_eq condition_masks]
    exact Field.holds_get _
  machine := by
    show machineField.Holds (autoShiftRight CtrDrvrTrigMACHINE_MASK config)
    rw [autoShiftRight_eq machine_masks]
    exact Field.holds_get _
  counter := by
    show counterField.Holds (autoShiftRight CtrDrvrTrigCOUNTER_MASK config)
    rw [autoShiftRight_eq counter_masks]
    exact Field.holds_get _
  groupNumber := by
    show groupNumberField.Holds
      ((autoShiftRight CtrDrvrTrigGROUP_NUMBER_MASK config).setWidth 16)
    rw [autoShiftRight_eq groupNumber_masks]
    exact setWidth_holds (Field.holds_get _)

theorem hardToConfig_fits {delay : U32} : (hardToConfig config delay).Fits where
  onZero := by
    show onZeroField.Holds (autoShiftRight CtrDrvrCounterConfigON_ZERO_MASK config)
    rw [autoShiftRight_eq onZero_masks]
    exact Field.holds_get _
  start := by
    show startField.Holds (autoShiftRight CtrDrvrCounterConfigSTART_MASK config)
    rw [autoShiftRight_eq start_masks]
    exact Field.holds_get _
  mode := by
    show modeField.Holds (autoShiftRight CtrDrvrCounterConfigMODE_MASK config)
    rw [autoShiftRight_eq mode_masks]
    exact Field.holds_get _
  clock := by
    show clockField.Holds (autoShiftRight CtrDrvrCounterConfigCLOCK_MASK config)
    rw [autoShiftRight_eq clock_masks]
    exact Field.holds_get _
  pulsWidth := by
    show pulseWidthField.Holds
      (autoShiftRight CtrDrvrCounterConfigPULSE_WIDTH_MASK config)
    rw [autoShiftRight_eq pulseWidth_masks]
    exact Field.holds_get _

end

/-! ## What is written is read -/

section

variable {mcon mcon' : ModuleContext} {act : CtrDrvrAction} {i j : Nat}

theorem writeTrig_words {strg : CtrDrvrTrigger} :
    (mcon.writeTrig i strg).map (mapTrigs i) = strg.frame.long ∧
      (mcon.writeTrig i strg).map (mapTrigs i + 1) = triggerToHard strg := by
  constructor
  · show Function.update (Function.update _ _ _) (mapTrigs i + 1) _ (mapTrigs i) = _
    rw [Function.update_of_ne (by omega), Function.update_self]
  · exact Function.update_self ..

theorem writeConfig_words {scnf : CtrDrvrCounterConfiguration} :
    (mcon.writeConfig i scnf).map (mapConfigs i) = configToHard scnf ∧
      (mcon.writeConfig i scnf).map (mapConfigs i + 1) = scnf.delay := by
  constructor
  · show Function.update (Function.update _ _ _) (mapConfigs i + 1) _ (mapConfigs i) = _
    rw [Function.update_of_ne (by omega), Function.update_self]
  · exact Function.update_self ..

theorem writeAction_map {w : Nat} (h : ∀ k < 2, w ≠ mapTrigs i + k ∧ w ≠ mapConfigs i + k) :
    (mcon.writeAction i act).map w = mcon.map w := by
  have h0 := h 0 (by omega)
  have h1 := h 1 (by omega)
  unfold ModuleContext.writeAction
  dsimp only
  rw [map_writeConfig h0.2 h1.2]
  exact map_writeTrig h0.1 h1.1

theorem mapTrigs_ne_configs (hi : i < CtrDrvrRamTableSIZE) {k k' : Nat} (hk : k < 2) :
    mapTrigs i + k ≠ mapConfigs j + k' := by
  unfold CtrDrvrRamTableSIZE at hi
  unfold mapTrigs mapConfigs
  omega

theorem action_congr (heqp : mcon'.eqpNum j = mcon.eqpNum j)
    (hclass : mcon'.eqpClass j = mcon.eqpClass j) (htrig : mcon'.trigs j = mcon.trigs j)
    (hmap : ∀ k < 2, mcon'.map (mapTrigs j + k) = mcon.map (mapTrigs j + k) ∧
      mcon'.map (mapConfigs j + k) = mcon.map (mapConfigs j + k)) :
    mcon'.action j = mcon.action j := by
  have h0 := hmap 0 (by omega)
  have h1 := hmap 1 (by omega)
  unfold ModuleContext.action
  rw [heqp, hclass, htrig, h1.1, h1.2]
  rw [Nat.add_zero, Nat.add_zero] at h0
  rw [h0.1, h0.2]

theorem mapTrigs_ne (h : j ≠ i) {k k' : Nat} (hk : k < 2) (hk' : k' < 2) :
    mapTrigs j + k ≠ mapTrigs i + k' ∧ mapConfigs j + k ≠ mapConfigs i + k' := by
  unfold mapTrigs mapConfigs
  omega

theorem writeAction_words (hi : i < CtrDrvrRamTableSIZE) :
    (mcon.writeAction i act).map (mapTrigs i) = act.trigger.frame.long ∧
    (mcon.writeAction i act).map (mapTrigs i + 1) = triggerToHard act.trigger ∧
    (mcon.writeAction i act).map (mapConfigs i) =
      configToHard (overrideBus (mcon.clients i) act.config) ∧
    (mcon.writeAction i act).map (mapConfigs i + 1) = act.config.delay := by
  have hne : ∀ k < 2, mapTrigs i + k ≠ mapConfigs i ∧ mapTrigs i + k ≠ mapConfigs i + 1 :=
    fun k hk => ⟨@mapTrigs_ne_configs i i hi k 0 hk, mapTrigs_ne_configs hi hk⟩
  have hframe : mapTrigs i ≠ mapConfigs i ∧ mapTrigs i ≠ mapConfigs i + 1 :=
    hne 0 (by omega)
  have htrigger := hne 1 (by omega)
  have htrigs := @writeTrig_words mcon i act.trigger
  unfold ModuleContext.writeAction
  dsimp only
  refine ⟨?_, ?_, writeConfig_words.1, writeConfig_words.2⟩
  · rw [map_writeConfig hframe.1 hframe.2]
    exact htrigs.1
  · rw [map_writeConfig htrigger.1 htrigger.2]
    exact htrigs.2

theorem writeAction_action (hi : i < CtrDrvrRamTableSIZE) (htrig : act.trigger.Fits)
    (hconfig : (overrideBus (mcon.clients i) act.config).Fits) :
    (mcon.writeAction i act).action i =
      { triggerNumber := i + 1
        eqpNum := mcon.eqpNum i
        eqpClass := mcon.eqpClass i
        trigger := act.trigger
        config := overrideBus (mcon.clients i) act.config } := by
  obtain ⟨hframe, htrigger, hword, hdelay⟩ := @writeAction_words mcon act i hi
  have hctim : (mcon.writeAction i act).trigs i = act.trigger := Function.update_self ..
  have hread := hardToConfig_configToHard hconfig
  unfold ModuleContext.action
  rw [hframe, htrigger, hword, hdelay, hctim, hardToTrigger_triggerToHard htrig]
  rw [show act.config.delay = (overrideBus (mcon.clients i) act.config).delay from rfl,
    hread]
  rfl

theorem writeAction_action_of_ne (hi : i < CtrDrvrRamTableSIZE)
    (hj : j < CtrDrvrRamTableSIZE) (hne : j ≠ i) :
    (mcon.writeAction i act).action j = mcon.action j := by
  refine action_congr rfl rfl (Function.update_of_ne hne ..) fun k hk => ⟨?_, ?_⟩
  · exact writeAction_map fun k' hk' =>
      ⟨(mapTrigs_ne hne hk hk').1, mapTrigs_ne_configs hj hk⟩
  · exact writeAction_map fun k' hk' =>
      ⟨Ne.symm (mapTrigs_ne_configs hi hk'), (mapTrigs_ne hne hk hk').2⟩

/-! ## Output masks -/

def outWord (mask : U32) (ttlBar : Bool) : U32 :=
  autoShiftLeft CtrDrvrCntrCntrlOUT_MASK mask |||
    if ttlBar then CtrDrvrCntrCntrlTTL_BAR else 0

/-- The mask that is written for an empty one. -/
def givenMask (counter : Nat) (mask : U32) : U32 :=
  if mask = 0 then 1#32 <<< counter else mask

variable {counter : Nat} {mask : U32} {ttlBar : Bool}

theorem setOutMask_ok : mcon.setOutMask counter mask ttlBar = .ok mcon' ↔
    (1 ≤ counter ∧ counter ≤ 8) ∧
      mcon' = mcon.hWr (outWord (givenMask counter mask) ttlBar) (mapRemOutMask counter) := by
  unfold ModuleContext.setOutMask ModuleContext.onCounter
  dsimp only
  split
  · next hcounter =>
    constructor
    · intro heq
      exact ⟨hcounter, (Except.ok.inj heq).symm⟩
    · intro heq
      exact congrArg _ heq.2.symm
  · next hcounter =>
    constructor
    · intro heq
      cases heq
    · intro heq
      exact absurd heq.1 hcounter

theorem bar_iff {v : U32} : CtrDrvrCntrCntrlTTL_BAR &&& v ≠ 0 ↔ v.getLsbD 31 = true := by
  have hbar : CtrDrvrCntrCntrlTTL_BAR = BitVec.twoPow 32 31 := by decide
  have hne : BitVec.twoPow 32 31 ≠ 0#32 := by decide
  rw [hbar, BitVec.and_comm, BitVec.and_twoPow]
  cases hbit : v.getLsbD 31 with
  | true => simp [hne]
  | false => simp

theorem put_bar : (outMaskField.put mask).getLsbD 31 = false := by
  rw [Field.put_bit]
  rfl

theorem outWord_read (hmask : outMaskField.Holds mask) :
    autoShiftRight CtrDrvrCntrCntrlOUT_MASK
      (outWord mask ttlBar &&& ~~~CtrDrvrCntrCntrlTTL_BAR) = mask ∧
    (CtrDrvrCntrCntrlTTL_BAR &&& outWord mask ttlBar ≠ 0 ↔ ttlBar = true) := by
  have hclear : outWord mask ttlBar &&& ~~~CtrDrvrCntrCntrlTTL_BAR = outMaskField.put mask := by
    -- The bit of the polarity is not one of the mask.
    have hapart : outMaskField.put mask &&& ~~~CtrDrvrCntrCntrlTTL_BAR =
        outMaskField.put mask := by
      apply BitVec.eq_of_getLsbD_eq
      intro k hk
      rw [BitVec.getLsbD_and]
      by_cases hbar : k = 31
      · rw [hbar, put_bar]
        rfl
      · have hclear : (~~~CtrDrvrCntrCntrlTTL_BAR).getLsbD k = true := by
          have hall : ∀ k < 32, k ≠ 31 → (~~~CtrDrvrCntrCntrlTTL_BAR).getLsbD k = true := by
            decide
          exact hall k hk hbar
        rw [hclear, Bool.and_true]
    unfold outWord
    rw [autoShiftLeft_eq outMask_masks, BitVec.and_or_distrib_right, hapart]
    cases ttlBar <;> simp
  constructor
  · rw [hclear, autoShiftRight_eq outMask_masks]
    exact Field.get_put _ (by decide) hmask
  · rw [bar_iff]
    unfold outWord
    rw [autoShiftLeft_eq outMask_masks, BitVec.getLsbD_or, put_bar, Bool.false_or]
    cases ttlBar <;> decide

/-! ## Writing an action -/

theorem outMask_congr {mcon mcon' : ModuleContext}
    (h : mcon'.map (mapRemOutMask counter) = mcon.map (mapRemOutMask counter)) :
    mcon'.outMask counter = mcon.outMask counter := by
  unfold ModuleContext.outMask
  rw [h]

structure Written (mcon mcon' : ModuleContext) (i : Nat) (act : CtrDrvrAction) : Prop where
  slot : i < CtrDrvrRamTableSIZE
  inUse : mcon'.inUse = mcon.inUse
  trigger : act.trigger.Fits → (overrideBus (mcon.clients i) act.config).Fits →
    (mcon'.action i).trigger = act.trigger
  config : act.trigger.Fits → (overrideBus (mcon.clients i) act.config).Fits →
    (mcon'.action i).config = overrideBus (mcon.clients i) act.config
  others : ∀ j < CtrDrvrRamTableSIZE, j ≠ i → mcon'.action j = mcon.action j
  masks : ∀ counter ≤ 8, mcon'.outMask counter = mcon.outMask counter

theorem mapRemOutMask_apart (hcounter : counter ≤ 8) (i : Nat) : ∀ k < 2,
    mapRemOutMask counter ≠ mapTrigs i + k ∧ mapRemOutMask counter ≠ mapConfigs i + k := by
  unfold mapRemOutMask mapCounters mapTrigs mapConfigs
  omega

theorem writeAction_inUse {mcon : ModuleContext} {act : CtrDrvrAction} {i : Nat} :
    (mcon.writeAction i act).inUse = mcon.inUse := by
  unfold ModuleContext.writeAction ModuleContext.writeConfig ModuleContext.writeTrig
  simp only [ModuleContext.io32Write, ModuleContext.hWr]

theorem writeAction_written {mcon : ModuleContext} {act : CtrDrvrAction} {i : Nat}
    (hi : i < CtrDrvrRamTableSIZE) : Written mcon (mcon.writeAction i act) i act where
  slot := hi
  inUse := writeAction_inUse
  trigger htrig hconfig := by rw [writeAction_action hi htrig hconfig]
  config htrig hconfig := by rw [writeAction_action hi htrig hconfig]
  others _ hj hne := writeAction_action_of_ne hi hj hne
  masks _ hcounter := outMask_congr (writeAction_map (mapRemOutMask_apart hcounter i))

theorem setAction_written {mcon mcon' : ModuleContext} {act : CtrDrvrAction}
    (h : mcon.setAction act = .ok mcon') :
    Written mcon mcon' (act.triggerNumber - 1) act := by
  obtain ⟨i, hi, hnumber, -, -, heq⟩ := setAction_ok h
  rw [hnumber, Nat.add_sub_cancel, heq]
  split
  · exact writeAction_written hi
  · have hclaimed := @writeAction_written (mcon.claimAction i act) act i hi
    exact {
      slot := hi
      inUse := hclaimed.inUse
      trigger := hclaimed.trigger
      config := hclaimed.config
      masks := hclaimed.masks
      others := fun j hj hne => (hclaimed.others j hj hne).trans
        (action_congr (Function.update_of_ne hne ..) (Function.update_of_ne hne ..)
          (Function.update_of_ne hne ..) fun _ _ => ⟨rfl, rfl⟩) }

end

end Coht.Ctr
