import Coht.Ctr.Tables
import Coht.Lib.Word

/-!
# What a step does to a slot

A `Slot` is what a module has for one number of its trigger table: the object,
the clients and the trigger in the context, and the word `Config` in its
memory. Each operation on the table works on one slot at a time, as a function
of that slot alone, and the loops do the same to every slot that matches; the
`_slot` lemmas say so, one for each operation. What holds of the slots over a
run is then a matter of these functions.
-/

namespace Coht.Ctr

open Coht.Lib

instance {p : Nat → Prop} [DecidablePred p] :
    Decidable (∃ i < CtrDrvrRamTableSIZE, p i) :=
  decidable_of_iff ((List.range CtrDrvrRamTableSIZE).any fun i => p i) (by simp)

structure Slot where
  eqpNum : U32
  eqpClass : CtrDrvrConnectionClass
  clients : U32
  trig : CtrDrvrTrigger
  config : U32
  deriving DecidableEq

def ModuleContext.slot (mcon : ModuleContext) (i : Nat) : Slot where
  eqpNum := mcon.eqpNum i
  eqpClass := mcon.eqpClass i
  clients := mcon.clients i
  trig := mcon.trigs i
  config := mcon.map (mapConfigs i)

namespace Slot

def connect (c : Nat) (s : Slot) : Slot :=
  { s with clients := s.clients ||| clientMask c, config := s.config ||| busBit }

def fill (eqpNum : U32) (frame : CtrDrvrEventFrame) (c : Nat) (s : Slot) : Slot where
  eqpNum := eqpNum
  eqpClass := .CTIM
  clients := s.clients ||| clientMask c
  trig := ModuleContext.ctimTrigger eqpNum frame
  config := configToHard ModuleContext.ctimConfig

def release (s : Slot) : Slot :=
  if s.eqpClass = .CTIM then
    { s with eqpNum := 0, eqpClass := .HARD, config := configToHard {} }
  else { s with config := s.config &&& ~~~busBit }

def disConnect (c : Nat) (s : Slot) : Slot :=
  if clientMask c &&& s.clients = 0 then s
  else
    let s := { s with clients := s.clients &&& ~~~clientMask c }
    if s.clients ≠ 0 then s else s.release

/-- `DisConnectOne()`, which leaves a slot alone that is neither CTIM nor
PTIM. -/
def disConnectAs (clss : CtrDrvrConnectionClass) (c : Nat) (s : Slot) : Slot :=
  match clss with
  | .CTIM | .PTIM => s.disConnect c
  | .HARD | .other _ => s

def act (act : CtrDrvrAction) (s : Slot) : Slot where
  eqpNum := act.eqpNum
  eqpClass := act.eqpClass
  clients := s.clients
  trig := act.trigger
  config := configToHard (overrideBus s.clients act.config)

def claim (eqpNum counter : U32) (s : Slot) : Slot :=
  { s with eqpNum := eqpNum, eqpClass := .PTIM, trig := { s.trig with counter := counter } }

def clear (s : Slot) : Slot where
  eqpNum := 0
  eqpClass := .HARD
  clients := s.clients
  trig := {}
  config := configToHard {}

end Slot

section

variable {mcon mcon' : ModuleContext} {i j c : Nat} {v : U32} {word : Nat}

/-! ## Masks of clients -/

theorem clientMask_bit {d : Nat} (hc : c < CtrDrvrCLIENT_CONTEXTS) :
    (clientMask c).getLsbD d = decide (d = c) := by
  unfold CtrDrvrCLIENT_CONTEXTS at hc
  unfold clientMask
  exact getLsbD_one_shiftLeft_of_lt (by omega)

theorem joins_bit {w : U32} {d : Nat} (hc : c < CtrDrvrCLIENT_CONTEXTS) :
    (w ||| clientMask c).getLsbD d = (w.getLsbD d || decide (d = c)) := by
  rw [BitVec.getLsbD_or, clientMask_bit hc]

theorem leaves_bit {w : U32} {d : Nat} (hc : c < CtrDrvrCLIENT_CONTEXTS) :
    (w &&& ~~~clientMask c).getLsbD d = (w.getLsbD d && !decide (d = c)) := by
  rw [BitVec.getLsbD_and, BitVec.getLsbD_not, clientMask_bit hc]
  by_cases hd : d < 32
  · simp [hd]
  · rw [BitVec.getLsbD_of_ge w d (by omega)]
    simp

theorem joins_ne {w : U32} (hc : c < CtrDrvrCLIENT_CONTEXTS) :
    w ||| clientMask c ≠ 0 := by
  intro hzero
  have hbit := @joins_bit c w c hc
  rw [hzero] at hbit
  simp at hbit

theorem leaves_idle {w : U32} (h : clientMask c &&& w = 0) : w &&& ~~~clientMask c = w := by
  have hsplit : (w &&& clientMask c) ||| (w &&& ~~~clientMask c) = w := by
    rw [← BitVec.and_or_distrib_left, BitVec.or_not_self, BitVec.and_allOnes]
  rw [BitVec.and_comm, h] at hsplit
  exact (BitVec.zero_or).symm.trans hsplit

/-! ## A slot that a client leaves -/

/-- What becomes of the slot: nothing, if the client is none of its; or it has
one client less; or, when that was the last one, it is released. -/
inductive Slot.Left (c : Nat) (s : Slot) : Slot → Prop
  | same : clientMask c &&& s.clients = 0 → s.Left c s
  | shared : s.clients &&& ~~~clientMask c ≠ 0 →
      s.Left c { s with clients := s.clients &&& ~~~clientMask c }
  | frees : s.clients ≠ 0 → s.clients &&& ~~~clientMask c = 0 → s.eqpClass = .CTIM →
      s.Left c { s with
        eqpNum := 0
        eqpClass := .HARD
        clients := s.clients &&& ~~~clientMask c
        config := configToHard {} }
  | releases : s.clients ≠ 0 → s.clients &&& ~~~clientMask c = 0 → s.eqpClass ≠ .CTIM →
      s.Left c { s with
        clients := s.clients &&& ~~~clientMask c
        config := s.config &&& ~~~busBit }

theorem disConnect_cases (s : Slot) (c : Nat) : s.Left c (s.disConnect c) := by
  unfold Slot.disConnect
  split
  · next hnone => exact .same hnone
  next hmember =>
  have hne : s.clients ≠ 0 := by
    intro hzero
    rw [hzero] at hmember
    exact hmember BitVec.and_zero
  dsimp only
  split
  · next hrest => exact .shared hrest
  · next hrest =>
    have hzero : s.clients &&& ~~~clientMask c = 0 := Decidable.not_not.mp hrest
    unfold Slot.release
    split
    · next hctim => exact .frees hne hzero hctim
    · next hctim => exact .releases hne hzero hctim

theorem disConnectAs_eq (s : Slot) (clss : CtrDrvrConnectionClass) (c : Nat) :
    s.disConnectAs clss c = s ∨ s.disConnectAs clss c = s.disConnect c := by
  cases clss with
  | CTIM | PTIM => exact .inr rfl
  | HARD | other => exact .inl rfl

/-! ## Writes to the memory -/

theorem map_hWr_self (mcon : ModuleContext) (v : U32) (word : Nat) :
    (mcon.hWr v word).map word = v := by
  simp [ModuleContext.hWr]

theorem map_hWr_of_ne {w : Nat} (h : w ≠ word) :
    (mcon.hWr v word).map w = mcon.map w :=
  Function.update_of_ne h _ _

theorem map_writeTrig {strg : CtrDrvrTrigger} {w : Nat} (h : w ≠ mapTrigs i)
    (h' : w ≠ mapTrigs i + 1) : (mcon.writeTrig i strg).map w = mcon.map w := by
  show ((mcon.hWr _ (mapTrigs i)).hWr _ (mapTrigs i + 1)).map w = _
  rw [map_hWr_of_ne h', map_hWr_of_ne h]

theorem map_writeConfig {scnf : CtrDrvrCounterConfiguration} {w : Nat}
    (h : w ≠ mapConfigs i) (h' : w ≠ mapConfigs i + 1) :
    (mcon.writeConfig i scnf).map w = mcon.map w := by
  show ((mcon.hWr _ (mapConfigs i)).hWr _ (mapConfigs i + 1)).map w = _
  rw [map_hWr_of_ne h', map_hWr_of_ne h]

theorem mapConfigs_ne (h : j ≠ i) : mapConfigs j ≠ mapConfigs i := by
  unfold mapConfigs
  omega

theorem mapConfigs_ne_delay : mapConfigs j ≠ mapConfigs i + 1 := by
  unfold mapConfigs
  omega

theorem mapConfigs_ne_trigs (hi : i < CtrDrvrRamTableSIZE) :
    mapConfigs j ≠ mapTrigs i ∧ mapConfigs j ≠ mapTrigs i + 1 := by
  unfold mapConfigs mapTrigs CtrDrvrRamTableSIZE at *
  omega

theorem mapInterruptEnable_ne : mapInterruptEnable ≠ mapConfigs i ∧
    mapInterruptEnable ≠ mapConfigs i + 1 ∧ mapInterruptEnable ≠ mapTrigs i ∧
    mapInterruptEnable ≠ mapTrigs i + 1 := by
  unfold mapInterruptEnable mapConfigs mapTrigs
  omega

theorem config_writeConfig {scnf : CtrDrvrCounterConfiguration} :
    (mcon.writeConfig i scnf).map (mapConfigs j) =
      if j = i then configToHard scnf else mcon.map (mapConfigs j) := by
  by_cases hj : j = i
  · subst hj
    rw [if_pos rfl]
    show ((mcon.hWr _ (mapConfigs j)).hWr _ (mapConfigs j + 1)).map (mapConfigs j) = _
    rw [map_hWr_of_ne mapConfigs_ne_delay]
    exact Function.update_self _ _ _
  · rw [if_neg hj, map_writeConfig (mapConfigs_ne hj) mapConfigs_ne_delay]

theorem config_writeTrig {strg : CtrDrvrTrigger} (hi : i < CtrDrvrRamTableSIZE) :
    (mcon.writeTrig i strg).map (mapConfigs j) = mcon.map (mapConfigs j) :=
  map_writeTrig (mapConfigs_ne_trigs hi).1 (mapConfigs_ne_trigs hi).2

theorem register_writeConfig {scnf : CtrDrvrCounterConfiguration} :
    (mcon.writeConfig i scnf).map mapInterruptEnable = mcon.map mapInterruptEnable :=
  map_writeConfig mapInterruptEnable_ne.1 mapInterruptEnable_ne.2.1

theorem register_writeTrig {strg : CtrDrvrTrigger} :
    (mcon.writeTrig i strg).map mapInterruptEnable = mcon.map mapInterruptEnable :=
  map_writeTrig mapInterruptEnable_ne.2.2.1 mapInterruptEnable_ne.2.2.2

/-! ## The operations on one slot -/

def Changes (mcon mcon' : ModuleContext) (i : Nat) (f : Slot → Slot) : Prop :=
  ∀ j, mcon'.slot j = if j = i then f (mcon.slot j) else mcon.slot j

theorem slot_congr (h1 : mcon'.eqpNum j = mcon.eqpNum j)
    (h2 : mcon'.eqpClass j = mcon.eqpClass j) (h3 : mcon'.clients j = mcon.clients j)
    (h4 : mcon'.trigs j = mcon.trigs j)
    (h5 : mcon'.map (mapConfigs j) = mcon.map (mapConfigs j)) :
    mcon'.slot j = mcon.slot j := by
  unfold ModuleContext.slot
  rw [h1, h2, h3, h4, h5]

theorem changes_intro {f : Slot → Slot} (hat : mcon'.slot i = f (mcon.slot i))
    (hother : ∀ j, j ≠ i → mcon'.slot j = mcon.slot j) : Changes mcon mcon' i f := by
  intro j
  by_cases hj : j = i
  · subst hj
    rw [if_pos rfl, hat]
  · rw [if_neg hj, hother j hj]

theorem connectSlot_slot (mcon : ModuleContext) (c : Nat) (hmsk : U32) (i : Nat) :
    Changes mcon (mcon.connectSlot c hmsk i) i (Slot.connect c) := by
  refine changes_intro ?_ fun j hj => ?_
  · simp [ModuleContext.slot, ModuleContext.connectSlot, ModuleContext.hWr,
      Slot.connect]
  · exact slot_congr rfl rfl (Function.update_of_ne hj _ _) rfl
      (map_hWr_of_ne (mapConfigs_ne hj))

theorem fillCtim_slot {eqpNum : U32} {frame : CtrDrvrEventFrame}
    (hi : i < CtrDrvrRamTableSIZE) :
    Changes mcon (mcon.fillCtim eqpNum frame c i) i (Slot.fill eqpNum frame c) := by
  have hconfig : ∀ j, (mcon.fillCtim eqpNum frame c i).map (mapConfigs j) =
      if j = i then configToHard ModuleContext.ctimConfig
      else mcon.map (mapConfigs j) := by
    intro j
    exact config_writeConfig.trans (by rw [config_writeTrig hi])
  refine changes_intro ?_ fun j hj => ?_
  · unfold ModuleContext.slot Slot.fill
    rw [hconfig, if_pos rfl]
    simp [ModuleContext.fillCtim, ModuleContext.writeTrig, ModuleContext.writeConfig,
      ModuleContext.io32Write, ModuleContext.hWr]
  · exact slot_congr (Function.update_of_ne hj _ _) (Function.update_of_ne hj _ _)
      (Function.update_of_ne hj _ _) (Function.update_of_ne hj _ _)
      ((hconfig j).trans (if_neg hj))

theorem releaseSlot_slot (hi : i < CtrDrvrRamTableSIZE) :
    Changes mcon (mcon.releaseSlot i) i Slot.release := by
  unfold ModuleContext.releaseSlot
  split
  · next hctim =>
    have hconfig : ∀ j, ((mcon.writeTrig i {}).writeConfig i {}).map (mapConfigs j) =
        if j = i then configToHard {} else mcon.map (mapConfigs j) := by
      intro j
      exact config_writeConfig.trans (by rw [config_writeTrig hi])
    refine changes_intro ?_ fun j hj => ?_
    · have hrelease : (mcon.slot i).release = { mcon.slot i with
          eqpNum := 0, eqpClass := .HARD, config := configToHard {} } := if_pos hctim
      rw [hrelease]
      unfold ModuleContext.slot
      dsimp only
      rw [hconfig, if_pos rfl, Function.update_self, Function.update_self]
      rfl
    · exact slot_congr (Function.update_of_ne hj _ _) (Function.update_of_ne hj _ _)
        rfl rfl ((hconfig j).trans (if_neg hj))
  · next hother =>
    refine changes_intro ?_ fun j hj => ?_
    · have hrelease : (mcon.slot i).release = { mcon.slot i with
          config := (mcon.slot i).config &&& ~~~busBit } := if_neg hother
      rw [hrelease]
      simp [ModuleContext.slot, ModuleContext.hWr]
    · exact slot_congr rfl rfl rfl rfl (map_hWr_of_ne (mapConfigs_ne hj))

theorem disableInterrupts_slot {behind : Behind} {clss : CtrDrvrConnectionClass}
    {tndx : Nat} :
    (mcon.disableInterrupts behind clss c tndx).slot j = mcon.slot j := by
  unfold ModuleContext.disableInterrupts
  dsimp only
  split
  · rfl
  · exact slot_congr rfl rfl rfl rfl
      (map_hWr_of_ne (Ne.symm mapInterruptEnable_ne.1))

theorem leaveSlot_slot (mcon : ModuleContext) (c i : Nat) :
    Changes mcon (mcon.leaveSlot c i) i
      fun s => { s with clients := s.clients &&& ~~~clientMask c } := by
  refine changes_intro ?_ fun j hj => ?_
  · simp [ModuleContext.slot, ModuleContext.leaveSlot]
  · exact slot_congr rfl rfl (Function.update_of_ne hj _ _) rfl rfl

theorem disConnectSlot_slot {behind : Behind} {clss : CtrDrvrConnectionClass}
    (hi : i < CtrDrvrRamTableSIZE) :
    Changes mcon (mcon.disConnectSlot behind clss c i) i (Slot.disConnect c) := by
  unfold ModuleContext.disConnectSlot
  dsimp only
  split
  · next hnone =>
    refine changes_intro ?_ fun j hj => rfl
    exact (if_pos hnone).symm
  next hmember =>
  have hslot := leaveSlot_slot mcon c i
  generalize mcon.leaveSlot c i = left at hslot ⊢
  have hat := (hslot i).trans (if_pos rfl)
  have hclients : left.clients i = mcon.clients i &&& ~~~clientMask c :=
    congrArg Slot.clients hat
  have hdis : Slot.disConnect c (mcon.slot i) =
      if left.clients i ≠ 0 then left.slot i else (left.slot i).release := by
    have hmember' : ¬ clientMask c &&& (mcon.slot i).clients = 0 := hmember
    unfold Slot.disConnect
    rw [if_neg hmember', hat, hclients]
    rfl
  split
  · next hne =>
    refine changes_intro ?_ fun j hj => (hslot j).trans (if_neg hj)
    rw [hdis, if_pos hne]
  · next hzero =>
    refine changes_intro ?_ fun j hj => ?_
    · rw [hdis, if_neg hzero, releaseSlot_slot hi i, if_pos rfl, disableInterrupts_slot]
    · rw [releaseSlot_slot hi j, if_neg hj, disableInterrupts_slot, hslot, if_neg hj]

theorem disConnectOne_slot {behind : Behind} {clss : CtrDrvrConnectionClass}
    (hi : i < CtrDrvrRamTableSIZE) (hclss : clss ≠ .HARD) :
    Changes mcon (mcon.disConnectOne behind clss c i) i (Slot.disConnectAs clss c) := by
  cases clss with
  | HARD => exact absurd rfl hclss
  | CTIM => exact disConnectSlot_slot hi
  | PTIM => exact disConnectSlot_slot hi
  | other n => exact changes_intro rfl fun j hj => rfl

theorem writeAction_slot {act : CtrDrvrAction} (hi : i < CtrDrvrRamTableSIZE) :
    Changes mcon (mcon.writeAction i act) i fun s => { s with
      trig := act.trigger
      config := configToHard (overrideBus s.clients act.config) } := by
  have hconfig : ∀ j, (mcon.writeAction i act).map (mapConfigs j) =
      if j = i then configToHard (overrideBus (mcon.clients i) act.config)
      else mcon.map (mapConfigs j) := by
    intro j
    refine config_writeConfig.trans ?_
    split
    · rfl
    · exact config_writeTrig hi
  refine changes_intro ?_ fun j hj => ?_
  · unfold ModuleContext.slot
    dsimp only
    rw [hconfig, if_pos rfl]
    simp [ModuleContext.writeAction, ModuleContext.writeTrig, ModuleContext.writeConfig,
      ModuleContext.io32Write, ModuleContext.hWr]
  · exact slot_congr rfl rfl rfl (Function.update_of_ne hj _ _)
      ((hconfig j).trans (if_neg hj))

theorem claimPtim_slot {eqpNum counter : U32} :
    Changes mcon (mcon.claimPtim eqpNum counter i) i (Slot.claim eqpNum counter) := by
  refine changes_intro ?_ fun j hj => ?_
  · simp [ModuleContext.slot, ModuleContext.claimPtim, Slot.claim]
  · exact slot_congr (Function.update_of_ne hj _ _) (Function.update_of_ne hj _ _) rfl
      (Function.update_of_ne hj _ _) rfl

theorem clearPtim_slot (hi : i < CtrDrvrRamTableSIZE) :
    Changes mcon (mcon.clearPtim i) i Slot.clear := by
  have htrigs : ∀ j, (mcon.io32Write (mapTrigs i) [0, 0]).map (mapConfigs j) =
      mcon.map (mapConfigs j) := by
    intro j
    show ((mcon.hWr 0 (mapTrigs i)).hWr 0 (mapTrigs i + 1)).map _ = _
    rw [map_hWr_of_ne (mapConfigs_ne_trigs hi).2, map_hWr_of_ne (mapConfigs_ne_trigs hi).1]
  have hconfig : ∀ j, (mcon.clearPtim i).map (mapConfigs j) =
      if j = i then configToHard {} else mcon.map (mapConfigs j) := by
    intro j
    exact config_writeConfig.trans (by rw [← htrigs j])
  refine changes_intro ?_ fun j hj => ?_
  · unfold ModuleContext.slot Slot.clear
    rw [hconfig, if_pos rfl]
    simp [ModuleContext.clearPtim, ModuleContext.writeConfig, ModuleContext.io32Write,
      ModuleContext.hWr]
  · exact slot_congr (Function.update_of_ne hj _ _) (Function.update_of_ne hj _ _) rfl
      (Function.update_of_ne hj _ _) ((hconfig j).trans (if_neg hj))

end

end Coht.Ctr
