import Coht.Ctr.Bindings

/-!
# The bus bit of a slot

`Connect()` and `DisConnectOne()` change the bus bit of a configuration in the
memory of the module; an action writes the whole word anew, from the request
and with the bus bit as the clients want it. `Slot.Follows` says that the bit
is set exactly when there are clients, and every step keeps it.

That a connection changes no other bit of a slot of class PTIM is a matter of
which slot it takes: a new instance of a CTIM object takes the first one whose
`EqpNum` is 0, and a PTIM object can have that number.
-/

namespace Coht.Ctr

open Coht.Lib

def Slot.Follows (s : Slot) : Prop := s.config &&& busBit ≠ 0 ↔ s.clients ≠ 0

def Slot.Kept (s : Slot) : Prop := s.eqpClass = .PTIM → s.eqpNum ≠ 0

/-- The step writes no memory past the driver, and makes no PTIM object with the
number 0. -/
def KeepsPtims (wa : WorkingArea) : Event → Prop
  | .ioctl _ (.createPtim ptim) _ => ptim.eqpNum ≠ 0
  | .ioctl c (.setAction act) _ =>
    let s := (wa.moduleContexts (wa.selected c)).slot (act.triggerNumber - 1)
    s.eqpNum = 0 → s.eqpClass ≠ .HARD → act.eqpClass = .PTIM → act.eqpNum ≠ 0
  | e => e.rawWrites = false

instance (wa : WorkingArea) (e : Event) : Decidable (KeepsPtims wa e) :=
  match e with
  | .ioctl _ cmd _ =>
    match cmd with
    | .createPtim _ => inferInstanceAs (Decidable (_ ≠ _))
    | .setAction _ => inferInstanceAs (Decidable (_ → _ → _ → _))
    | .setTimeout _ | .setQueueFlag _ | .getQueueOverflow | .setModule _ | .lock
    | .unlock _ | .getUtc | .connect _ | .disconnect _ | .createCtim _
    | .destroyCtim _ | .changeCtimFrame _ | .destroyPtim _ | .control _ | .inquiry =>
      instDecidableEqBool _ _
  | .opens _ | .closes .. | .writes .. | .reads .. | .interrupts .. =>
    instDecidableEqBool _ _

/-- `CONNECT`, `DISCONNECT` or a close. -/
def Event.connecting : Event → Bool
  | .ioctl _ (.connect _) _ | .ioctl _ (.disconnect _) _ | .closes .. => true
  | _ => false

/-- The driver on modules whose configurations are cleared. -/
def clearedDriver : System WorkingArea Event where
  init wa := Installed wa ∧ ∀ m, ∀ i < CtrDrvrRamTableSIZE,
    (wa.moduleContexts m).map (mapConfigs i) = 0
  step := driver.step

section

variable {wa wa' : WorkingArea} {e : Event} {m i c : Nat} {s s' : Slot} {w : U32}

/-! ## Words -/

theorem busBit_eq : busBit = BitVec.twoPow 32 30 := by decide

theorem bus_iff : w &&& busBit ≠ 0 ↔ w.getLsbD 30 = true := by
  have hne : BitVec.twoPow 32 30 ≠ 0#32 := by decide
  rw [busBit_eq, BitVec.and_twoPow]
  cases hbit : w.getLsbD 30 with
  | true => simp [hne]
  | false => simp

theorem bus_or : (w ||| busBit) &&& busBit ≠ 0 := by
  rw [bus_iff, BitVec.getLsbD_or]
  simp [busBit_eq]

theorem bus_and_not : (w &&& ~~~busBit) &&& busBit = 0 := by
  rw [BitVec.and_assoc, BitVec.and_comm (~~~busBit), BitVec.and_not_self]
  exact BitVec.and_zero

theorem or_bus_other : (w ||| busBit) &&& ~~~busBit = w &&& ~~~busBit := by
  rw [BitVec.and_or_distrib_right, BitVec.and_not_self]
  exact BitVec.or_zero

theorem and_bus_other : (w &&& ~~~busBit) &&& ~~~busBit = w &&& ~~~busBit := by
  rw [BitVec.and_assoc, BitVec.and_self]

theorem autoShiftLeft_bit {mask value : U32} {k : Nat} :
    (autoShiftLeft mask value).getLsbD k =
      ((value <<< shiftOf mask).getLsbD k && mask.getLsbD k) := by
  unfold autoShiftLeft
  exact BitVec.getLsbD_and

theorem configToHard_bus {scnf : CtrDrvrCounterConfiguration} :
    (configToHard scnf).getLsbD 30 = scnf.onZero.getLsbD 0 := by
  have hshift : shiftOf CtrDrvrCounterConfigON_ZERO_MASK = 30 := by decide
  unfold configToHard
  simp only [BitVec.getLsbD_or, autoShiftLeft_bit, hshift]
  simp [CtrDrvrCounterConfigPULSE_WIDTH_MASK, CtrDrvrCounterConfigCLOCK_MASK,
    CtrDrvrCounterConfigMODE_MASK, CtrDrvrCounterConfigSTART_MASK,
    CtrDrvrCounterConfigON_ZERO_MASK]

/-! ## One step on one slot -/

theorem connect_follows (hc : c < CtrDrvrCLIENT_CONTEXTS) : (s.connect c).Follows :=
  ⟨fun _ => joins_ne hc, fun _ => bus_or⟩

theorem fill_follows {eqpNum : U32} {frame : CtrDrvrEventFrame}
    (hc : c < CtrDrvrCLIENT_CONTEXTS) : (s.fill eqpNum frame c).Follows := by
  refine ⟨fun _ => joins_ne hc, fun _ => bus_iff.mpr ?_⟩
  exact configToHard_bus

theorem configToHard_zero : configToHard {} = 0 := by decide

theorem follows_unused (hclients : s.clients = 0) (hbit : s.config &&& busBit = 0) :
    s.Follows :=
  ⟨fun hset => absurd hbit hset, fun hused => absurd hclients hused⟩

theorem configToHard_bus_zero : configToHard {} &&& busBit = 0 := by
  rw [configToHard_zero]
  exact BitVec.zero_and

theorem disConnect_follows (h : s.Follows) : (s.disConnect c).Follows := by
  have hleft := disConnect_cases s c
  generalize s.disConnect c = s' at hleft ⊢
  cases hleft with
  | same => exact h
  | shared hrest =>
    refine ⟨fun _ => hrest, fun _ => h.mpr fun hnone => hrest ?_⟩
    rw [hnone]
    exact BitVec.zero_and
  | frees hne hrest => exact follows_unused hrest configToHard_bus_zero
  | releases hne hrest => exact follows_unused hrest bus_and_not

theorem disConnectAs_follows {clss : CtrDrvrConnectionClass} (h : s.Follows) :
    (s.disConnectAs clss c).Follows := by
  rcases disConnectAs_eq s clss c with heq | heq
  · rw [heq]
    exact h
  · rw [heq]
    exact disConnect_follows h

theorem act_follows {act : CtrDrvrAction} : (s.act act).Follows := by
  unfold Slot.Follows
  rw [bus_iff]
  show (configToHard (overrideBus s.clients act.config)).getLsbD 30 = true ↔ s.clients ≠ 0
  rw [configToHard_bus]
  unfold overrideBus
  dsimp only
  split
  · next hne => simpa [CtrDrvrCounterOnZeroBUS] using hne
  · next hzero => simpa [CtrDrvrCounterOnZeroBUS] using hzero

theorem slotChange_follows (h : SlotChange wa m i s e s') (hraw : e.rawWrites = false)
    (hs : s.Follows) : s'.Follows := by
  cases h with
  | same => exact hs
  | connects hc => exact connect_follows hc
  | fills hc => exact fill_follows hc
  | disconnects | leaves | closes => exact disConnectAs_follows hs
  | acts => exact act_follows
  | claims => exact hs
  | clears hnum hclass hfree => exact follows_unused hfree configToHard_bus_zero
  | writes hwrites =>
    rw [hraw] at hwrites
    cases hwrites

theorem disConnectAs_kept {clss : CtrDrvrConnectionClass} (h : s.Kept) :
    (s.disConnectAs clss c).Kept := by
  have hslot : (s.disConnect c).Kept := by
    have hleft := disConnect_cases s c
    generalize s.disConnect c = s' at hleft ⊢
    cases hleft with
    | same | shared | releases => exact h
    | frees =>
      intro hclass
      cases hclass
  rcases disConnectAs_eq s clss c with heq | heq
  · rw [heq]
    exact h
  · rw [heq]
    exact hslot

theorem slotChange_kept (h : SlotChange wa m i s e s') (hkeeps : KeepsPtims wa e)
    (hs : s = (wa.moduleContexts m).slot i) (hkept : s.Kept) : s'.Kept := by
  cases h with
  | same | connects | writes => exact hkept
  | fills =>
    intro hclass
    cases hclass
  | disconnects | leaves | closes => exact disConnectAs_kept hkept
  | @acts c act behind hselected hnumber hclass htests =>
    intro hptim
    rcases htests with hempty | ⟨hnum, hsame, -⟩
    · have hfree : (wa.moduleContexts (wa.selected c)).slot (act.triggerNumber - 1) = s := by
        rw [hselected, hnumber, Nat.add_sub_cancel, hs]
      exact hkeeps (by rw [hfree]; exact hempty) (by rw [hfree]; exact hclass) hptim
    · have hne := hkept (hsame.trans hptim)
      show act.eqpNum ≠ 0
      rw [← hnum]
      exact hne
  | claims =>
    intro _
    exact hkeeps
  | clears =>
    intro hclass
    cases hclass

theorem disConnect_other (hptim : s.eqpClass = .PTIM) :
    (s.disConnect c).config &&& ~~~busBit = s.config &&& ~~~busBit := by
  have hleft := disConnect_cases s c
  generalize s.disConnect c = s' at hleft ⊢
  cases hleft with
  | same | shared => rfl
  | frees hne hrest hctim => cases hctim.symm.trans hptim
  | releases => exact and_bus_other

theorem slotChange_other (h : SlotChange wa m i s e s') (hconnecting : e.connecting = true)
    (hkept : s.Kept) (hptim : s.eqpClass = .PTIM) :
    s'.config &&& ~~~busBit = s.config &&& ~~~busBit := by
  cases h with
  | same => rfl
  | connects => exact or_bus_other
  | fills hc hempty => exact absurd hempty (hkept hptim)
  | disconnects | leaves | closes =>
    rw [hptim]
    exact disConnect_other hptim
  | acts | claims | clears => cases hconnecting
  | writes hwrites =>
    cases e with
    | ioctl c cmd behind => cases cmd <;> first | cases hwrites | cases hconnecting
    | _ => cases hwrites

/-! ## Runs -/

def BusOk (wa : WorkingArea) : Prop :=
  ∀ m, ∀ i < CtrDrvrRamTableSIZE, ((wa.moduleContexts m).slot i).Follows ∧
    ((wa.moduleContexts m).slot i).Kept

theorem KeepsPtims.raw (h : KeepsPtims wa e) : e.rawWrites = false := by
  cases e with
  | ioctl c cmd behind =>
    cases cmd with
    | control => exact h
    | _ => rfl
  | _ => rfl

theorem busOk_invariant : (clearedDriver.guarded KeepsPtims).Invariant BusOk where
  init h m i hi := by
    obtain ⟨hinst, hzero⟩ := h
    have hslot := hinst.slot m i
    refine ⟨⟨fun hset => absurd ?_ hset, fun hclients => absurd ?_ hclients⟩, fun hptim => ?_⟩
    · have hconfig : ((_ : ModuleContext).slot i).config = 0 := hzero m i hi
      rw [hconfig]
      exact BitVec.zero_and
    · rw [hslot]
    · rw [hslot] at hptim
      cases hptim
  step hok hstep m i hi := by
    obtain ⟨hkeeps, hready, hnext⟩ := hstep
    have hslot := change_slot (next_change hready hnext) hi m
    obtain ⟨hfollows, hkept⟩ := hok m i hi
    exact ⟨slotChange_follows hslot hkeeps.raw hfollows,
      slotChange_kept hslot hkeeps rfl hkept⟩

/-- In every run from cleared tables that writes no memory past the driver and
makes no PTIM object with the number 0, the bus bit of a slot is set if and
only if a client is connected to it, and connections change no other bit of a
slot of a PTIM object. -/
theorem busBit_follows (h : (clearedDriver.guarded KeepsPtims).Reachable wa) :
    (∀ m, ∀ i < CtrDrvrRamTableSIZE,
      (wa.moduleContexts m).map (mapConfigs i) &&& busBit ≠ 0 ↔
        (wa.moduleContexts m).clients i ≠ 0) ∧
    ∀ e wa', e.connecting = true → driver.step wa e wa' →
      ∀ m, ∀ i < CtrDrvrRamTableSIZE, (wa.moduleContexts m).eqpClass i = .PTIM →
        (wa'.moduleContexts m).map (mapConfigs i) &&& ~~~busBit =
          (wa.moduleContexts m).map (mapConfigs i) &&& ~~~busBit := by
  have hok := busOk_invariant.reachable h
  refine ⟨fun m i hi => (hok m i hi).1, ?_⟩
  intro e wa' hconnecting hstep m i hi hptim
  have hslot := change_slot (next_change hstep.1 hstep.2) hi m
  exact slotChange_other hslot hconnecting (hok m i hi).2 hptim

end

theorem oneModule_cleared : clearedDriver.init oneModule :=
  ⟨oneModule_installed, fun _ _ _ => rfl⟩

theorem cleared_reachable {ok : WorkingArea → Event → Prop} {wa : WorkingArea}
    {es : List Event} (h : (driver.guarded ok).Run oneModule es wa) :
    (clearedDriver.guarded ok).Reachable wa :=
  .run (.init oneModule_cleared) (System.Run.mono (S := driver.guarded ok)
    (T := clearedDriver.guarded ok) (fun _ _ _ hs => hs) h)

def actionEvent (eqpNum : U32) : Event :=
  .ioctl 0 (.setAction ⟨1, eqpNum, .PTIM, { counter := 1 }, { start := 1 }⟩) fun _ _ => 0

def slotEvent (eqpNum : U32) : Event :=
  .ioctl 0 (.createPtim ⟨eqpNum, 0, 1, 1, 0⟩) fun _ _ => 0

theorem busBit_follows_action : ∃ wa : WorkingArea,
    (wa.moduleContexts 0).clients 0 = clientMask 0 ∧
      (wa.moduleContexts 0).map (mapConfigs 0) &&& busBit ≠ 0 := by
  have hruns : (oneModule.run KeepsPtims [.opens 0, slotEvent 7,
      .ioctl 0 (.connect ⟨1, .PTIM, 7⟩) fun _ _ => 0, actionEvent 7]).any
      (fun wa => (wa.moduleContexts 0).clients 0 = clientMask 0) = true := by
    decide +kernel
  obtain ⟨wa, hrun, hclients⟩ := exists_run hruns
  have hreached := cleared_reachable (run_run hrun)
  have hne : (wa.moduleContexts 0).clients 0 ≠ 0 := by
    rw [hclients]
    decide
  exact ⟨wa, hclients, ((busBit_follows hreached).1 0 0 (by decide)).mpr hne⟩

/-- The slot of a PTIM object with the number 0 becomes one of a CTIM object. -/
theorem busBit_taken : ¬ ∀ wa : WorkingArea,
    (clearedDriver.guarded fun _ e => e.rawWrites = false).Reachable wa →
    (∀ m, ∀ i < CtrDrvrRamTableSIZE,
      (wa.moduleContexts m).map (mapConfigs i) &&& busBit ≠ 0 ↔
        (wa.moduleContexts m).clients i ≠ 0) ∧
    ∀ e wa', e.connecting = true → driver.step wa e wa' →
      ∀ m, ∀ i < CtrDrvrRamTableSIZE, (wa.moduleContexts m).eqpClass i = .PTIM →
        (wa'.moduleContexts m).map (mapConfigs i) &&& ~~~busBit =
          (wa.moduleContexts m).map (mapConfigs i) &&& ~~~busBit := by
  intro h
  let connects : Event := .ioctl 0 (.connect ⟨1, .CTIM, 5⟩) fun _ _ => 0
  have hruns : (oneModule.run (fun _ e => e.rawWrites = false) [.opens 0, slotEvent 0,
      actionEvent 0, .ioctl 0 (.createCtim ⟨5, ⟨0x01050000⟩⟩) fun _ _ => 0]).any
      (fun wa => (wa.moduleContexts 0).eqpClass 0 = .PTIM ∧
        (wa.moduleContexts 0).map (mapConfigs 0) &&& ~~~busBit ≠ 0 ∧ wa.ready connects ∧
        (wa.next connects).any
          (fun wa' => (wa'.moduleContexts 0).map (mapConfigs 0) &&& ~~~busBit = 0) =
            true) = true := by decide +kernel
  obtain ⟨wa, hrun, hptim, hne, hready, hrest⟩ := exists_run hruns
  obtain ⟨wa', hnext, hzero⟩ := (Option.any_eq_true _ _).mp hrest
  have hreached := cleared_reachable (run_run hrun)
  have hsame := (h wa hreached).2 connects wa' rfl ⟨hready, hnext⟩ 0 0 (by decide) hptim
  exact hne (hsame.symm.trans (of_decide_eq_true hzero))

end Coht.Ctr
