import Coht.Ctr.SlotSteps

/-!
# The PTIM objects and the trigger tables

The list of PTIM objects and the tables of the modules say the same thing
twice: which slots of which module an object has. They agree as long as no
object is made that has no slots or the number 0, which marks an empty slot,
and no action takes an empty slot that is of a class for a PTIM object. Such a
slot comes from an object with the number 0 too.
-/

namespace Coht.Ctr

open Coht.Lib

/-- The slot belongs to the PTIM object. -/
def Slot.PtimOf (eqpNum : U32) (s : Slot) : Prop :=
  s.eqpClass = .PTIM ∧ s.eqpNum = eqpNum

/-- Slot `i` of module `m` is in the range of the object. -/
def CtrDrvrPtimBinding.Covers (obj : CtrDrvrPtimBinding) (m i : Nat) : Prop :=
  obj.moduleIndex = m ∧ obj.startIndex ≤ i ∧ i < obj.startIndex + obj.size

/-- The list and the tables agree. -/
structure Consistent (wa : WorkingArea) : Prop where
  slots : ∀ m, ∀ i < CtrDrvrRamTableSIZE, ∀ eqpNum,
    ((wa.moduleContexts m).slot i).PtimOf eqpNum ↔
      ∃ obj ∈ wa.ptim, obj.eqpNum = eqpNum ∧ obj.Covers m i
  sized : ∀ obj ∈ wa.ptim,
    1 ≤ obj.size ∧ obj.startIndex + obj.size ≤ CtrDrvrRamTableSIZE
  disjoint : ∀ obj ∈ wa.ptim, ∀ obj' ∈ wa.ptim, obj ≠ obj' →
    ∀ m i, ¬ (obj.Covers m i ∧ obj'.Covers m i)
  distinct : Keyed (·.eqpNum) wa.ptim

/-- The step makes no PTIM object without slots or with the number 0, and no
action makes a PTIM object of an empty slot. -/
def Proper (wa : WorkingArea) : Event → Prop
  | .ioctl _ (.createPtim ptim) _ => ptim.size ≠ 0 ∧ ptim.eqpNum ≠ 0
  | .ioctl c (.setAction act) _ =>
    let s := (wa.moduleContexts (wa.selected c)).slot (act.triggerNumber - 1)
    s.eqpNum = 0 → s.eqpClass ≠ .HARD → act.eqpClass ≠ .PTIM
  | _ => True

instance (wa : WorkingArea) (e : Event) : Decidable (Proper wa e) :=
  match e with
  | .ioctl _ cmd _ =>
    match cmd with
    | .createPtim _ => inferInstanceAs (Decidable (_ ∧ _))
    | .setAction _ => inferInstanceAs (Decidable (_ → _ → _))
    | .setTimeout _ | .setQueueFlag _ | .getQueueOverflow | .setModule _ | .lock
    | .unlock _ | .getUtc | .connect _ | .disconnect _ | .createCtim _
    | .destroyCtim _ | .changeCtimFrame _ | .destroyPtim _ | .control _ | .inquiry =>
      .isTrue trivial
  | .opens _ | .closes .. | .writes .. | .reads .. | .interrupts .. => .isTrue trivial

def Event.onPtims : Event → Bool
  | .ioctl _ (.createPtim _) _ | .ioctl _ (.destroyPtim _) _ => true
  | _ => false

structure Bound (wa : WorkingArea) : Prop where
  slots : ∀ m, ∀ i < CtrDrvrRamTableSIZE, ∀ eqpNum,
    ((wa.moduleContexts m).slot i).PtimOf eqpNum ↔
      ∃ obj ∈ wa.ptim, obj.eqpNum = eqpNum ∧ obj.Covers m i
  sized : ∀ obj ∈ wa.ptim,
    1 ≤ obj.size ∧ obj.startIndex + obj.size ≤ CtrDrvrRamTableSIZE
  distinct : Keyed (·.eqpNum) wa.ptim
  numbered : ∀ obj ∈ wa.ptim, obj.eqpNum ≠ 0

section

variable {wa wa' : WorkingArea} {e : Event} {m i c : Nat} {s s' : Slot} {eqpNum : U32}

theorem Bound.consistent (h : Bound wa) : Consistent wa where
  slots := h.slots
  sized := h.sized
  disjoint := by
    intro obj hobj obj' hobj' hne m i ⟨hcovers, hcovers'⟩
    have hi : i < CtrDrvrRamTableSIZE :=
      Nat.lt_of_lt_of_le hcovers.2.2 (h.sized obj hobj).2
    have hfirst := (h.slots m i hi obj.eqpNum).mpr ⟨obj, hobj, rfl, hcovers⟩
    have hsecond := (h.slots m i hi obj'.eqpNum).mpr ⟨obj', hobj', rfl, hcovers'⟩
    exact hne (h.distinct.eq hobj hobj' (hfirst.2.symm.trans hsecond.2))
  distinct := h.distinct

theorem Bound.occupied (h : Bound wa) (hi : i < CtrDrvrRamTableSIZE)
    (hslot : ((wa.moduleContexts m).slot i).PtimOf eqpNum) :
    ((wa.moduleContexts m).slot i).eqpNum ≠ 0 := by
  obtain ⟨obj, hobj, hnum, -⟩ := (h.slots m i hi eqpNum).mp hslot
  rw [hslot.2, ← hnum]
  exact h.numbered obj hobj

/-! ## What a step does to a slot of a PTIM object -/

theorem disConnect_ptimOf : (s.disConnect c).PtimOf eqpNum ↔ s.PtimOf eqpNum := by
  have hleft := disConnect_cases s c
  generalize s.disConnect c = s' at hleft ⊢
  cases hleft with
  | same | shared | releases => exact Iff.rfl
  | frees hne hrest hctim =>
    constructor
    · intro hnew
      cases hnew.1
    · intro hold
      cases hctim.symm.trans hold.1

theorem disConnectAs_ptimOf {clss : CtrDrvrConnectionClass} :
    (s.disConnectAs clss c).PtimOf eqpNum ↔ s.PtimOf eqpNum := by
  rcases disConnectAs_eq s clss c with heq | heq
  · rw [heq]
  · rw [heq, disConnect_ptimOf]

theorem slotChange_ptimOf (h : SlotChange wa m i s e s') (hproper : Proper wa e)
    (hs : s = (wa.moduleContexts m).slot i) (hother : e.onPtims = false)
    (hoccupied : ∀ eqpNum, s.PtimOf eqpNum → s.eqpNum ≠ 0) :
    s'.PtimOf eqpNum ↔ s.PtimOf eqpNum := by
  cases h with
  | same | connects | writes => exact Iff.rfl
  | fills hc hempty =>
    constructor
    · intro hnew
      cases hnew.1
    · intro hold
      exact absurd hempty (hoccupied eqpNum hold)
  | disconnects | leaves | closes => exact disConnectAs_ptimOf
  | @acts c act behind hselected hnumber hclass htests =>
    rcases htests with hempty | ⟨hnum, hsame, -⟩
    · -- The slot is empty, so it is none of a PTIM object before or after.
      have hfree : act.eqpClass ≠ .PTIM := by
        refine hproper ?_ ?_
        · rw [hselected, hnumber, Nat.add_sub_cancel, ← hs]
          exact hempty
        · rw [hselected, hnumber, Nat.add_sub_cancel, ← hs]
          exact hclass
      constructor
      · intro hnew
        exact absurd hnew.1 hfree
      · intro hold
        exact absurd hempty (hoccupied eqpNum hold)
    · unfold Slot.PtimOf Slot.act
      dsimp only
      rw [hsame, hnum]
  | claims | clears => cases hother

/-! ## The two ways the list changes -/

theorem createPtim_bound {ptim : CtrDrvrPtimBinding} (h : Bound wa)
    (hcreate : createPtim wa ptim = .ok wa') (hsize : ptim.size ≠ 0)
    (hnum : ptim.eqpNum ≠ 0) : Bound wa' := by
  obtain ⟨hnew, -, -, hfound⟩ := createPtim_ok hcreate
  dsimp only at hfound
  have hspec := ptimSlots_spec (Nat.pos_of_ne_zero hsize) hfound.1 hfound.2.1
  have hslots := @createPtim_slot wa wa' ptim hcreate
  generalize ((wa.moduleContexts ptim.moduleIndex).ptimSlots ptim.size).start = start
    at hfound hspec hslots
  have hptim : wa'.ptim = wa.ptim ++ [{ ptim with startIndex := start }] := by
    rw [hfound.2.2]
  have hmem : ∀ obj, obj ∈ wa'.ptim ↔
      obj ∈ wa.ptim ∨ obj = { ptim with startIndex := start } := by
    intro obj
    rw [hptim, List.mem_append, List.mem_singleton]
  refine ⟨fun m i hi eqpNum => ?_, fun obj hobj => ?_, ?_, fun obj hobj => ?_⟩
  · rw [hslots m i]
    dsimp only
    split
    · next hin =>
      constructor
      · intro hof
        exact ⟨_, (hmem _).mpr (.inr rfl), hof.2, hin⟩
      · intro ⟨obj, hobj, hkey, hcovers⟩
        rcases (hmem obj).mp hobj with hold | heq
        · -- The slot was empty, so no object had it.
          have hslot := (h.slots m i hi eqpNum).mpr ⟨obj, hold, hkey, hcovers⟩
          have hempty := hspec.2 i hin.2.1 hin.2.2
          rw [hin.1] at hempty
          exact absurd hempty (h.occupied hi hslot)
        · subst heq
          exact ⟨rfl, hkey⟩
    · next hout =>
      rw [h.slots m i hi eqpNum]
      constructor
      · intro ⟨obj, hobj, hrest⟩
        exact ⟨obj, (hmem obj).mpr (.inl hobj), hrest⟩
      · intro ⟨obj, hobj, hkey, hcovers⟩
        rcases (hmem obj).mp hobj with hold | heq
        · exact ⟨obj, hold, hkey, hcovers⟩
        · subst heq
          exact absurd hcovers hout
  · rcases (hmem obj).mp hobj with hold | heq
    · exact h.sized obj hold
    · subst heq
      exact ⟨Nat.pos_of_ne_zero hsize, hspec.1⟩
  · rw [hptim]
    exact Keyed.append h.distinct (lookup_none.mp hnew)
  · rcases (hmem obj).mp hobj with hold | heq
    · exact h.numbered obj hold
    · subst heq
      exact hnum

theorem destroyPtim_bound {ptim : CtrDrvrPtimBinding} (h : Bound wa)
    (hdestroy : destroyPtim wa ptim = .ok wa') : Bound wa' := by
  have hslots := @destroyPtim_slot wa wa' ptim hdestroy
  obtain ⟨-, hfound⟩ := destroyPtim_ok hdestroy
  dsimp only at hfound
  obtain ⟨-, hsome, heq⟩ := hfound
  have hptim : wa'.ptim = swapRemove (·.eqpNum) ptim.eqpNum wa.ptim := by
    rw [heq]
  -- There is a slot of the object on the module, so the binding is of this module.
  obtain ⟨j, hj⟩ := List.exists_mem_of_ne_nil _ hsome
  obtain ⟨hjlt, hjnum, hjclass⟩ := mem_matching.mp hj
  obtain ⟨obj, hobj, hkey, hmodule, -⟩ :=
    (h.slots ptim.moduleIndex j hjlt ptim.eqpNum).mp ⟨hjclass, hjnum⟩
  have hlookup := (Keyed.lookup_iff h.distinct).mpr ⟨hobj, hkey⟩
  have hmem : ∀ obj', obj' ∈ wa'.ptim ↔ obj' ∈ wa.ptim ∧ obj'.eqpNum ≠ ptim.eqpNum := by
    intro obj'
    rw [hptim]
    exact Keyed.mem_swapRemove h.distinct hlookup
  refine ⟨fun m i hi eqpNum => ?_, fun obj hobj => h.sized obj ((hmem obj).mp hobj).1,
    ?_, fun obj hobj => h.numbered obj ((hmem obj).mp hobj).1⟩
  · rw [hslots m i]
    split
    · next hin =>
      obtain ⟨-, hnum, hclass⟩ := mem_matching.mp hin.2
      constructor
      · intro hnew
        cases hnew.1
      · intro ⟨obj', hobj', hkey', hcovers⟩
        obtain ⟨hold, hne⟩ := (hmem obj').mp hobj'
        have hslot := (h.slots m i hi eqpNum).mpr ⟨obj', hold, hkey', hcovers⟩
        exact absurd (hkey'.trans (hslot.2.symm.trans hnum)) hne
    · next hout =>
      rw [h.slots m i hi eqpNum]
      constructor
      · intro ⟨obj', hobj', hkey', hcovers⟩
        refine ⟨obj', (hmem obj').mpr ⟨hobj', fun hsame => ?_⟩, hkey', hcovers⟩
        -- A slot of the object would have been cleared.
        have hself := h.distinct.eq hobj' hobj (hsame.trans hkey.symm)
        have hslot := (h.slots m i hi ptim.eqpNum).mpr ⟨obj', hobj', hsame, hcovers⟩
        refine hout ⟨?_, mem_matching.mpr ⟨hi, hslot.2, hslot.1⟩⟩
        rw [← hmodule, ← hself]
        exact hcovers.1
      · intro ⟨obj', hobj', hrest⟩
        exact ⟨obj', ((hmem obj').mp hobj').1, hrest⟩
  · rw [hptim]
    exact Keyed.swapRemove h.distinct hlookup

/-! ## Runs -/

theorem Bound.keep (h : Bound wa) (hptim : wa'.ptim = wa.ptim)
    (hslots : ∀ m, ∀ i < CtrDrvrRamTableSIZE, ∀ eqpNum,
      ((wa'.moduleContexts m).slot i).PtimOf eqpNum ↔
        ((wa.moduleContexts m).slot i).PtimOf eqpNum) : Bound wa' where
  slots m i hi eqpNum := by
    rw [hptim, hslots m i hi eqpNum]
    exact h.slots m i hi eqpNum
  sized := by
    rw [hptim]
    exact h.sized
  distinct := by
    rw [hptim]
    exact h.distinct
  numbered := by
    rw [hptim]
    exact h.numbered

theorem Bound.step (hbound : Bound wa) (h : Change wa e wa') (hproper : Proper wa e)
    (hother : e.onPtims = false) (hptim : wa'.ptim = wa.ptim) : Bound wa' :=
  hbound.keep hptim fun m _ hi _ =>
    slotChange_ptimOf (change_slot h hi m) hproper rfl hother
      fun _ => hbound.occupied hi

theorem change_bound (h : Change wa e wa') (hproper : Proper wa e) (hbound : Bound wa) :
    Bound wa' := by
  cases h with
  | rest hrest =>
    refine hbound.keep hrest.ptim fun m i hi eqpNum => ?_
    rw [hrest.contexts]
  | latches hlatch hone =>
    refine hbound.keep hone.ptim fun m i hi eqpNum => ?_
    rw [hone.slot_same (hlatch.quiet.slot hi)]
  | locks hadm hopens hone =>
    refine hbound.keep hone.ptim fun m i hi eqpNum => ?_
    rw [hone.slot_same rfl]
  | controls hadm hcontrol hone =>
    exact hbound.step (.controls hadm hcontrol hone) hproper rfl hone.ptim
  | connects hadm hconnect hin hone =>
    exact hbound.step (.connects hadm hconnect hin hone) hproper rfl hone.ptim
  | disconnects hadm hne hmodule hlt hone =>
    exact hbound.step (.disconnects hadm hne hmodule hlt hone) hproper rfl hone.ptim
  | leaves hadm hzero hstrays hall =>
    exact hbound.step (.leaves hadm hzero hstrays hall) hproper rfl hall.ptim
  | closes hlt hopen hstrays hall =>
    exact hbound.step (.closes hlt hopen hstrays hall) hproper rfl hall.ptim
  | acts hadm hact hone =>
    exact hbound.step (.acts hadm hact hone) hproper rfl hone.ptim
  | createsCtim hadm hcreate =>
    refine hbound.step (.createsCtim hadm hcreate) hproper rfl ?_
    rw [(createCtim_ok hcreate).2]
  | destroysCtim hadm hdestroy =>
    refine hbound.step (.destroysCtim hadm hdestroy) hproper rfl ?_
    rw [(destroyCtim_ok hdestroy).2]
  | changesCtim hadm hchange =>
    refine hbound.step (.changesCtim hadm hchange) hproper rfl ?_
    rw [(changeCtimFrame_ok hchange).2]
  | createsPtim hadm hcreate =>
    exact createPtim_bound hbound hcreate hproper.1 hproper.2
  | destroysPtim hadm hdestroy hin => exact destroyPtim_bound hbound hdestroy

theorem bound_invariant : (driver.guarded Proper).Invariant Bound where
  init h := by
    rw [h.fresh]
    refine ⟨fun m i hi eqpNum => ?_, ?_, List.nodup_nil, ?_⟩
    · constructor
      · intro hslot
        cases hslot.1
      · intro ⟨obj, hobj, _⟩
        cases hobj
    · intro obj hobj
      cases hobj
    · intro obj hobj
      cases hobj
  step hbound hstep := change_bound (next_change hstep.2.1 hstep.2.2) hstep.1 hbound

/-- In every run of proper steps the list of PTIM objects and the tables of the
modules agree. -/
theorem ptim_consistent (h : (driver.guarded Proper).Reachable wa) : Consistent wa :=
  (bound_invariant.reachable h).consistent

end

def createEvent (eqpNum : U32) (size : Nat) : Event :=
  .ioctl 0 (.createPtim ⟨eqpNum, 0, 1, size, 0⟩) fun _ _ => 0

/-- Of two objects the first one is destroyed. -/
theorem ptim_consistent_two : ∃ wa : WorkingArea,
    wa.ptim = [⟨8, 0, 1, 3, 2⟩] ∧ Consistent wa := by
  have hruns : (oneModule.run Proper [.opens 0, createEvent 7 2, createEvent 8 3,
      .ioctl 0 (.destroyPtim ⟨7, 0, 0, 0, 0⟩) fun _ _ => 0]).any
      (fun wa => wa.ptim = [⟨8, 0, 1, 3, 2⟩]) = true := by decide +kernel
  obtain ⟨wa, hrun, hptim⟩ := exists_run hruns
  exact ⟨wa, hptim, ptim_consistent (.run (.init oneModule_installed) (run_run hrun))⟩

/-- An object of no slots is made where there is an empty one. -/
theorem ptim_sizeless : ¬ ∀ wa : WorkingArea, driver.Reachable wa → Consistent wa := by
  intro h
  have hruns : (oneModule.run (fun _ _ => True) [.opens 0, createEvent 7 0]).any
      (fun wa => wa.ptim = [⟨7, 0, 1, 0, 0⟩]) = true := by decide +kernel
  obtain ⟨wa, hrun, hptim⟩ := exists_run hruns
  have hsized := (h wa (.run (.init oneModule_installed)
    (run_run hrun).of_guarded)).sized ⟨7, 0, 1, 0, 0⟩ (by rw [hptim]; decide)
  exact absurd hsized.1 (by decide)

end Coht.Ctr
