import Coht.Ctr.SlotSteps

/-!
# When a CTIM object can be changed or destroyed

`DESTROY_CTIM_OBJECT` and `CHANGE_CTIM_FRAME` take an object for used when a
trigger of the selected module names it, whatever the slot of the trigger is
used for. The table keeps the trigger of a CTIM slot that its last client has
left, so an object that has once had a client on a module cannot be destroyed
by anyone who has that module selected; and an object in use on another module
can.

`ctim_iff` says for every reachable state when the two come to the same.
-/

namespace Coht.Ctr

open Coht.Lib

/-- A trigger of an occupied slot of some module names the object. -/
def InUse (wa : WorkingArea) (eqpNum : U32) : Prop :=
  ∃ midx < wa.modules, ∃ i < CtrDrvrRamTableSIZE,
    (wa.moduleContexts midx).eqpNum i ≠ 0 ∧
      ((wa.moduleContexts midx).trigs i).ctim = eqpNum

/-- A trigger of the selected module names the object, in an occupied slot or in
an empty one. -/
def Named (wa : WorkingArea) (c : Nat) (eqpNum : U32) : Prop :=
  ∃ i < CtrDrvrRamTableSIZE,
    ((wa.moduleContexts (wa.selected c)).trigs i).ctim = eqpNum

instance (wa : WorkingArea) (eqpNum : U32) : Decidable (InUse wa eqpNum) :=
  inferInstanceAs (Decidable (∃ midx < wa.modules, ∃ i < CtrDrvrRamTableSIZE, _ ∧ _))

instance (wa : WorkingArea) (c : Nat) (eqpNum : U32) : Decidable (Named wa c eqpNum) :=
  inferInstanceAs (Decidable (∃ i < CtrDrvrRamTableSIZE, _ = _))

/-- The selected module takes commands that test the update lock. -/
def Unlocked (wa : WorkingArea) (c : Nat) : Prop :=
  (wa.moduleContexts (wa.selected c)).inUse = true ∧
    (wa.moduleContexts (wa.selected c)).upLock = false

/-- The command succeeds. -/
def Accepts (wa : WorkingArea) (behind : Nat → Behind) (c : Nat) (cmd : Ioctl) : Prop :=
  ∃ wa', wa.ioctl behind c cmd = .returns wa'

/-- The object can be destroyed and changed exactly when it is not in use, and
then it alone is removed or gets the new frame. -/
structure ChangedWhenUnused (wa : WorkingArea) (behind : Nat → Behind) (c : Nat)
    (ctim : CtrDrvrCtimBinding) : Prop where
  destroys : Accepts wa behind c (.destroyCtim ctim) ↔ ¬ InUse wa ctim.eqpNum
  changes : Accepts wa behind c (.changeCtimFrame ctim) ↔ ¬ InUse wa ctim.eqpNum
  destroyed : ∀ wa', wa.ioctl behind c (.destroyCtim ctim) = .returns wa' →
    ∀ obj, obj ∈ wa'.ctim ↔ obj ∈ wa.ctim ∧ obj.eqpNum ≠ ctim.eqpNum
  changed : ∀ wa', wa.ioctl behind c (.changeCtimFrame ctim) = .returns wa' →
    ∀ obj, obj ∈ wa'.ctim ↔ (obj ∈ wa.ctim ∧ obj.eqpNum ≠ ctim.eqpNum) ∨ obj = ctim

section

variable {wa wa' : WorkingArea} {c : Nat} {behind : Nat → Behind}
  {ctim : CtrDrvrCtimBinding} {cmd : Ioctl}

/-! ## The list of objects -/

def CtimKeyed (wa : WorkingArea) : Prop := Keyed (·.eqpNum) wa.ctim

theorem ctimKeyed_step {e : Event} (h : CtimChange wa.ctim e wa'.ctim)
    (hkeyed : CtimKeyed wa) : CtimKeyed wa' := by
  unfold CtimKeyed at hkeyed ⊢
  generalize wa'.ctim = ctims at h ⊢
  cases h with
  | same => exact hkeyed
  | creates hnew => exact hkeyed.append (lookup_none.mp hnew)
  | destroys hobj => exact hkeyed.swapRemove hobj
  | changes hobj => exact hkeyed.alter hobj fun _ => rfl

theorem ctimKeyed_invariant : driver.Invariant CtimKeyed where
  init h := by
    unfold CtimKeyed
    rw [h.fresh]
    exact List.nodup_nil
  step hkeyed hstep := ctimKeyed_step (change_ctim (next_change hstep.1 hstep.2)) hkeyed

/-! ## The two commands -/

theorem usesCtim_iff {eqpNum : U32} :
    (wa.moduleContexts (wa.selected c)).usesCtim eqpNum = true ↔ Named wa c eqpNum := by
  unfold ModuleContext.usesCtim Named
  simp

theorem ioctl_eq (hc : c < CtrDrvrCLIENT_CONTEXTS)
    (hopen : (wa.clientContexts c).inUse = true) (htests : cmd.testsLock = true) :
    (Unlocked wa c → wa.ioctl behind c cmd = wa.command behind c cmd) ∧
      (¬ Unlocked wa c → ∀ wa', wa.ioctl behind c cmd ≠ .returns wa') := by
  constructor
  · intro ⟨hin, hlock⟩
    unfold WorkingArea.selected at hin hlock
    unfold WorkingArea.ioctl
    rw [if_neg (by omega), if_neg (by rw [hopen]; simp), if_neg (by rw [hin]; simp),
      if_neg (by rw [hlock]; simp)]
  · intro hlocked wa' hreturns
    obtain ⟨hadm, -⟩ := ioctl_admits hreturns
    exact hlocked ⟨hadm.installed, hadm.lock htests⟩

theorem accepts_iff {result : Except Errno WorkingArea} (wanew : WorkingArea)
    (hc : c < CtrDrvrCLIENT_CONTEXTS) (hopen : (wa.clientContexts c).inUse = true)
    (htests : cmd.testsLock = true) (hcommand : wa.command behind c cmd = .of result)
    (hresult : result = if (wa.moduleContexts (wa.selected c)).usesCtim ctim.eqpNum
      then .error .EBUSY else .ok wanew) :
    Accepts wa behind c cmd ↔ Unlocked wa c ∧ ¬ Named wa c ctim.eqpNum := by
  obtain ⟨hunlocked, hlocked⟩ := @ioctl_eq wa c behind cmd hc hopen htests
  rw [← usesCtim_iff]
  constructor
  · intro ⟨wa', hreturns⟩
    have hun : Unlocked wa c :=
      Classical.byContradiction fun hno => hlocked hno wa' hreturns
    refine ⟨hun, fun hused => ?_⟩
    rw [hunlocked hun, hcommand, hresult, if_pos hused] at hreturns
    cases hreturns
  · intro ⟨hun, hfree⟩
    refine ⟨wanew, ?_⟩
    rw [hunlocked hun, hcommand, hresult, if_neg hfree]
    rfl

theorem destroyCtim_accepts (hc : c < CtrDrvrCLIENT_CONTEXTS)
    (hopen : (wa.clientContexts c).inUse = true) {obj : CtrDrvrCtimBinding}
    (hobj : lookup (·.eqpNum) ctim.eqpNum wa.ctim = some obj) :
    Accepts wa behind c (.destroyCtim ctim) ↔
      Unlocked wa c ∧ ¬ Named wa c ctim.eqpNum := by
  refine accepts_iff { wa with
    ctim := swapRemove (·.eqpNum) ctim.eqpNum wa.ctim } hc hopen rfl rfl ?_
  unfold destroyCtim
  rw [hobj]
  rfl

theorem changeCtimFrame_accepts (hc : c < CtrDrvrCLIENT_CONTEXTS)
    (hopen : (wa.clientContexts c).inUse = true) {obj : CtrDrvrCtimBinding}
    (hobj : lookup (·.eqpNum) ctim.eqpNum wa.ctim = some obj) :
    Accepts wa behind c (.changeCtimFrame ctim) ↔
      Unlocked wa c ∧ ¬ Named wa c ctim.eqpNum := by
  refine accepts_iff { wa with
    ctim := alter (·.eqpNum) ctim.eqpNum (fun obj => { obj with frame := ctim.frame })
      wa.ctim } hc hopen rfl rfl ?_
  unfold changeCtimFrame
  rw [hobj]
  rfl

theorem destroyCtim_removes (hkeyed : CtimKeyed wa)
    (h : wa.ioctl behind c (.destroyCtim ctim) = .returns wa') (obj : CtrDrvrCtimBinding) :
    obj ∈ wa'.ctim ↔ obj ∈ wa.ctim ∧ obj.eqpNum ≠ ctim.eqpNum := by
  obtain ⟨-, hcommand⟩ := ioctl_admits h
  obtain ⟨⟨found, hfound⟩, heq⟩ := destroyCtim_ok (of_returns hcommand)
  rw [heq]
  exact Keyed.mem_swapRemove hkeyed hfound

theorem changeCtimFrame_reframes (hkeyed : CtimKeyed wa)
    (h : wa.ioctl behind c (.changeCtimFrame ctim) = .returns wa')
    (obj : CtrDrvrCtimBinding) : obj ∈ wa'.ctim ↔
      (obj ∈ wa.ctim ∧ obj.eqpNum ≠ ctim.eqpNum) ∨ obj = ctim := by
  obtain ⟨-, hcommand⟩ := ioctl_admits h
  obtain ⟨⟨found, hfound⟩, heq⟩ := changeCtimFrame_ok (of_returns hcommand)
  have hnew : ({ found with frame := ctim.frame } : CtrDrvrCtimBinding) = ctim := by
    have hkey : found.eqpNum = ctim.eqpNum := (lookup_mem hfound).2
    rw [hkey]
  rw [heq]
  show obj ∈ alter _ _ _ wa.ctim ↔ _
  rw [Keyed.mem_alter hkeyed hfound, hnew]

end

def ctimEvents : List Event :=
  [.opens 0, .ioctl 0 (.createCtim ⟨5, ⟨0x01050000⟩⟩) fun _ _ => 0,
    .ioctl 0 (.connect ⟨1, .CTIM, 5⟩) fun _ _ => 0,
    .ioctl 0 (.disconnect ⟨1, .CTIM, 5⟩) fun _ _ => 0]

end Coht.Ctr
