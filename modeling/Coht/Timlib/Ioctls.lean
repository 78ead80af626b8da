import Coht.Timlib.Libctr

/-!
# What the calls of the library do

For each `ioctl()` of the library, and each part of `ctr_set_ccv()`, when it
succeeds and what it leaves. A call that fails leaves everything as it was.
-/

namespace Coht.Timlib

open Coht.Lib Coht.Ctr Calls

/-- The handle is open and the module it has selected is installed. -/
structure Usable (wa : WorkingArea) (c : Nat) : Prop where
  client : c < CtrDrvrCLIENT_CONTEXTS
  open_ : (wa.clientContexts c).inUse = true
  installed : (current c wa).inUse = true

instance (wa : WorkingArea) (c : Nat) : Decidable (Usable wa c) :=
  decidable_of_iff (c < CtrDrvrCLIENT_CONTEXTS ∧ (wa.clientContexts c).inUse = true ∧
    (current c wa).inUse = true)
    ⟨fun h => ⟨h.1, h.2.1, h.2.2⟩, fun h => ⟨h.client, h.open_, h.installed⟩⟩

def select (c m : Nat) (wa : WorkingArea) : WorkingArea :=
  wa.setClient c { wa.clientContexts c with moduleIndex := m }

def edit (c : Nat) (f : ModuleContext → ModuleContext) (wa : WorkingArea) : WorkingArea :=
  wa.setModule (wa.selected c) (f (current c wa))

/-- An LTIM and one of its actions that `ctr_set_ccv()` and `ctr_get_ccv()` come to. -/
structure Finds (wa : WorkingArea) (c : Nat) (ltim : U32) (index : Int)
    (ob : CtrDrvrPtimBinding) : Prop where
  usable : Usable wa c
  binding : lookup (·.eqpNum) ltim wa.ptim = some ob
  module : ob.moduleIndex < wa.modules
  installed : (wa.moduleContexts ob.moduleIndex).inUse = true
  size : index < ob.size
  number : 0 < actionNumber ob index ∧ actionNumber ob index ≤ CtrDrvrRamTableSIZE

/-- The slot of the action. -/
def slotOf (ob : CtrDrvrPtimBinding) (index : Int) : Nat := actionNumber ob index - 1

def maskEdited (counter : Nat) (change : CtrDrvrCounterMaskBuf → CtrDrvrCounterMaskBuf)
    (mcon : ModuleContext) : ModuleContext :=
  let cmsb := change (mcon.outMask counter)
  mcon.hWr (outWord (givenMask counter cmsb.mask)
    (decide (cmsb.polarity = CtrDrvrPolarityTTL_BAR))) (mapRemOutMask counter)

section

variable {wa wa' : WorkingArea} {c : Nat} {behind : Nat → Behind} {cmd : Ioctl} {e : Failure}

theorem select_selected {m : Nat} : (select c m wa).selected c = m := by
  simp [select, WorkingArea.selected, WorkingArea.setClient]

theorem select_current {m : Nat} : current c (select c m wa) = wa.moduleContexts m := by
  unfold current
  rw [select_selected]
  rfl

theorem edit_current {f : ModuleContext → ModuleContext} :
    current c (edit c f wa) = f (current c wa) :=
  Function.update_self ..

theorem edit_edit {f g : ModuleContext → ModuleContext} :
    edit c g (edit c f wa) = edit c (g ∘ f) wa := by
  unfold edit WorkingArea.setModule current WorkingArea.selected
  dsimp only
  rw [Function.update_self, Function.update_idem]
  rfl

theorem admits_iff : Admits wa c cmd ↔ Usable wa c ∧
    (cmd.testsLock = true → (current c wa).upLock = false) := by
  constructor
  · intro h
    exact ⟨⟨h.client, h.open_, h.installed⟩, h.lock⟩
  · intro ⟨h, hlock⟩
    exact ⟨h.client, h.open_, h.installed, hlock⟩

theorem ioctl_of_admits (h : Admits wa c cmd) :
    wa.ioctl behind c cmd = wa.command behind c cmd := by
  have hlock : ¬ ((wa.moduleContexts (wa.clientContexts c).moduleIndex).upLock = true ∧
      cmd.testsLock = true) := by
    intro ⟨hlocked, htests⟩
    rw [h.lock htests] at hlocked
    cases hlocked
  unfold WorkingArea.ioctl
  dsimp only
  rw [if_neg (Nat.not_le.mpr h.client), if_neg (by rw [h.open_]; decide),
    if_neg (by rw [h.installed]; decide), if_neg hlock]

/-! ## Calls -/

theorem command_ok : command behind c cmd wa = .ok () wa' ↔
    Admits wa c cmd ∧ wa.command behind c cmd = .returns wa' := by
  unfold command
  constructor
  · intro h
    split at h
    · next wa₁ hret =>
      cases h
      exact ioctl_admits hret
    · cases h
    · cases h
  · intro ⟨hadm, hret⟩
    rw [ioctl_of_admits hadm, hret]

theorem command_error (h : command behind c cmd wa = .error e wa') : wa' = wa := by
  unfold command at h
  split at h
  · cases h
  · cases h
    rfl
  · cases h
    rfl

theorem inquire_ok {α : Type} {read : WorkingArea → Except Errno α} {a : α} :
    wa.inquire c read = .ok a ↔ Usable wa c ∧ read wa = .ok a := by
  unfold WorkingArea.inquire
  dsimp only
  constructor
  · intro h
    split at h
    · cases h
    next hclient =>
    split at h
    · cases h
    next hopen =>
    split at h
    · cases h
    next hin =>
    exact ⟨⟨Nat.lt_of_not_le hclient, Bool.eq_true_of_not_eq_false hopen,
      Bool.eq_true_of_not_eq_false hin⟩, h⟩
  · intro ⟨huse, h⟩
    have hin : ¬ (wa.moduleContexts (wa.clientContexts c).moduleIndex).inUse = false := by
      have := huse.installed
      unfold current WorkingArea.selected at this
      rw [this]
      decide
    rw [if_neg (Nat.not_le.mpr huse.client), if_neg (by rw [huse.open_]; decide), if_neg hin]
    exact h

theorem inquiry_ok {α : Type} {read : WorkingArea → Except Errno α} {a : α} :
    inquiry c read wa = .ok a wa' ↔ (Usable wa c ∧ read wa = .ok a) ∧ wa' = wa := by
  rw [← inquire_ok]
  unfold inquiry
  split
  · next hread =>
    rw [hread]
    constructor
    · intro h
      cases h
      exact ⟨rfl, rfl⟩
    · intro ⟨h, hwa⟩
      cases h
      rw [hwa]
  · next hread =>
    rw [hread]
    constructor
    · intro h
      cases h
    · intro ⟨h, _⟩
      cases h

theorem inquiry_error {α : Type} {read : WorkingArea → Except Errno α}
    (h : inquiry c read wa = .error e wa') : wa' = wa := by
  unfold inquiry at h
  split at h
  · cases h
  · cases h
    rfl

theorem setModule_ok {m : Nat} :
    command behind c (.setModule (m + 1)) wa = .ok () wa' ↔
      Usable wa c ∧ m < wa.modules ∧ wa' = select c m wa := by
  rw [command_ok, admits_iff]
  show (Usable wa c ∧ (false = true → _)) ∧ (if _ then _ else _) = _ ↔ _
  have hto : ((m : Int) + 1).toNat - 1 = m := by omega
  rw [hto]
  constructor
  · intro ⟨⟨huse, _⟩, h⟩
    split at h
    · next hrange =>
      refine ⟨huse, by omega, ?_⟩
      cases h
      rfl
    · cases h
  · intro ⟨huse, hlt, hwa⟩
    rw [if_pos (by omega), hwa]
    exact ⟨⟨huse, fun h => by cases h⟩, rfl⟩

theorem onModule_iff {midx : Nat} {result : Except Errno ModuleContext} :
    wa.onModule midx result = .returns wa' ↔
      ∃ mcon, result = .ok mcon ∧ wa' = wa.setModule midx mcon := by
  unfold WorkingArea.onModule
  cases result with
  | error err =>
    constructor
    · intro h
      cases h
    · intro ⟨mcon, h, _⟩
      cases h
  | ok mcon =>
    constructor
    · intro h
      cases h
      exact ⟨mcon, rfl, rfl⟩
    · intro ⟨mcon', h, hwa⟩
      cases h
      rw [hwa]
      rfl

theorem setAction_command {act : CtrDrvrAction} :
    command behind c (.setAction act) wa = .ok () wa' ↔
      (Usable wa c ∧ (current c wa).upLock = false) ∧
        ∃ mcon, (current c wa).setAction act = .ok mcon ∧
          wa' = wa.setModule (wa.selected c) mcon := by
  rw [command_ok, admits_iff, ← onModule_iff]
  show (_ ∧ (true = true → _)) ∧ _ ↔ _
  simp only [true_implies]
  rfl

theorem setOutMask_command {counter : Nat} {mask : U32} {ttlBar : Bool} :
    command behind c (.control (.setOutMask counter mask ttlBar)) wa = .ok () wa' ↔
      (Usable wa c ∧ (current c wa).upLock = false) ∧ (1 ≤ counter ∧ counter ≤ 8) ∧
        wa' = edit c (fun mcon => mcon.hWr (outWord (givenMask counter mask) ttlBar)
          (mapRemOutMask counter)) wa := by
  have honModule : wa.command behind c (.control (.setOutMask counter mask ttlBar)) =
      wa.onModule (wa.selected c) ((current c wa).setOutMask counter mask ttlBar) := rfl
  rw [command_ok, admits_iff, honModule, onModule_iff]
  show (_ ∧ (true = true → _)) ∧ _ ↔ _
  simp only [true_implies]
  refine and_congr_right fun _ => ⟨?_, ?_⟩
  · intro ⟨mcon, hset, hwa⟩
    obtain ⟨hcounter, hmcon⟩ := setOutMask_ok.mp hset
    rw [hmcon] at hwa
    exact ⟨hcounter, hwa⟩
  · intro ⟨hcounter, hwa⟩
    exact ⟨_, setOutMask_ok.mpr ⟨hcounter, rfl⟩, hwa⟩

/-! ## Parts of `ctr_set_ccv()` -/

theorem checkIndex_ok {ob : CtrDrvrPtimBinding} {index : Int} :
    checkIndex ob index wa = .ok () wa' ↔ index < ob.size ∧ wa' = wa := by
  unfold checkIndex
  split
  · next hge =>
    constructor
    · intro h
      exact absurd h not_throw_ok
    · intro ⟨hlt, _⟩
      omega
  · next hlt =>
    rw [pure_ok]
    exact ⟨fun h => ⟨Int.lt_of_not_ge hlt, h.2⟩, fun h => ⟨rfl, h.2⟩⟩

theorem checkIndex_error {ob : CtrDrvrPtimBinding} {index : Int}
    (h : checkIndex ob index wa = .error e wa') : wa' = wa := by
  unfold checkIndex at h
  split at h
  · exact (throw_error.mp h).2
  · exact absurd h not_pure_error

theorem getPtimBinding_ok {ltim : U32} {ob : CtrDrvrPtimBinding} :
    wa.getPtimBinding ltim = .ok ob ↔ lookup (·.eqpNum) ltim wa.ptim = some ob := by
  unfold WorkingArea.getPtimBinding
  split
  · next hlookup =>
    rw [hlookup]
    simp
  · next hlookup =>
    rw [hlookup]
    simp

theorem getAction_ok {mcon : ModuleContext} {n : Nat} {act : CtrDrvrAction} :
    mcon.getAction n = .ok act ↔
      (0 < n ∧ n ≤ CtrDrvrRamTableSIZE) ∧ act = mcon.action (n - 1) := by
  unfold ModuleContext.getAction
  split
  · next hrange => simp [hrange, eq_comm]
  · next hrange => simp [hrange]

theorem getOutMask_ok {mcon : ModuleContext} {counter : Nat} {cmsb : CtrDrvrCounterMaskBuf} :
    mcon.getOutMask counter = .ok cmsb ↔
      (1 ≤ counter ∧ counter ≤ 8) ∧ cmsb = mcon.outMask counter := by
  unfold ModuleContext.getOutMask
  split
  · next hrange => simp [hrange, eq_comm]
  · next hrange => simp [hrange]

theorem select_usable {m : Nat} (h : Usable wa c)
    (hin : (wa.moduleContexts m).inUse = true) : Usable (select c m wa) c := by
  refine ⟨h.client, ?_, ?_⟩
  · simp [select, WorkingArea.setClient, h.open_]
  · rw [select_current]
    exact hin

theorem findAction_ok {ltim : U32} {index : Int} {ob : CtrDrvrPtimBinding}
    {act : CtrDrvrAction} : findAction c ltim index wa = .ok (ob, act) wa' ↔
      Finds wa c ltim index ob ∧ wa' = select c ob.moduleIndex wa ∧
        act = (wa.moduleContexts ob.moduleIndex).action (slotOf ob index) := by
  unfold findAction
  constructor
  · intro h
    obtain ⟨ob₁, wa₁, hbinding, h₁⟩ := bind_ok.mp h
    obtain ⟨⟨huse, hlookup⟩, hwa₁⟩ := inquiry_ok.mp hbinding
    subst hwa₁
    obtain ⟨_, wa₂, hmodule, h₂⟩ := bind_ok.mp h₁
    obtain ⟨-, hlt, rfl⟩ := setModule_ok.mp hmodule
    obtain ⟨_, wa₃, hindex, h₃⟩ := bind_ok.mp h₂
    obtain ⟨hsize, rfl⟩ := checkIndex_ok.mp hindex
    obtain ⟨act₁, wa₄, hget, h₄⟩ := bind_ok.mp h₃
    obtain ⟨⟨huse', hact⟩, rfl⟩ := inquiry_ok.mp hget
    rw [select_current, getAction_ok] at hact
    obtain ⟨hpair, rfl⟩ := pure_ok.mp h₄
    cases hpair
    have hin := huse'.installed
    rw [select_current] at hin
    exact ⟨⟨huse, getPtimBinding_ok.mp hlookup, hlt, hin, hsize, hact.1⟩, rfl, hact.2⟩
  · intro ⟨h, hwa, hact⟩
    refine bind_ok.mpr ⟨ob, wa, inquiry_ok.mpr
      ⟨⟨h.usable, getPtimBinding_ok.mpr h.binding⟩, rfl⟩, ?_⟩
    refine bind_ok.mpr ⟨(), _, setModule_ok.mpr ⟨h.usable, h.module, rfl⟩, ?_⟩
    refine bind_ok.mpr ⟨(), _, checkIndex_ok.mpr ⟨h.size, rfl⟩, ?_⟩
    refine bind_ok.mpr ⟨act, _, inquiry_ok.mpr
      ⟨⟨select_usable h.usable h.installed, ?_⟩, rfl⟩, ?_⟩
    · rw [select_current, getAction_ok]
      exact ⟨h.number, hact⟩
    · exact pure_ok.mpr ⟨rfl, hwa⟩

theorem findAction_error {ltim : U32} {index : Int}
    (h : findAction c ltim index wa = .error e wa') : wa' = wa ∨
      ∃ ob, lookup (·.eqpNum) ltim wa.ptim = some ob ∧ Usable wa c ∧
        ob.moduleIndex < wa.modules ∧ wa' = select c ob.moduleIndex wa := by
  unfold findAction at h
  rcases bind_error.mp h with hbinding | ⟨ob, wa₁, hbinding, h₁⟩
  · exact .inl (inquiry_error hbinding)
  obtain ⟨⟨huse, hlookup⟩, hwa₁⟩ := inquiry_ok.mp hbinding
  subst hwa₁
  rcases bind_error.mp h₁ with hmodule | ⟨_, wa₂, hmodule, h₂⟩
  · exact .inl (command_error hmodule)
  obtain ⟨-, hlt, rfl⟩ := setModule_ok.mp hmodule
  refine .inr ⟨ob, getPtimBinding_ok.mp hlookup, huse, hlt, ?_⟩
  rcases bind_error.mp h₂ with hindex | ⟨_, wa₃, hindex, h₃⟩
  · exact checkIndex_error hindex
  obtain ⟨-, rfl⟩ := checkIndex_ok.mp hindex
  rcases bind_error.mp h₃ with hget | ⟨act, wa₄, hget, h₄⟩
  · exact inquiry_error hget
  · exact absurd h₄ not_pure_error

end

end Coht.Timlib
