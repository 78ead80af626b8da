import Coht.Timlib.Ioctls

/-!
# Connecting with the library (`libctr_common.c`)

`ctr_connect()` connects on the module that the handle has selected.
`ctr_connect_payload()` connects to a CTIM and then changes the frame of the
trigger: it scans the table for the first slot of class CTIM the trigger of which
names the CTIM. All clients of a CTIM on a module share the slot.
-/

namespace Coht.Timlib

open Coht.Lib Coht.Ctr Calls

/-- `ctr_get_module()` -/
def ctrGetModule (c : Nat) : Libctr Nat := inquiry c fun wa => .ok (wa.selected c + 1)

/-- `ctr_connect()` -/
def ctrConnect (c : Nat) (eqpClass : CtrDrvrConnectionClass) (equip : U32) :
    Libctr Unit := do
  let mod ← ctrGetModule c
  command noMemory c (.connect { module := mod, eqpClass := eqpClass, eqpNum := equip })

/-- The header and the code of the frame, with the payload. -/
def withPayload (frame : CtrDrvrEventFrame) (payload : U32) : CtrDrvrEventFrame :=
  ⟨(frame.long &&& 0xFFFF0000) ||| (payload &&& 0x0000FFFF)⟩

/-- The action with another frame. -/
def reframe (frame : CtrDrvrEventFrame) (act : CtrDrvrAction) : CtrDrvrAction :=
  { act with trigger := { act.trigger with frame := frame } }

/-- The scan over the trigger numbers: whether the frame has been set. -/
def scanTriggers (c : Nat) (ctim : U32) (frame : CtrDrvrEventFrame) :
    List Nat → Libctr Bool
  | [] => pure false
  | j :: js => do
      let act ← inquiry c fun wa => (current c wa).getAction j
      if act.eqpClass = .CTIM ∧ act.trigger.ctim = ctim then do
        command noMemory c (.setAction (reframe frame act))
        pure true
      else scanTriggers c ctim frame js

/-- The loop over the CTIM objects. -/
def connectObjects (c : Nat) (ctim payload : U32) : List CtrDrvrCtimBinding → Libctr Unit
  | [] => throw .ENODEV
  | obj :: objs =>
    if obj.eqpNum = ctim then do
      ctrConnect c .CTIM ctim
      if ← scanTriggers c ctim (withPayload obj.frame payload)
          (List.range' 1 CtrDrvrRamTableSIZE) then pure ()
      else connectObjects c ctim payload objs
    else connectObjects c ctim payload objs

/-- `ctr_connect_payload()` -/
def ctrConnectPayload (c : Nat) (ctim payload : U32) : Libctr Unit := do
  let _ ← ctrGetModule c
  let ctimo ← inquiry c fun wa => .ok wa.ctim
  connectObjects c ctim payload ctimo

/-- The slot is of class CTIM and its trigger names the CTIM. -/
def Names (mcon : ModuleContext) (ctim : U32) (i : Nat) : Prop :=
  mcon.eqpClass i = .CTIM ∧ (mcon.trigs i).ctim = ctim

instance (mcon : ModuleContext) (ctim : U32) (i : Nat) : Decidable (Names mcon ctim i) :=
  inferInstanceAs (Decidable (_ ∧ _))

def scanFor (mcon : ModuleContext) (ctim : U32) : Option Nat :=
  (List.range CtrDrvrRamTableSIZE).find? (Names mcon ctim)

section

variable {wa wa' : WorkingArea} {c m : Nat} {ctim payload equip : U32}
  {frame : CtrDrvrEventFrame}

theorem ctrGetModule_ok : ctrGetModule c wa = .ok m wa' ↔
    Usable wa c ∧ m = wa.selected c + 1 ∧ wa' = wa := by
  unfold ctrGetModule
  rw [inquiry_ok]
  constructor
  · intro ⟨⟨huse, hm⟩, hwa⟩
    exact ⟨huse, (Except.ok.inj hm).symm, hwa⟩
  · intro ⟨huse, hm, hwa⟩
    exact ⟨⟨huse, congrArg _ hm.symm⟩, hwa⟩

theorem connectModule_selected {eqpClass : CtrDrvrConnectionClass} :
    connectModule wa { module := wa.selected c + 1, eqpClass := eqpClass, eqpNum := equip } c =
      wa.selected c := by
  unfold connectModule
  split
  · exact Nat.add_sub_cancel ..
  · rfl

theorem ctrConnect_ok {eqpClass : CtrDrvrConnectionClass} :
    ctrConnect c eqpClass equip wa = .ok () wa' ↔
      (Usable wa c ∧ (current c wa).upLock = false) ∧ ∃ m mcon,
        connect wa { module := wa.selected c + 1, eqpClass := eqpClass, eqpNum := equip } c =
          .ok (m, mcon) ∧ (wa.moduleContexts m).inUse = true ∧ wa' = wa.setModule m mcon := by
  have hcommand : ∀ conx, command noMemory c (.connect conx) wa = .ok () wa' ↔
      (Usable wa c ∧ (current c wa).upLock = false) ∧ ∃ m mcon,
        connect wa conx c = .ok (m, mcon) ∧ (wa.moduleContexts m).inUse = true ∧
          wa' = wa.setModule m mcon := by
    intro conx
    rw [command_ok, admits_iff]
    refine and_congr ⟨fun h => ⟨h.1, h.2 rfl⟩, fun h => ⟨h.1, fun _ => h.2⟩⟩ ?_
    unfold WorkingArea.command
    dsimp only
    constructor
    · intro h
      split at h
      · cases h
      next m mcon hconnect =>
      split at h
      · next hin =>
        cases h
        exact ⟨m, mcon, hconnect, hin, rfl⟩
      · cases h
    · intro ⟨m, mcon, hconnect, hin, hwa⟩
      rw [hconnect]
      dsimp only
      rw [if_pos hin, hwa]
  unfold ctrConnect
  constructor
  · intro h
    obtain ⟨m, wa₁, hget, h₁⟩ := bind_ok.mp h
    obtain ⟨-, rfl, rfl⟩ := ctrGetModule_ok.mp hget
    exact (hcommand _).mp h₁
  · intro h
    exact bind_ok.mpr ⟨_, wa, ctrGetModule_ok.mpr ⟨h.1.1, rfl, rfl⟩, (hcommand _).mpr h⟩

theorem ctrConnect_ctim (h : ctrConnect c .CTIM ctim wa = .ok () wa') : Usable wa c ∧
    ∃ mcon, (current c wa).connectCtim wa.ctim ctim c = .ok mcon ∧
      wa' = edit c (fun _ => mcon) wa := by
  obtain ⟨⟨huse, -⟩, m, mcon, hconnect, -, hwa⟩ := ctrConnect_ok.mp h
  cases connect_ok hconnect with
  | ptim hclass => cases hclass
  | hard _ hctim => exact absurd rfl hctim
  | ctim _ hconnect =>
    rw [connectModule_selected] at hconnect hwa
    exact ⟨huse, mcon, hconnect, hwa⟩

/-! ## The scan -/

theorem scanTriggers_ok {js : List Nat} {found : Bool} (hjs : ∀ j ∈ js, 0 < j)
    (h : scanTriggers c ctim frame js wa = .ok found wa') :
    match js.find? (fun j => Names (current c wa) ctim (j - 1)) with
    | some j => found = true ∧ ∃ mcon, (current c wa).setAction
        (reframe frame ((current c wa).action (j - 1))) = .ok mcon ∧
          wa' = edit c (fun _ => mcon) wa
    | none => found = false ∧ wa' = wa := by
  induction js with
  | nil => exact pure_ok.mp h
  | cons j js ih =>
    unfold scanTriggers at h
    obtain ⟨act, wa₁, hget, h₁⟩ := bind_ok.mp h
    obtain ⟨⟨-, hact⟩, rfl⟩ := inquiry_ok.mp hget
    obtain ⟨hrange, rfl⟩ := getAction_ok.mp hact
    rw [List.find?_cons]
    by_cases hnames : Names (current c wa₁) ctim (j - 1)
    · replace h₁ := (congrFun (if_pos hnames) wa₁).symm.trans h₁
      obtain ⟨_, wa₂, hset, h₂⟩ := bind_ok.mp h₁
      obtain ⟨-, mcon, hmcon, rfl⟩ := setAction_command.mp hset
      obtain ⟨hfound, rfl⟩ := pure_ok.mp h₂
      simp only [hnames, decide_true]
      exact ⟨hfound, mcon, hmcon, rfl⟩
    · replace h₁ := (congrFun (if_neg hnames) wa₁).symm.trans h₁
      simp only [hnames, decide_false]
      exact ih (fun j hj => hjs j (List.mem_cons_of_mem _ hj)) h₁

theorem find_number (mcon : ModuleContext) (n : Nat) :
    (List.range' 1 n).find? (fun j => Names mcon ctim (j - 1)) =
      ((List.range n).find? (Names mcon ctim)).map (· + 1) := by
  rw [List.range'_eq_map_range, List.find?_map]
  have hpred : (fun j => decide (Names mcon ctim (j - 1))) ∘ (1 + ·) =
      fun i => decide (Names mcon ctim i) := by
    funext i
    show decide (Names mcon ctim (1 + i - 1)) = _
    rw [Nat.add_sub_cancel_left]
  rw [hpred]
  exact congrArg (Option.map · _) (funext fun i => Nat.add_comm ..)

theorem scan_ok {found : Bool} (h : scanTriggers c ctim frame
    (List.range' 1 CtrDrvrRamTableSIZE) wa = .ok found wa') :
    (found = true ∧ ∃ i mcon, scanFor (current c wa) ctim = some i ∧
      (current c wa).setAction (reframe frame ((current c wa).action i)) = .ok mcon ∧
      wa' = edit c (fun _ => mcon) wa) ∨
    (found = false ∧ scanFor (current c wa) ctim = none ∧ wa' = wa) := by
  have hscan := scanTriggers_ok (fun j hj => (List.mem_range'_1.mp hj).1) h
  rw [find_number, ← scanFor] at hscan
  cases hfor : scanFor (current c wa) ctim with
  | some i =>
    rw [hfor] at hscan
    obtain ⟨hfound, mcon, hset, hwa⟩ := hscan
    exact .inl ⟨hfound, i, mcon, rfl, hset, hwa⟩
  | none =>
    rw [hfor] at hscan
    exact .inr ⟨hscan.1, rfl, hscan.2⟩

/-! ## The loop over the objects -/

theorem connectObjects_stuck {objs : List CtrDrvrCtimBinding}
    (hslot : (current c wa).matching ctim .CTIM ≠ [])
    (hnone : scanFor (current c wa) ctim = none) :
    connectObjects c ctim payload objs wa ≠ .ok () wa' := by
  induction objs generalizing wa with
  | nil => exact not_throw_ok
  | cons obj objs ih =>
    intro h
    unfold connectObjects at h
    split at h
    · obtain ⟨_, wa₁, hconnect, h₁⟩ := bind_ok.mp h
      obtain ⟨-, mcon, hmcon, rfl⟩ := ctrConnect_ctim hconnect
      obtain ⟨found, wa₂, hscan, h₂⟩ := bind_ok.mp h₁
      have hsame : mcon.matching ctim .CTIM = (current c wa).matching ctim .CTIM ∧
          scanFor mcon ctim = scanFor (current c wa) ctim := by
        rcases connectCtim_ok hmcon with ⟨i, -, rfl⟩ | ⟨hempty, -⟩
        · exact ⟨rfl, rfl⟩
        · exact absurd hempty hslot
      rcases scan_ok hscan with ⟨-, i, mcon', hfor, -⟩ | ⟨rfl, -, rfl⟩
      · rw [edit_current, hsame.2, hnone] at hfor
        cases hfor
      · refine ih ?_ ?_ h₂
        · rw [edit_current, hsame.1]
          exact hslot
        · rw [edit_current, hsame.2]
          exact hnone
    · exact ih hslot hnone h

theorem connectCtim_matching {ctims : List CtrDrvrCtimBinding} {mcon mcon' : ModuleContext}
    (h : mcon.connectCtim ctims ctim c = .ok mcon') : mcon'.matching ctim .CTIM ≠ [] := by
  obtain ⟨i, hi, hslot⟩ := connectCtim_slot h
  refine List.ne_nil_of_mem (a := i) (mem_matching.mpr ⟨hi, ?_⟩)
  rcases hslot with ⟨hnum, hclass, hchange⟩ | ⟨-, -, hchange⟩
  · have hat := (hchange i).trans (if_pos rfl)
    exact ⟨(congrArg Slot.eqpNum hat).trans hnum, (congrArg Slot.eqpClass hat).trans hclass⟩
  · have hat := (hchange i).trans (if_pos rfl)
    exact ⟨congrArg Slot.eqpNum hat, congrArg Slot.eqpClass hat⟩

theorem connectObjects_ok {objs : List CtrDrvrCtimBinding}
    (h : connectObjects c ctim payload objs wa = .ok () wa') : Usable wa c ∧
    ∃ obj mcon i mcon', lookup (·.eqpNum) ctim objs = some obj ∧
      (current c wa).connectCtim wa.ctim ctim c = .ok mcon ∧
      scanFor mcon ctim = some i ∧
      mcon.setAction (reframe (withPayload obj.frame payload) (mcon.action i)) = .ok mcon' ∧
      wa' = edit c (fun _ => mcon') wa := by
  induction objs with
  | nil => exact absurd h not_throw_ok
  | cons obj objs ih =>
    unfold connectObjects at h
    unfold lookup
    rw [List.find?_cons]
    split at h
    · next hnum =>
      obtain ⟨_, wa₁, hconnect, h₁⟩ := bind_ok.mp h
      obtain ⟨huse, mcon, hmcon, rfl⟩ := ctrConnect_ctim hconnect
      obtain ⟨found, wa₂, hscan, h₂⟩ := bind_ok.mp h₁
      rcases scan_ok hscan with ⟨rfl, i, mcon', hfor, hset, rfl⟩ | ⟨rfl, hnone, rfl⟩
      · obtain ⟨-, rfl⟩ := pure_ok.mp h₂
        rw [edit_current] at hfor hset
        simp only [hnum, decide_true]
        exact ⟨huse, obj, mcon, i, mcon', rfl, hmcon, hfor, hset, edit_edit⟩
      · refine absurd h₂ (connectObjects_stuck ?_ hnone)
        rw [edit_current]
        exact connectCtim_matching hmcon
    · next hnum =>
      simp only [hnum, decide_false]
      exact ih h

end

end Coht.Timlib
