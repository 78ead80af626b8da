import Coht.Timlib.Connecting
import Coht.Ctr.Connections

/-!
# Connecting and disconnecting

`ctr_disconnect()` asks the driver what its process is connected to and gives the
first entry that matches back to `DISCONNECT`, or all entries for the mask 0. The
entry need not be one of this handle, nor one of the module it has selected: the list
is of all handles of the process and of all modules, and an object is in it once.
So what is taken away is on the module that is `listed`.
-/

namespace Coht.Timlib

open Coht.Lib Coht.Ctr Calls

section

variable (pids : Nat → Nat) (behind : Nat → Nat → Behind) (c : Nat)

/-- `ctr_get_client_connections()` of the process. The driver writes past the end of
an array that is too short. -/
def ctrGetClientConnections : Libctr (List CtrDrvrConnection) := do
  let conns ← inquiry c fun wa => .ok (clientConnections wa pids (pids c))
  if CtrDrvrCONNECTIONS < conns.length then throw .undefined
  else pure conns

/-- The loop of `ctr_disconnect()` for the mask 0. -/
def disconnectEach : List CtrDrvrConnection → Libctr Unit
  | [] => pure ()
  | conx :: conns => do
      command (behind conns.length) c (.disconnect conx)
      disconnectEach conns

/-- `ctr_disconnect()` -/
def ctrDisconnect (eqpClass : CtrDrvrConnectionClass) (mask : U32) : Libctr Unit := do
  let ccon ← ctrGetClientConnections pids c
  if mask = 0 then disconnectEach behind c ccon
  else
    match ccon.find? (isFor eqpClass mask) with
    | some conx => command (behind 0) c (.disconnect conx)
    | none => throw .ENOTCONN

end

/-- The states that the driver comes to when no object gets the number 0. -/
abbrev Reached (wa : WorkingArea) : Prop := (driver.guarded fun _ => GivesNumbers).Reachable wa

/-- What `ctr_connect()` asks for. -/
def request (wa : WorkingArea) (c : Nat) (eqpClass : CtrDrvrConnectionClass) (equip : U32) :
    CtrDrvrConnection :=
  { module := wa.selected c + 1, eqpClass := eqpClass, eqpNum := equip }

/-- `ctr_connect()` has made this connection. -/
def Made (wa : WorkingArea) (c : Nat) (eqpClass : CtrDrvrConnectionClass) (equip : U32)
    (m : Nat) (l : Link) : Prop :=
  connectTarget wa (request wa c eqpClass equip) c = some m ∧
    (request wa c eqpClass equip).Names l

section

variable {wa wa' : WorkingArea} {pids : Nat → Nat} {behind : Nat → Nat → Behind}
  {c d m : Nat} {conx : CtrDrvrConnection} {eqpClass : CtrDrvrConnectionClass} {equip : U32}
  {conns : List CtrDrvrConnection} {l : Link} {e : Failure}

theorem command_reached {behind : Nat → Behind} {cmd : Ioctl} (hwa : Reached wa)
    (hgives : GivesNumbers (.ioctl c cmd behind)) (h : command behind c cmd wa = .ok () wa') :
    Reached wa' := by
  have hreturns : wa.ioctl behind c cmd = .returns wa' := by
    unfold command at h
    split at h
    · next wa₁ hret =>
      cases h
      exact hret
    · cases h
    · cases h
  have hnext : wa.next (.ioctl c cmd behind) = some wa' := by
    show (wa.ioctl behind c cmd).after wa = some wa'
    rw [hreturns]
    rfl
  exact .step hwa ⟨hgives, trivial, hnext⟩

theorem Reached.numbered (hwa : Reached wa) : Numbered wa := numbered_invariant.reachable hwa

/-! ## Calls -/

theorem disconnect_links {behind : Nat → Behind} (hwa : Reached wa) (hnum : conx.eqpNum ≠ 0)
    (h : command behind c (.disconnect conx) wa = .ok () wa') : Reached wa' ∧
    ∀ m d l, (wa'.moduleContexts m).Linked d l ↔ (wa.moduleContexts m).Linked d l ∧
      ¬ (d = c ∧ conx.module = m + 1 ∧ conx.Removes l) := by
  have hgives : GivesNumbers (.ioctl c (.disconnect conx) behind) := trivial
  refine ⟨command_reached hwa hgives h, fun m d l => ?_⟩
  obtain ⟨hadm, hcommand⟩ := command_ok.mp h
  rcases command_disconnect hcommand with ⟨hzero, -⟩ | ⟨-, midx, hmodule, -, hone⟩
  · exact absurd hzero hnum
  by_cases hm : m = midx
  · subst hm
    rw [hone.at, disConnect_linked hadm.client (hwa.numbered.slots m) hnum]
    exact and_congr_right fun _ => not_congr (and_congr_right fun _ =>
      ⟨fun hr => ⟨hmodule, hr⟩, fun hr => hr.2⟩)
  · rw [hone.other hm]
    refine ⟨fun hold => ⟨hold, fun hgone => hm ?_⟩, fun hand => hand.1⟩
    have hsame := hmodule.symm.trans hgone.2.1
    omega

theorem disconnectEach_links (hwa : Reached wa) (hconns : ∀ conx ∈ conns, conx.eqpNum ≠ 0)
    (h : disconnectEach behind c conns wa = .ok () wa') : ∀ m d l,
    (wa'.moduleContexts m).Linked d l ↔ (wa.moduleContexts m).Linked d l ∧
      ¬ (d = c ∧ ∃ conx ∈ conns, conx.module = m + 1 ∧ conx.Removes l) := by
  induction conns generalizing wa with
  | nil =>
    intro m d l
    obtain ⟨-, rfl⟩ := pure_ok.mp h
    simp
  | cons conx conns ih =>
    intro m d l
    obtain ⟨_, wa₁, hfirst, h₁⟩ := bind_ok.mp h
    obtain ⟨hwa₁, hlinks⟩ := disconnect_links hwa (hconns conx List.mem_cons_self) hfirst
    rw [ih hwa₁ (fun e he => hconns e (List.mem_cons_of_mem _ he)) h₁ m d l, hlinks m d l,
      List.exists_mem_cons_iff, and_assoc, ← not_or, ← and_or_left]

theorem disconnectEach_others (hwa : Reached wa) (hconns : ∀ conx ∈ conns, conx.eqpNum ≠ 0)
    (h : disconnectEach behind c conns wa = .error e wa') (hd : d ≠ c) :
    (wa'.moduleContexts m).Linked d l ↔ (wa.moduleContexts m).Linked d l := by
  induction conns generalizing wa with
  | nil => exact absurd h not_pure_error
  | cons conx conns ih =>
    rcases bind_error.mp h with hfirst | ⟨_, wa₁, hfirst, h₁⟩
    · rw [command_error hfirst]
    · obtain ⟨hwa₁, hlinks⟩ := disconnect_links hwa (hconns conx List.mem_cons_self) hfirst
      rw [ih hwa₁ (fun e he => hconns e (List.mem_cons_of_mem _ he)) h₁, hlinks m d l]
      exact ⟨fun hand => hand.1, fun hold => ⟨hold, fun hgone => hd hgone.1⟩⟩

theorem ctrGetClientConnections_ok (h : ctrGetClientConnections pids c wa = .ok conns wa') :
    Usable wa c ∧ conns = clientConnections wa pids (pids c) ∧ wa' = wa := by
  unfold ctrGetClientConnections at h
  obtain ⟨ccon, wa₁, hlist, h₁⟩ := bind_ok.mp h
  obtain ⟨⟨huse, hccon⟩, rfl⟩ := inquiry_ok.mp hlist
  cases hccon
  split at h₁
  · exact absurd h₁ not_throw_ok
  · obtain ⟨hconns, hwa⟩ := pure_ok.mp h₁
    exact ⟨huse, hconns, hwa⟩

theorem ctrGetClientConnections_error
    (h : ctrGetClientConnections pids c wa = .error e wa') : wa' = wa := by
  unfold ctrGetClientConnections at h
  rcases bind_error.mp h with hlist | ⟨ccon, wa₁, hlist, h₁⟩
  · exact inquiry_error hlist
  · obtain ⟨-, rfl⟩ := inquiry_ok.mp hlist
    split at h₁
    · exact (throw_error.mp h₁).2
    · exact absurd h₁ not_pure_error

theorem ctrDisconnect_one (hwa : Reached wa) (hequip : equip ≠ 0)
    (h : ctrDisconnect pids behind c eqpClass equip wa = .ok () wa') : Usable wa c ∧
    ∃ j, listed wa pids (pids c) eqpClass equip = some j ∧
      ∀ m d l, (wa'.moduleContexts m).Linked d l ↔ (wa.moduleContexts m).Linked d l ∧
        ¬ (d = c ∧ m = j ∧ (request wa c eqpClass equip).Removes l) := by
  unfold ctrDisconnect at h
  obtain ⟨ccon, wa₁, hlist, h₁⟩ := bind_ok.mp h
  obtain ⟨huse, rfl, rfl⟩ := ctrGetClientConnections_ok hlist
  rw [if_neg hequip, clientConnections_find] at h₁
  refine ⟨huse, ?_⟩
  cases hlisted : listed wa₁ pids (pids c) eqpClass equip with
  | none =>
    rw [hlisted] at h₁
    exact absurd h₁ not_throw_ok
  | some j =>
    rw [hlisted] at h₁
    refine ⟨j, rfl, fun m d l => ?_⟩
    rw [(disconnect_links hwa hequip h₁).2 m d l]
    refine and_congr_right fun _ => not_congr (and_congr_right fun _ => ?_)
    refine and_congr ⟨fun heq => ?_, fun heq => ?_⟩ ?_
    · exact (Nat.add_right_cancel heq).symm
    · rw [heq]
    · cases l with
      | object | source => exact Iff.rfl

theorem ctrDisconnect_all (hwa : Reached wa)
    (h : ctrDisconnect pids behind c eqpClass 0 wa = .ok () wa') : Usable wa c ∧
    ∀ m d l, (wa'.moduleContexts m).Linked d l ↔ (wa.moduleContexts m).Linked d l ∧
      ¬ (d = c ∧ ∃ conx ∈ clientConnections wa pids (pids c),
        conx.module = m + 1 ∧ conx.Removes l) := by
  unfold ctrDisconnect at h
  obtain ⟨ccon, wa₁, hlist, h₁⟩ := bind_ok.mp h
  obtain ⟨huse, rfl, rfl⟩ := ctrGetClientConnections_ok hlist
  rw [if_pos rfl] at h₁
  exact ⟨huse, disconnectEach_links hwa
    (fun conx hconx => (clientConnections_entry hwa.numbered hconx).1) h₁⟩

theorem ctrDisconnect_fails (hwa : Reached wa)
    (h : ctrDisconnect pids behind c eqpClass equip wa = .error e wa') (hd : d ≠ c) :
    (wa'.moduleContexts m).Linked d l ↔ (wa.moduleContexts m).Linked d l := by
  unfold ctrDisconnect at h
  rcases bind_error.mp h with hlist | ⟨ccon, wa₁, hlist, h₁⟩
  · rw [ctrGetClientConnections_error hlist]
  obtain ⟨-, rfl, rfl⟩ := ctrGetClientConnections_ok hlist
  split at h₁
  · exact disconnectEach_others hwa
      (fun conx hconx => (clientConnections_entry hwa.numbered hconx).1) h₁ hd
  · cases hfind : (clientConnections wa₁ pids (pids c)).find? (isFor eqpClass equip) with
    | some conx =>
      rw [hfind] at h₁
      rw [command_error h₁]
    | none =>
      rw [hfind] at h₁
      rw [(throw_error.mp h₁).2]

theorem ctrDisconnect_unchanged (hequip : equip ≠ 0)
    (h : ctrDisconnect pids behind c eqpClass equip wa = .error e wa') : wa' = wa := by
  unfold ctrDisconnect at h
  rcases bind_error.mp h with hlist | ⟨ccon, wa₁, hlist, h₁⟩
  · exact ctrGetClientConnections_error hlist
  obtain ⟨-, rfl, rfl⟩ := ctrGetClientConnections_ok hlist
  rw [if_neg hequip] at h₁
  cases hfind : (clientConnections wa₁ pids (pids c)).find? (isFor eqpClass equip) with
  | some conx =>
    rw [hfind] at h₁
    exact command_error h₁
  | none =>
    rw [hfind] at h₁
    exact (throw_error.mp h₁).2

theorem connect_names {mcon : ModuleContext} (h : connect wa conx c = .ok (m, mcon)) :
    ∃ l, conx.Names l := by
  cases connect_ok h with
  | ptim hclass => exact ⟨.object .PTIM conx.eqpNum, .inr rfl, hclass, rfl⟩
  | ctim hclass => exact ⟨.object .CTIM conx.eqpNum, .inl rfl, hclass, rfl⟩
  | hard hptim hctim hconnect =>
    have hsome : ModuleContext.sourcesOf conx.eqpNum ≠ [] := by
      intro hnone
      unfold ModuleContext.connectHard at hconnect
      dsimp only at hconnect
      rw [if_pos hnone] at hconnect
      cases hconnect
    obtain ⟨s, hs⟩ := List.exists_mem_of_ne_nil _ hsome
    obtain ⟨hlt, hbit⟩ := mem_sourcesOf.mp hs
    exact ⟨.source s, hlt, hctim, hptim, hbit⟩

theorem ctrConnect_reached (hwa : Reached wa)
    (h : ctrConnect c eqpClass equip wa = .ok () wa') : Reached wa' := by
  obtain ⟨m, wa₁, hget, h₁⟩ := bind_ok.mp h
  obtain ⟨-, -, rfl⟩ := ctrGetModule_ok.mp hget
  have hgives : GivesNumbers (.ioctl c (.connect
    { module := m, eqpClass := eqpClass, eqpNum := equip }) noMemory) := trivial
  exact command_reached hwa hgives h₁

theorem ctrConnect_links (hwa : Reached wa) (h : ctrConnect c eqpClass equip wa = .ok () wa') :
    (∃ m l, Made wa c eqpClass equip m l) ∧
    ∀ m d l, (wa'.moduleContexts m).Linked d l ↔
      (wa.moduleContexts m).Linked d l ∨ (d = c ∧ Made wa c eqpClass equip m l) := by
  have hwa' := ctrConnect_reached hwa h
  obtain ⟨⟨huse, -⟩, m, mcon, hconnect, -, hset⟩ := ctrConnect_ok.mp h
  have hone : OneModule wa wa' m mcon := by
    rw [hset]
    exact setModule_oneModule mcon
  obtain ⟨htarget, hlinks⟩ :=
    connect_linked huse.client hwa.numbered hwa'.numbered hconnect hone
  constructor
  · obtain ⟨l, hl⟩ := connect_names hconnect
    exact ⟨m, l, htarget, hl⟩
  · intro m' d l
    rw [hlinks m' d l]
    refine or_congr_right (and_congr_right fun _ => and_congr_left fun _ => ?_)
    exact ⟨fun heq => heq ▸ htarget, fun htarget' => Option.some.inj (htarget'.symm.trans htarget)⟩

theorem ctrConnect_equip (hwa : Reached wa) (h : ctrConnect c eqpClass equip wa = .ok () wa') :
    equip ≠ 0 := by
  obtain ⟨⟨m, l, hmade⟩, hlinks⟩ := ctrConnect_links hwa h
  have hwa' := ctrConnect_reached hwa h
  cases l with
  | object k n =>
    have hlinked := (hlinks m c (.object k n)).mpr (.inr ⟨rfl, hmade⟩)
    obtain ⟨i, hlt, hnum, -, hat⟩ := linked_object.mp hlinked
    have hne := (at_kind (hwa'.numbered.slots m i hlt) hat).1
    rwa [hnum, ← hmade.2.2.2] at hne
  | source s =>
    intro hzero
    subst hzero
    obtain ⟨-, -, -, hbit⟩ := hmade.2
    exact absurd hbit (by simp [request])

/-! ## What it takes -/

theorem listed_kind {j : Nat} (hwa : Reached wa)
    (h : listed wa pids (pids c) eqpClass equip = some j) :
    eqpClass = .CTIM ∨ eqpClass = .PTIM ∨ eqpClass = .HARD := by
  obtain ⟨i, -, hclient⟩ := List.exists_of_findSome?_eq_some h
  split at hclient
  · have hfound := List.find?_some hclient
    have hholds : (wa.moduleContexts j).Holds i eqpClass equip := of_decide_eq_true hfound
    rcases hholds with ⟨k, hk, hat⟩ | ⟨hhard, -⟩
    · obtain ⟨hlt, -, hclass⟩ := mem_matching.mp hk
      rcases (at_kind (hwa.numbered.slots j k hlt) hat).2 with hkind | hkind
      · exact .inl (hclass.symm.trans hkind)
      · exact .inr (.inl (hclass.symm.trans hkind))
    · exact .inr (.inr hhard)
  · cases hclient

theorem removes_iff {wb : WorkingArea} {j : Nat} (hwb : Reached wb)
    (hlisted : listed wb pids (pids c) eqpClass equip = some j)
    (hsources : eqpClass = .HARD → ∀ s, (wb.moduleContexts j).Linked c (.source s) →
      equip.getLsbD s = true) (hl : (wb.moduleContexts j).Linked c l) :
    (request wa c eqpClass equip).Names l ↔ (request wb c eqpClass equip).Removes l := by
  cases l with
  | object k n =>
    obtain ⟨i, hlt, -, hclass, hat⟩ := linked_object.mp hl
    have hkind := (at_kind (hwb.numbered.slots j i hlt) hat).2
    rw [hclass] at hkind
    exact ⟨fun h => h.2, fun h => ⟨hkind, h⟩⟩
  | source s =>
    constructor
    · intro ⟨_, hctim, hptim, _⟩
      rcases listed_kind hwb hlisted with hkind | hkind | hkind
      · exact absurd hkind hctim
      · exact absurd hkind hptim
      · exact hkind
    · intro hhard
      have hclass : eqpClass = .HARD := hhard
      refine ⟨hl.1, ?_, ?_, hsources hclass s hl⟩
      · show eqpClass ≠ .CTIM
        rw [hclass]
        decide
      · show eqpClass ≠ .PTIM
        rw [hclass]
        decide

theorem undone_iff {wb wa₂ : WorkingArea} (hwa : Reached wa)
    (hconnect : ctrConnect c eqpClass equip wa = .ok () wa') (hwb : Reached wb)
    (hlinks : ∀ m l, (wb.moduleContexts m).Linked c l ↔ (wa'.moduleContexts m).Linked c l)
    (hdisconnect : ctrDisconnect pids behind c eqpClass equip wb = .ok () wa₂) :
    (∀ m l, (wa₂.moduleContexts m).Linked c l ↔
      (wa.moduleContexts m).Linked c l ∧ ¬ Made wa c eqpClass equip m l) ↔
    ∃ j, listed wb pids (pids c) eqpClass equip = some j ∧
      connectTarget wa (request wa c eqpClass equip) c = some j ∧
      (eqpClass = .HARD → ∀ s, (wb.moduleContexts j).Linked c (.source s) →
        equip.getLsbD s = true) := by
  have hequip := ctrConnect_equip hwa hconnect
  obtain ⟨⟨m₀, l₀, hmade₀⟩, hmade⟩ := ctrConnect_links hwa hconnect
  obtain ⟨-, j, hlisted, hleft⟩ := ctrDisconnect_one hwb hequip hdisconnect
  have hhas : ∀ m l, (wb.moduleContexts m).Linked c l ↔
      (wa.moduleContexts m).Linked c l ∨ Made wa c eqpClass equip m l := by
    intro m l
    rw [hlinks, hmade]
    simp
  -- What is there before the disconnection must be taken away just if it was made.
  have hjust : (∀ m l, (wa₂.moduleContexts m).Linked c l ↔
      (wa.moduleContexts m).Linked c l ∧ ¬ Made wa c eqpClass equip m l) ↔
      ∀ m l, (wb.moduleContexts m).Linked c l → (Made wa c eqpClass equip m l ↔
        m = j ∧ (request wb c eqpClass equip).Removes l) := by
    refine forall_congr' fun m => forall_congr' fun l => ?_
    rw [hleft m c l, hhas m l]
    tauto
  rw [hjust]
  constructor
  · intro h
    obtain ⟨rfl, -⟩ := (h m₀ l₀ ((hhas m₀ l₀).mpr (.inr hmade₀))).mp hmade₀
    refine ⟨m₀, hlisted, hmade₀.1, fun hhard s hs => ?_⟩
    obtain ⟨-, -, -, -, hbit⟩ := (h m₀ (.source s) hs).mpr ⟨rfl, hhard⟩
    exact hbit
  · intro ⟨j', hlisted', htarget, hsources⟩ m l hl
    cases hlisted.symm.trans hlisted'
    constructor
    · intro hmine
      cases hmine.1.symm.trans htarget
      exact ⟨rfl, (removes_iff hwb hlisted hsources hl).mp hmine.2⟩
    · intro ⟨hm, hremoves⟩
      subst hm
      exact ⟨htarget, (removes_iff hwb hlisted hsources hl).mpr hremoves⟩

theorem leaves_iff (hwa : Reached wa)
    (h : ctrDisconnect pids behind c eqpClass 0 wa = .ok () wa') :
    (∀ m < CtrDrvrMODULE_CONTEXTS, ∀ l, ¬ (wa'.moduleContexts m).Linked c l) ↔
    ∀ m < CtrDrvrMODULE_CONTEXTS, ∀ k n, (wa.moduleContexts m).Linked c (.object k n) →
      listed wa pids (pids c) k n = some m := by
  obtain ⟨huse, hleft⟩ := ctrDisconnect_all hwa h
  have hobject : ∀ m k n, (wa.moduleContexts m).Linked c (.object k n) →
      ((∃ conx ∈ clientConnections wa pids (pids c),
        conx.module = m + 1 ∧ conx.Removes (.object k n)) ↔
      listed wa pids (pids c) k n = some m) := by
    intro m k n hl
    obtain ⟨i, hlt, -, hclass, hat⟩ := linked_object.mp hl
    have hkind : k ≠ .HARD := by
      intro hhard
      have hkind := (at_kind (hwa.numbered.slots m i hlt) hat).2
      rw [hclass, hhard] at hkind
      rcases hkind with hkind | hkind <;> cases hkind
    have hfind := @clientConnections_find wa pids (pids c) k n
    constructor
    · intro ⟨conx, hmem, hmodule, hk, hn⟩
      subst hk hn
      rw [clientConnections_unique hmem hkind] at hfind
      obtain ⟨j, hlisted, hj⟩ := Option.map_eq_some_iff.mp hfind.symm
      rw [hlisted, ← Nat.add_right_cancel (hmodule.symm.trans (congrArg _ hj.symm))]
    · intro hlisted
      rw [hlisted] at hfind
      exact ⟨_, List.mem_of_find?_eq_some hfind, rfl, rfl, rfl⟩
  constructor
  · intro hnone m hm k n hl
    refine (hobject m k n hl).mp ?_
    by_contra hnot
    exact hnone m hm _ ((hleft m c _).mpr ⟨hl, fun hgone => hnot hgone.2⟩)
  · intro hall m hm l hl
    obtain ⟨hold, hkept⟩ := (hleft m c l).mp hl
    cases l with
    | object k n => exact hkept ⟨rfl, (hobject m k n hold).mpr (hall m hm k n hold)⟩
    | source s =>
      have hheld : (wa.moduleContexts m).heldSources c ≠ 0 := by
        intro hzero
        have hbit := heldSources_bit.mpr hold
        rw [hzero] at hbit
        exact absurd hbit (by simp)
      exact hkept ⟨rfl, _, clientConnections_sources huse.client huse.open_ hm hheld,
        rfl, rfl⟩

end

/-- What a disconnection of the handle does, and when it is what a caller of `ctr_connect()`
expects. -/
structure Undoes (pids : Nat → Nat) (behind : Nat → Nat → Behind) (c : Nat)
    (wa : WorkingArea) : Prop where
  /-- A connection is taken back, and nothing else, where it is what is listed. Meanwhile
  other handles may do what they want, and another module may be selected. -/
  undone : ∀ eqpClass equip wa' wb wa₂, ctrConnect c eqpClass equip wa = .ok () wa' →
    Reached wb → (∀ m l, (wb.moduleContexts m).Linked c l ↔ (wa'.moduleContexts m).Linked c l) →
    ctrDisconnect pids behind c eqpClass equip wb = .ok () wa₂ →
    ((∀ m l, (wa₂.moduleContexts m).Linked c l ↔
        (wa.moduleContexts m).Linked c l ∧ ¬ Made wa c eqpClass equip m l) ↔
      ∃ j, listed wb pids (pids c) eqpClass equip = some j ∧
        connectTarget wa (request wa c eqpClass equip) c = some j ∧
        (eqpClass = .HARD → ∀ s, (wb.moduleContexts j).Linked c (.source s) →
          equip.getLsbD s = true))
  /-- The mask 0 leaves nothing. -/
  leaves : ∀ eqpClass wa', ctrDisconnect pids behind c eqpClass 0 wa = .ok () wa' →
    ((∀ m < CtrDrvrMODULE_CONTEXTS, ∀ l, ¬ (wa'.moduleContexts m).Linked c l) ↔
      ∀ m < CtrDrvrMODULE_CONTEXTS, ∀ k n, (wa.moduleContexts m).Linked c (.object k n) →
        listed wa pids (pids c) k n = some m)
  /-- The other handles keep what they have, whether the call succeeds or fails. -/
  handles : ∀ eqpClass equip wa',
    (ctrDisconnect pids behind c eqpClass equip wa = .ok () wa' ∨
      ∃ e, e ≠ .undefined ∧ ctrDisconnect pids behind c eqpClass equip wa = .error e wa') →
    ∀ d, d ≠ c → ∀ m l, (wa'.moduleContexts m).Linked d l ↔ (wa.moduleContexts m).Linked d l
  /-- The other modules keep what they have, where what is listed is on the current one. -/
  modules : ∀ eqpClass equip wa', equip ≠ 0 →
    ctrDisconnect pids behind c eqpClass equip wa = .ok () wa' →
    ((∀ m ≠ wa.selected c, ∀ l,
        (wa'.moduleContexts m).Linked c l ↔ (wa.moduleContexts m).Linked c l) ↔
      ∀ j, listed wa pids (pids c) eqpClass equip = some j →
        j = wa.selected c ∨ ∀ l, (wa.moduleContexts j).Linked c l →
          ¬ (request wa c eqpClass equip).Removes l)
  /-- A call that fails for one object leaves everything. -/
  fails : ∀ eqpClass equip wa' e, equip ≠ 0 → e ≠ .undefined →
    ctrDisconnect pids behind c eqpClass equip wa = .error e wa' → wa' = wa

/-- `ctr_disconnect()` undoes `ctr_connect()` if and only if the first entry for the object,
or for just this mask, is one of the module concerned. -/
theorem ctrDisconnect_undoes (pids : Nat → Nat) (behind : Nat → Nat → Behind) (c : Nat)
    {wa : WorkingArea} (hwa : Reached wa) : Undoes pids behind c wa where
  undone _ _ _ _ _ hconnect hwb hlinks hdisconnect :=
    undone_iff hwa hconnect hwb hlinks hdisconnect
  leaves _ _ h := leaves_iff hwa h
  handles eqpClass equip wa' h d hd m l := by
    rcases h with h | ⟨e, -, h⟩
    · by_cases hequip : equip = 0
      · subst hequip
        rw [(ctrDisconnect_all hwa h).2 m d l]
        exact and_iff_left fun hgone => hd hgone.1
      · obtain ⟨-, j, -, hleft⟩ := ctrDisconnect_one hwa hequip h
        rw [hleft m d l]
        exact and_iff_left fun hgone => hd hgone.1
    · exact ctrDisconnect_fails hwa h hd
  modules eqpClass equip wa' hequip h := by
    obtain ⟨-, j, hlisted, hleft⟩ := ctrDisconnect_one hwa hequip h
    constructor
    · intro hkept j' hlisted'
      cases hlisted.symm.trans hlisted'
      by_cases hj : j = wa.selected c
      · exact .inl hj
      · refine .inr fun l hl hremoves => ?_
        exact ((hleft j c l).mp ((hkept j hj l).mpr hl)).2 ⟨rfl, rfl, hremoves⟩
    · intro honly m hm l
      rw [hleft m c l]
      refine and_iff_left_of_imp fun hl hgone => ?_
      obtain ⟨-, rfl, hremoves⟩ := hgone
      rcases honly m hlisted with hj | hnone
      · exact hm hj
      · exact hnone l hl hremoves
  fails eqpClass equip wa' e hequip _ h := ctrDisconnect_unchanged hequip h

def Single (wa : WorkingArea) : Prop :=
  ∀ m d l, (wa.moduleContexts m).Linked d l → l = .object .CTIM 5

theorem ctrConnect_single {wa wa' : WorkingArea} {c : Nat} (hwa : Reached wa)
    (hsingle : Single wa) (h : ctrConnect c .CTIM 5 wa = .ok () wa') : Single wa' := by
  intro m d l hl
  rcases ((ctrConnect_links hwa h).2 m d l).mp hl with hold | ⟨-, -, hnames⟩
  · exact hsingle m d l hold
  · cases l with
    | object k n =>
      obtain ⟨-, rfl, rfl⟩ := hnames
      rfl
    | source s => exact absurd rfl hnames.2.1

theorem installed_single {wa : WorkingArea} {n : Nat} {inUse : Nat → Bool}
    (h : wa.moduleContexts = (installed n inUse fun _ _ => 0).moduleContexts) : Single wa := by
  intro m d l hl
  rw [h] at hl
  cases l with
  | object k n =>
    obtain ⟨i, -, -, -, hat⟩ := linked_object.mp hl
    exact absurd hat (by simp [ModuleContext.At, installed])
  | source s => exact absurd hl.2 (by simp [ModuleContext.AtSource, installed])

theorem clientConnections_single {wa : WorkingArea} {pids : Nat → Nat} {pid : Nat}
    (hsingle : Single wa) : (clientConnections wa pids pid).length ≤ 1 := by
  have hlist : clientConnections wa pids pid = [] ∨
      ∃ m, clientConnections wa pids pid = [⟨m, .CTIM, 5⟩] := by
    refine clientConnections_keeps (P := fun conns => conns = [] ∨ ∃ m, conns = [⟨m, .CTIM, 5⟩])
      (.inl rfl) (fun conns i j _ k hk hconns => ?_) fun conns i j _ hconns => ?_
    · unfold ModuleContext.listSlot
      split
      · next hat =>
        have hl := hsingle j i _ (linked_object.mpr ⟨k, hk, rfl, rfl, clientMask_at.mp hat⟩)
        injection hl with hclass hnum
        rw [hclass, hnum]
        rcases hconns with rfl | ⟨m, rfl⟩
        · exact .inr ⟨j + 1, rfl⟩
        · exact .inr ⟨m, rfl⟩
      · exact hconns
    · have hnone : (wa.moduleContexts j).heldSources i = 0 := by
        refine BitVec.eq_of_getLsbD_eq fun s _ => ?_
        rw [Bool.eq_iff_iff, heldSources_bit]
        constructor
        · intro hl
          cases hsingle j i (.source s) hl
        · intro hbit
          simp at hbit
      unfold ModuleContext.listSources
      dsimp only
      rw [hnone]
      exact hconns
  rcases hlist with hlist | ⟨m, hlist⟩
  · rw [hlist]
    exact Nat.zero_le 1
  · rw [hlist]
    exact Nat.le_refl 1

theorem ctrDisconnect_single {wa wa' : WorkingArea} {pids : Nat → Nat}
    {behind : Nat → Nat → Behind} {c j : Nat} (hsingle : Single wa)
    (hlisted : listed wa pids (pids c) .CTIM 5 = some j)
    (h : command (behind 0) c (.disconnect ⟨j + 1, .CTIM, 5⟩) wa = .ok () wa') :
    ctrDisconnect pids behind c .CTIM 5 wa = .ok () wa' := by
  have huse : Usable wa c := by
    obtain ⟨hadm, -⟩ := command_ok.mp h
    exact ⟨hadm.client, hadm.open_, hadm.installed⟩
  have hshort := Nat.lt_of_le_of_lt (@clientConnections_single wa pids (pids c) hsingle)
    (by decide : 1 < CtrDrvrCONNECTIONS)
  have hlist : ctrGetClientConnections pids c wa =
      .ok (clientConnections wa pids (pids c)) wa := by
    unfold ctrGetClientConnections
    refine bind_ok.mpr ⟨_, wa, inquiry_ok.mpr ⟨⟨huse, rfl⟩, rfl⟩, ?_⟩
    rw [if_neg (Nat.lt_asymm hshort)]
    rfl
  unfold ctrDisconnect
  refine bind_ok.mpr ⟨_, wa, hlist, ?_⟩
  rw [if_neg (by decide), clientConnections_find, hlisted]
  exact h

def leaves (call : Libctr Unit) (p : WorkingArea → Bool) (wa : WorkingArea) : Bool :=
  match call wa with
  | .ok () wa' => p wa'
  | .error .. => false

theorem exists_leaves {call : Libctr Unit} {p : WorkingArea → Bool} {wa : WorkingArea}
    (h : leaves call p wa = true) : ∃ wa', call wa = .ok () wa' ∧ p wa' = true := by
  unfold leaves at h
  split at h
  · next hcall => exact ⟨_, hcall, h⟩
  · cases h

def listedAt (j : Nat) (wa : WorkingArea) : Bool :=
  listed wa (fun _ => 1) 1 .CTIM 5 = some j &&
    leaves (command noMemory 0 (.disconnect ⟨j + 1, .CTIM, 5⟩)) (fun _ => true) wa

theorem exists_disconnects {wa : WorkingArea} {j : Nat} (hsingle : Single wa)
    (h : listedAt j wa = true) : listed wa (fun _ => 1) 1 .CTIM 5 = some j ∧
    ∃ wa', ctrDisconnect (fun _ => 1) (fun _ => noMemory) 0 .CTIM 5 wa = .ok () wa' := by
  obtain ⟨hlisted, hleft⟩ := Bool.and_eq_true_iff.mp h
  obtain ⟨wa', hcommand, -⟩ := exists_leaves hleft
  exact ⟨of_decide_eq_true hlisted, wa',
    ctrDisconnect_single hsingle (of_decide_eq_true hlisted) hcommand⟩

theorem setModule_contexts {wa wa' : WorkingArea} {c : Nat} {lav : Int}
    {behind : Nat → Behind} (h : command behind c (.setModule lav) wa = .ok () wa') :
    wa'.moduleContexts = wa.moduleContexts := by
  have hcommand := (command_ok.mp h).2
  unfold WorkingArea.command at hcommand
  dsimp only at hcommand
  split at hcommand
  · cases hcommand
    rfl
  · cases hcommand

theorem ctim_target {wa : WorkingArea} {c : Nat} {equip : U32} :
    connectTarget wa (request wa c .CTIM equip) c = some (wa.selected c) :=
  congrArg some connectModule_selected

def ctimEvents : List Event :=
  [.opens 0, .ioctl 0 (.createCtim ⟨5, ⟨0x0105FFFF⟩⟩) noMemory]

/-- With one module and one handle the connection to a CTIM is taken back. -/
theorem ctrDisconnect_undoes_ctim : ∃ wa wa' wa₂ : WorkingArea,
    ctrConnect 0 .CTIM 5 wa = .ok () wa' ∧
    ctrDisconnect (fun _ => 1) (fun _ => noMemory) 0 .CTIM 5 wa' = .ok () wa₂ ∧
    ∀ m l, (wa₂.moduleContexts m).Linked 0 l ↔
      (wa.moduleContexts m).Linked 0 l ∧ ¬ Made wa 0 .CTIM 5 m l := by
  have hruns : (oneModule.run (fun _ => GivesNumbers) ctimEvents).any (fun wa =>
      wa.selected 0 = 0 ∧ leaves (ctrConnect 0 .CTIM 5) (listedAt 0) wa) = true := by
    decide +kernel
  obtain ⟨wa, hrun, hselected, hcalls⟩ := exists_run hruns
  have hwa : Reached wa := .run (.init oneModule_installed) (run_run hrun)
  have hfresh : (oneModule.run (fun _ => GivesNumbers) ctimEvents).map (·.moduleContexts) =
      some oneModule.moduleContexts := rfl
  rw [hrun] at hfresh
  obtain ⟨wa', hconnect, hlisted⟩ := exists_leaves hcalls
  obtain ⟨hlisted, wa₂, hdisconnect⟩ := exists_disconnects
    (ctrConnect_single hwa (installed_single (Option.some.inj hfresh)) hconnect) hlisted
  refine ⟨wa, wa', wa₂, hconnect, hdisconnect, ?_⟩
  refine ((ctrDisconnect_undoes (fun _ => 1) (fun _ => noMemory) 0 hwa).undone .CTIM 5 wa' wa'
    wa₂ hconnect (ctrConnect_reached hwa hconnect) (fun _ _ => Iff.rfl) hdisconnect).mpr ?_
  refine ⟨0, hlisted, ?_, fun hhard => by cases hhard⟩
  rw [ctim_target, hselected]

/-- A connection to the CTIM on the second module is not the one that is listed: the one on
the first module is taken away. -/
theorem not_ctrDisconnect_undoes : ¬ ∀ (pids : Nat → Nat) (behind : Nat → Nat → Behind)
    (c : Nat) (wa : WorkingArea), Reached wa →
    (∀ eqpClass equip wa' wa₂, ctrConnect c eqpClass equip wa = .ok () wa' →
      ctrDisconnect pids behind c eqpClass equip wa' = .ok () wa₂ →
      ∀ m l, (wa₂.moduleContexts m).Linked c l ↔
        (wa.moduleContexts m).Linked c l ∧ ¬ Made wa c eqpClass equip m l) ∧
    (∀ eqpClass wa', ctrDisconnect pids behind c eqpClass 0 wa = .ok () wa' →
      ∀ m < CtrDrvrMODULE_CONTEXTS, ∀ l, ¬ (wa'.moduleContexts m).Linked c l) ∧
    (∀ eqpClass equip wa', ctrDisconnect pids behind c eqpClass equip wa = .ok () wa' →
      ∀ m d l, d ≠ c ∨ equip ≠ 0 ∧ m ≠ wa.selected c →
        ((wa'.moduleContexts m).Linked d l ↔ (wa.moduleContexts m).Linked d l)) := by
  intro h
  have hruns : (twoModules.run (fun _ => GivesNumbers) ctimEvents).any
      (leaves (ctrConnect 0 .CTIM 5) (leaves (command noMemory 0 (.setModule 2)) fun wa =>
        wa.selected 0 = 1 && leaves (ctrConnect 0 .CTIM 5) (listedAt 0) wa)) = true := by
    decide +kernel
  obtain ⟨wa₀, hrun, hcalls⟩ := (Option.any_eq_true _ _).mp hruns
  obtain ⟨wa₁, hfirst, hcalls⟩ := exists_leaves hcalls
  obtain ⟨wa, hselect, hcalls⟩ := exists_leaves hcalls
  obtain ⟨hselected, hcalls⟩ := Bool.and_eq_true_iff.mp hcalls
  obtain ⟨wa', hconnect, hlisted⟩ := exists_leaves hcalls
  have hwa₀ : Reached wa₀ := .run (.init twoModules_installed) (run_run hrun)
  have hfresh : (twoModules.run (fun _ => GivesNumbers) ctimEvents).map (·.moduleContexts) =
      some twoModules.moduleContexts := rfl
  rw [hrun] at hfresh
  have hsingle₁ := ctrConnect_single hwa₀ (installed_single (Option.some.inj hfresh)) hfirst
  have hgives : GivesNumbers (.ioctl 0 (.setModule 2) noMemory) := trivial
  have hwa : Reached wa := command_reached (ctrConnect_reached hwa₀ hfirst) hgives hselect
  have hsingle : Single wa := by
    unfold Single
    rw [setModule_contexts hselect]
    exact hsingle₁
  obtain ⟨hlisted, wa₂, hdisconnect⟩ := exists_disconnects
    (ctrConnect_single hwa hsingle hconnect) hlisted
  have hback := (h (fun _ => 1) (fun _ => noMemory) 0 wa hwa).1 .CTIM 5 wa' wa₂ hconnect
    hdisconnect
  obtain ⟨j, hlisted', htarget, -⟩ := (undone_iff hwa hconnect
    (ctrConnect_reached hwa hconnect) (fun _ _ => Iff.rfl) hdisconnect).mp hback
  rw [ctim_target, of_decide_eq_true hselected] at htarget
  cases hlisted.symm.trans (hlisted'.trans htarget.symm)

end Coht.Timlib
