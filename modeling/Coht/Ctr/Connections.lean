import Coht.Ctr.Clients
import Coht.Ctr.Inquiries
import Coht.Lib.Collecting

/-!
# The list of connections (`ctrdrvr-vme.c`)

`GET_CLIENT_CONNECTIONS` lists what a process is connected to, with all its handles
and on all modules. The handles come in order, for each of them the modules, and on
a module the slots before the raw sources. A slot is not listed again when its
object is in the list already, on whichever module and for whichever handle. The
raw sources of a handle on a module are one entry, with their mask for a number.

So the entry of an object names the module where the first handle that has it has it
first, and the entry of a mask the first module where some handle has just this
mask. `listed` says which.
-/

namespace Coht.Ctr

open Coht.Lib

def CtrDrvrCONNECTIONS : Nat := 512

namespace ModuleContext

variable (mcon : ModuleContext)

/-- One slot, for the client `i` on module `j`. -/
def listSlot (i j : Nat) (conns : List CtrDrvrConnection) (k : Nat) :
    List CtrDrvrConnection :=
  if clientMask i &&& mcon.clients k ≠ 0 then
    if conns.any (fun conx => mcon.eqpNum k = conx.eqpNum ∧ mcon.eqpClass k = conx.eqpClass)
    then conns
    else conns ++ [{ module := j + 1, eqpNum := mcon.eqpNum k, eqpClass := mcon.eqpClass k }]
  else conns

/-- The mask `hmsk` of the raw sources. -/
def heldSources (i : Nat) : U32 :=
  (List.range CtrDrvrInterruptSOURCES).foldl (fun hmsk k =>
    if clientMask i &&& mcon.hardClients k ≠ 0 then hmsk ||| 1#32 <<< k else hmsk) 0

def listSources (i j : Nat) (conns : List CtrDrvrConnection) : List CtrDrvrConnection :=
  let hmsk := mcon.heldSources i
  if hmsk ≠ 0 then conns ++ [{ module := j + 1, eqpNum := hmsk, eqpClass := .HARD }]
  else conns

/-- All of one client on one module. -/
def list (i j : Nat) (conns : List CtrDrvrConnection) : List CtrDrvrConnection :=
  mcon.listSources i j ((List.range CtrDrvrRamTableSIZE).foldl (mcon.listSlot i j) conns)

/-- The client has the object, or just these raw sources. -/
def Holds (i : Nat) (eqpClass : CtrDrvrConnectionClass) (eqpNum : U32) : Prop :=
  (∃ k ∈ mcon.matching eqpNum eqpClass, mcon.At i k) ∨
    eqpClass = .HARD ∧ mcon.heldSources i = eqpNum ∧ eqpNum ≠ 0

instance (i k : Nat) : Decidable (mcon.At i k) := inferInstanceAs (Decidable (_ = _))

instance (i : Nat) (eqpClass : CtrDrvrConnectionClass) (eqpNum : U32) :
    Decidable (mcon.Holds i eqpClass eqpNum) :=
  inferInstanceAs (Decidable (_ ∨ _))

end ModuleContext

section

variable (wa : WorkingArea) (pids : Nat → Nat) (pid : Nat)

/-- All of one client, if it is a handle of the process. -/
def listClient (conns : List CtrDrvrConnection) (i : Nat) : List CtrDrvrConnection :=
  if (wa.clientContexts i).inUse = true ∧ pids i = pid then
    (List.range CtrDrvrMODULE_CONTEXTS).foldl
      (fun conns j => (wa.moduleContexts j).list i j conns) conns
  else conns

/-- `CtrDrvrGET_CLIENT_CONNECTIONS`, without the end of the array. -/
def clientConnections : List CtrDrvrConnection :=
  (List.range CtrDrvrCLIENT_CONTEXTS).foldl (listClient wa pids pid) []

/-- The first module where the first handle of the process that has the object has it,
or has just these raw sources. -/
def listed (eqpClass : CtrDrvrConnectionClass) (eqpNum : U32) : Option Nat :=
  (List.range CtrDrvrCLIENT_CONTEXTS).findSome? fun i =>
    if (wa.clientContexts i).inUse = true ∧ pids i = pid then
      (List.range CtrDrvrMODULE_CONTEXTS).find? fun j =>
        (wa.moduleContexts j).Holds i eqpClass eqpNum
    else none

end

section

variable {mcon : ModuleContext} {wa : WorkingArea} {pids : Nat → Nat} {pid c i j k s : Nat}
  {eqpClass : CtrDrvrConnectionClass} {eqpNum : U32} {conns : List CtrDrvrConnection}

/-- The entry is for the object. -/
def isFor (eqpClass : CtrDrvrConnectionClass) (eqpNum : U32) (conx : CtrDrvrConnection) :
    Bool :=
  decide (conx.eqpNum = eqpNum ∧ conx.eqpClass = eqpClass)

theorem isFor_iff {conx : CtrDrvrConnection} :
    isFor eqpClass eqpNum conx = true ↔ conx.eqpNum = eqpNum ∧ conx.eqpClass = eqpClass :=
  decide_eq_true_iff

theorem clientMask_at {w : U32} : clientMask i &&& w ≠ 0 ↔ w.getLsbD i = true := by
  unfold clientMask
  rw [← BitVec.twoPow_eq, BitVec.and_comm, BitVec.and_twoPow]
  cases hbit : w.getLsbD i with
  | false => simp
  | true =>
    have hlt : i < 32 := BitVec.lt_of_getLsbD hbit
    have hne : BitVec.twoPow 32 i ≠ 0#32 := by
      intro hzero
      have hself := congrArg (BitVec.getLsbD · i) hzero
      simp only [BitVec.getLsbD_twoPow, hlt] at hself
      simp at hself
    simpa using hne

theorem listSlot_collects :
    Collects (isFor eqpClass eqpNum) (mcon.listSlot i j) fun k =>
      if mcon.At i k ∧ mcon.eqpNum k = eqpNum ∧ mcon.eqpClass k = eqpClass then
        some { module := j + 1, eqpNum := eqpNum, eqpClass := eqpClass }
      else none := by
  intro conns k
  dsimp only
  unfold ModuleContext.listSlot
  by_cases hat : mcon.At i k
  · rw [if_pos (clientMask_at.mpr hat)]
    split
    · next hany =>
      split
      · next hkey =>
        -- The object is in the list, and its first entry stays the first.
        obtain ⟨conx, hmem, hsame⟩ := List.any_eq_true.mp hany
        have hsome : (conns.find? (isFor eqpClass eqpNum)).isSome = true := by
          refine List.find?_isSome.mpr ⟨conx, hmem, isFor_iff.mpr ?_⟩
          obtain ⟨hnum, hclass⟩ := of_decide_eq_true hsame
          exact ⟨hnum.symm.trans hkey.2.1, hclass.symm.trans hkey.2.2⟩
        obtain ⟨first, hfirst⟩ := Option.isSome_iff_exists.mp hsome
        rw [hfirst]
        rfl
      · exact Option.or_none.symm
    · rw [find?_append_one]
      refine congrArg _ ?_
      by_cases hkey : mcon.eqpNum k = eqpNum ∧ mcon.eqpClass k = eqpClass
      · rw [if_pos (isFor_iff.mpr hkey), if_pos ⟨hat, hkey⟩, hkey.1, hkey.2]
      · rw [if_neg fun h => hkey (isFor_iff.mp h), if_neg fun h => hkey h.2]
  · rw [if_neg fun h => hat (clientMask_at.mp h), if_neg fun h => hat h.1]
    exact Option.or_none.symm

theorem listSources_collects :
    (mcon.listSources i j conns).find? (isFor eqpClass eqpNum) =
      (conns.find? (isFor eqpClass eqpNum)).or
        (if eqpClass = .HARD ∧ mcon.heldSources i = eqpNum ∧ eqpNum ≠ 0 then
          some { module := j + 1, eqpNum := eqpNum, eqpClass := eqpClass }
        else none) := by
  unfold ModuleContext.listSources
  dsimp only
  by_cases hkey : mcon.heldSources i = eqpNum ∧ .HARD = eqpClass
  · obtain ⟨rfl, rfl⟩ := hkey
    split
    · next hne =>
      have hself : isFor .HARD (mcon.heldSources i)
          { module := j + 1, eqpNum := mcon.heldSources i } = true := isFor_iff.mpr ⟨rfl, rfl⟩
      rw [find?_append_one, if_pos hself, if_pos ⟨rfl, rfl, hne⟩]
    · next hzero =>
      have hnone : ¬ mcon.heldSources i ≠ 0 := hzero
      rw [if_neg fun h => hnone h.2.2, Option.or_none]
  · have hnone : ¬ (eqpClass = .HARD ∧ mcon.heldSources i = eqpNum ∧ eqpNum ≠ 0) :=
      fun h => hkey ⟨h.2.1, h.1.symm⟩
    rw [if_neg hnone, Option.or_none]
    split
    · rw [find?_append_one, if_neg fun h => hkey (isFor_iff.mp h), Option.or_none]
    · rfl

theorem findSome?_const {α β : Type} {l : List α} {p : α → Prop} [DecidablePred p] (b : β) :
    (l.findSome? fun a => if p a then some b else none) =
      if ∃ a ∈ l, p a then some b else none := by
  by_cases hex : ∃ a ∈ l, p a
  · rw [if_pos hex]
    cases hfind : l.findSome? fun a => if p a then some b else none with
    | none =>
      obtain ⟨a, ha, hp⟩ := hex
      have hnone := List.findSome?_eq_none_iff.mp hfind a ha
      rw [if_pos hp] at hnone
      cases hnone
    | some b' =>
      obtain ⟨a, -, hsome⟩ := List.exists_of_findSome?_eq_some hfind
      split at hsome
      · exact hsome.symm
      · cases hsome
  · rw [if_neg hex]
    exact List.findSome?_eq_none_iff.mpr fun a ha => if_neg fun hp => hex ⟨a, ha, hp⟩

theorem list_collects :
    (mcon.list i j conns).find? (isFor eqpClass eqpNum) =
      (conns.find? (isFor eqpClass eqpNum)).or
        (if mcon.Holds i eqpClass eqpNum then
          some { module := j + 1, eqpNum := eqpNum, eqpClass := eqpClass }
        else none) := by
  have hslots := (@listSlot_collects mcon i j eqpClass eqpNum).foldl conns
    (List.range CtrDrvrRamTableSIZE)
  dsimp only at hslots
  rw [findSome?_const] at hslots
  unfold ModuleContext.list
  rw [listSources_collects, hslots, Option.or_assoc]
  refine congrArg _ ?_
  have hslot : (∃ k ∈ List.range CtrDrvrRamTableSIZE,
      mcon.At i k ∧ mcon.eqpNum k = eqpNum ∧ mcon.eqpClass k = eqpClass) ↔
      ∃ k ∈ mcon.matching eqpNum eqpClass, mcon.At i k := by
    constructor
    · intro ⟨k, hk, hat, hnum, hclass⟩
      exact ⟨k, mem_matching.mpr ⟨List.mem_range.mp hk, hnum, hclass⟩, hat⟩
    · intro ⟨k, hk, hat⟩
      obtain ⟨hlt, hnum, hclass⟩ := mem_matching.mp hk
      exact ⟨k, List.mem_range.mpr hlt, hat, hnum, hclass⟩
  by_cases hobject : ∃ k ∈ mcon.matching eqpNum eqpClass, mcon.At i k
  · have hholds : mcon.Holds i eqpClass eqpNum := .inl hobject
    rw [if_pos (hslot.mpr hobject), if_pos hholds]
    exact Option.some_or
  · rw [if_neg fun h => hobject (hslot.mp h), Option.none_or]
    by_cases hhard : eqpClass = .HARD ∧ mcon.heldSources i = eqpNum ∧ eqpNum ≠ 0
    · have hholds : mcon.Holds i eqpClass eqpNum := .inr hhard
      rw [if_pos hhard, if_pos hholds]
    · have hnot : ¬ mcon.Holds i eqpClass eqpNum := fun h => h.elim hobject hhard
      rw [if_neg hhard, if_neg hnot]

theorem findSome?_ite {α β : Type} {l : List α} {p : α → Prop} [DecidablePred p] {g : α → β} :
    (l.findSome? fun a => if p a then some (g a) else none) =
      (l.find? fun a => decide (p a)).map g := by
  rw [List.find?_eq_findSome?_guard, List.map_findSome?]
  refine congrArg (List.findSome? · l) (funext fun a => ?_)
  by_cases hp : p a
  · simp [Option.guard, hp]
  · simp [Option.guard, hp]

theorem listClient_collects :
    Collects (isFor eqpClass eqpNum) (listClient wa pids pid) fun i =>
      (if (wa.clientContexts i).inUse = true ∧ pids i = pid then
        (List.range CtrDrvrMODULE_CONTEXTS).find? fun j =>
          (wa.moduleContexts j).Holds i eqpClass eqpNum
      else none).map fun j =>
        { module := j + 1, eqpNum := eqpNum, eqpClass := eqpClass } := by
  intro conns i
  dsimp only
  unfold listClient
  split
  · have hmodule : Collects (isFor eqpClass eqpNum)
        (fun conns j => (wa.moduleContexts j).list i j conns) fun j =>
          if (wa.moduleContexts j).Holds i eqpClass eqpNum then
            some { module := j + 1, eqpNum := eqpNum, eqpClass := eqpClass }
          else none := fun conns j => list_collects
    have hmodules := hmodule.foldl conns (List.range CtrDrvrMODULE_CONTEXTS)
    dsimp only at hmodules
    rw [hmodules, findSome?_ite]
  · exact Option.or_none.symm

theorem clientConnections_find : (clientConnections wa pids pid).find? (isFor eqpClass eqpNum) =
    (listed wa pids pid eqpClass eqpNum).map fun j =>
      { module := j + 1, eqpNum := eqpNum, eqpClass := eqpClass } := by
  have hclients := (@listClient_collects wa pids pid eqpClass eqpNum).foldl []
    (List.range CtrDrvrCLIENT_CONTEXTS)
  dsimp only at hclients
  unfold clientConnections listed
  rw [hclients, List.map_findSome?]
  rfl

theorem clientConnections_keeps {P : List CtrDrvrConnection → Prop} (hnil : P [])
    (hslot : ∀ conns i, ∀ j < CtrDrvrMODULE_CONTEXTS, ∀ k < CtrDrvrRamTableSIZE,
      P conns → P ((wa.moduleContexts j).listSlot i j conns k))
    (hsources : ∀ conns i, ∀ j < CtrDrvrMODULE_CONTEXTS,
      P conns → P ((wa.moduleContexts j).listSources i j conns)) :
    P (clientConnections wa pids pid) := by
  refine foldl_keeps (fun conns i _ hconns => ?_) hnil
  unfold listClient
  split
  · refine foldl_keeps (fun conns j hj hconns => ?_) hconns
    have hlt := List.mem_range.mp hj
    refine hsources _ i j hlt (foldl_keeps (fun conns k hk hconns => ?_) hconns)
    exact hslot conns i j hlt k (List.mem_range.mp hk) hconns
  · exact hconns

theorem clientConnections_entry (hnumbered : Numbered wa) {conx : CtrDrvrConnection}
    (h : conx ∈ clientConnections wa pids pid) :
    conx.eqpNum ≠ 0 ∧ ∃ j < CtrDrvrMODULE_CONTEXTS, conx.module = j + 1 := by
  have hall : ∀ conx ∈ clientConnections wa pids pid,
      conx.eqpNum ≠ 0 ∧ ∃ j < CtrDrvrMODULE_CONTEXTS, conx.module = j + 1 := by
    refine clientConnections_keeps (P := fun conns => ∀ conx ∈ conns,
      conx.eqpNum ≠ 0 ∧ ∃ j < CtrDrvrMODULE_CONTEXTS, conx.module = j + 1) ?_ ?_ ?_
    · intro conx hmem
      cases hmem
    · intro conns i j hj k hk hconns conx hmem
      unfold ModuleContext.listSlot at hmem
      split at hmem
      · next hat =>
        split at hmem
        · exact hconns conx hmem
        · rcases List.mem_append.mp hmem with hold | hnew
          · exact hconns conx hold
          · rw [List.mem_singleton.mp hnew]
            refine ⟨fun hzero => hat ?_, j, hj, rfl⟩
            have hnone : (wa.moduleContexts j).clients k = 0 :=
              ((hnumbered.slots j k hk).empty hzero).2
            rw [hnone]
            exact BitVec.and_zero
      · exact hconns conx hmem
    · intro conns i j hj hconns conx hmem
      unfold ModuleContext.listSources at hmem
      dsimp only at hmem
      split at hmem
      · next hne =>
        rcases List.mem_append.mp hmem with hold | hnew
        · exact hconns conx hold
        · rw [List.mem_singleton.mp hnew]
          exact ⟨hne, j, hj, rfl⟩
      · exact hconns conx hmem
  exact hall conx h

theorem clientConnections_unique {conx : CtrDrvrConnection}
    (h : conx ∈ clientConnections wa pids pid) (hclass : conx.eqpClass ≠ .HARD) :
    (clientConnections wa pids pid).find? (isFor conx.eqpClass conx.eqpNum) = some conx := by
  have hall : ∀ conx ∈ clientConnections wa pids pid, conx.eqpClass ≠ .HARD →
      (clientConnections wa pids pid).find? (isFor conx.eqpClass conx.eqpNum) =
        some conx := by
    refine clientConnections_keeps (P := fun conns => ∀ conx ∈ conns, conx.eqpClass ≠ .HARD →
      conns.find? (isFor conx.eqpClass conx.eqpNum) = some conx) ?_ ?_ ?_
    · intro conx hmem
      cases hmem
    · intro conns i j hj k hk hconns conx hmem hclass
      unfold ModuleContext.listSlot at hmem ⊢
      split at hmem
      · next hat =>
        rw [if_pos hat]
        split at hmem
        · next hany =>
          rw [if_pos hany]
          exact hconns conx hmem hclass
        · next hany =>
          rw [if_neg hany, find?_append_one]
          rcases List.mem_append.mp hmem with hold | hnew
          · rw [hconns conx hold hclass]
            rfl
          · rw [List.mem_singleton.mp hnew, if_pos (isFor_iff.mpr ⟨rfl, rfl⟩)]
            have hnone : conns.find? (isFor ((wa.moduleContexts j).eqpClass k)
                ((wa.moduleContexts j).eqpNum k)) = none := by
              refine List.find?_eq_none.mpr fun other hother hfor => hany ?_
              obtain ⟨hnum, hkind⟩ := isFor_iff.mp hfor
              exact List.any_eq_true.mpr
                ⟨other, hother, decide_eq_true ⟨hnum.symm, hkind.symm⟩⟩
            rw [hnone]
            rfl
      · next hat =>
        rw [if_neg hat]
        exact hconns conx hmem hclass
    · intro conns i j hj hconns conx hmem hclass
      unfold ModuleContext.listSources at hmem ⊢
      dsimp only at hmem ⊢
      split at hmem
      · next hne =>
        rw [if_pos hne, find?_append_one]
        rcases List.mem_append.mp hmem with hold | hnew
        · rw [hconns conx hold hclass]
          rfl
        · rw [List.mem_singleton.mp hnew] at hclass
          exact absurd rfl hclass
      · next hzero =>
        rw [if_neg hzero]
        exact hconns conx hmem hclass
  exact hall conx h hclass

theorem clientConnections_sources (hc : c < CtrDrvrCLIENT_CONTEXTS)
    (hopen : (wa.clientContexts c).inUse = true) (hj : j < CtrDrvrMODULE_CONTEXTS)
    (hheld : (wa.moduleContexts j).heldSources c ≠ 0) :
    { module := j + 1, eqpNum := (wa.moduleContexts j).heldSources c, eqpClass := .HARD } ∈
      clientConnections wa pids (pids c) := by
  have hslot : ∀ i j conns k, conns ⊆ (wa.moduleContexts j).listSlot i j conns k := by
    intro i j conns k conx hmem
    unfold ModuleContext.listSlot
    split
    · split
      · exact hmem
      · exact List.mem_append_left _ hmem
    · exact hmem
  have hlist : ∀ i conns j, conns ⊆ (wa.moduleContexts j).list i j conns := by
    intro i conns j conx hmem
    have hslots : conx ∈ (List.range CtrDrvrRamTableSIZE).foldl
        ((wa.moduleContexts j).listSlot i j) conns := mem_foldl_of_mem (hslot i j) hmem
    unfold ModuleContext.list ModuleContext.listSources
    dsimp only
    split
    · exact List.mem_append_left _ hslots
    · exact hslots
  have hclient : ∀ conns i, conns ⊆ listClient wa pids (pids c) conns i := by
    intro conns i conx hmem
    unfold listClient
    split
    · exact mem_foldl_of_mem (hlist i) hmem
    · exact hmem
  refine mem_foldl_of_step hclient (List.mem_range.mpr hc) fun conns => ?_
  unfold listClient
  rw [if_pos ⟨hopen, rfl⟩]
  refine mem_foldl_of_step (hlist c) (List.mem_range.mpr hj) fun conns => ?_
  unfold ModuleContext.list ModuleContext.listSources
  dsimp only
  rw [if_pos hheld]
  exact List.mem_append_right _ (List.mem_singleton.mpr rfl)

theorem heldSources_bit : (mcon.heldSources i).getLsbD s = true ↔
    s < CtrDrvrInterruptSOURCES ∧ mcon.AtSource i s := by
  have hround : ∀ hmsk : U32, ∀ k ∈ List.range CtrDrvrInterruptSOURCES, True →
      ((if clientMask i &&& mcon.hardClients k ≠ 0 then hmsk ||| 1#32 <<< k
        else hmsk).getLsbD s = true ↔ hmsk.getLsbD s = true ∨ k = s ∧ mcon.AtSource i k) := by
    intro hmsk k hk _
    have hlt : k < 32 := Nat.lt_trans (List.mem_range.mp hk) (by decide)
    by_cases hat : mcon.AtSource i k
    · rw [if_pos (clientMask_at.mpr hat), BitVec.getLsbD_or, ← BitVec.twoPow_eq,
        BitVec.getLsbD_twoPow]
      simp [hlt, hat]
    · rw [if_neg fun h => hat (clientMask_at.mp h)]
      simp [hat]
  have hadds := @foldl_adds U32 _ (List.range CtrDrvrInterruptSOURCES) 0 (fun _ => True)
    (fun hmsk => hmsk.getLsbD s = true) (fun _ k => k = s ∧ mcon.AtSource i k)
    (fun _ _ _ _ => trivial) hround (fun _ _ _ _ _ _ => Iff.rfl) List.nodup_range trivial
  unfold ModuleContext.heldSources
  rw [hadds]
  constructor
  · intro h
    rcases h with hzero | ⟨k, hk, rfl, hat⟩
    · exact absurd hzero (by simp)
    · exact ⟨List.mem_range.mp hk, hat⟩
  · intro ⟨hlt, hat⟩
    exact .inr ⟨s, List.mem_range.mpr hlt, rfl, hat⟩

end

/-!
## What a client is connected to

On a module a client is connected to objects and to raw sources. `connect` adds the
object, or the sources of the mask; `DISCONNECT` takes the object away again, or all
raw sources, whatever the mask. Nobody else is concerned, and no other module.
-/

inductive Link
  | object (eqpClass : CtrDrvrConnectionClass) (eqpNum : U32)
  | source (s : Nat)

/-- The client is connected to it on the module. -/
def ModuleContext.Linked (mcon : ModuleContext) (d : Nat) : Link → Prop
  | .object eqpClass eqpNum => ∃ i ∈ mcon.matching eqpNum eqpClass, mcon.At d i
  | .source s => s < CtrDrvrInterruptSOURCES ∧ mcon.AtSource d s

/-- The connection asks for it: the object, or a source of the mask. -/
def CtrDrvrConnection.Names (conx : CtrDrvrConnection) : Link → Prop
  | .object eqpClass eqpNum => (eqpClass = .CTIM ∨ eqpClass = .PTIM) ∧
      conx.eqpClass = eqpClass ∧ conx.eqpNum = eqpNum
  | .source s => s < CtrDrvrInterruptSOURCES ∧ conx.eqpClass ≠ .CTIM ∧
      conx.eqpClass ≠ .PTIM ∧ conx.eqpNum.getLsbD s = true

/-- `DISCONNECT` takes it away: the object, or any source. -/
def CtrDrvrConnection.Removes (conx : CtrDrvrConnection) : Link → Prop
  | .object eqpClass eqpNum => conx.eqpClass = eqpClass ∧ conx.eqpNum = eqpNum
  | .source _ => conx.eqpClass = .HARD

section

variable {mcon mcon' : ModuleContext} {wa wa' : WorkingArea} {conx : CtrDrvrConnection}
  {c d i m s : Nat} {l : Link} {behind : Behind}

theorem linked_object {eqpClass : CtrDrvrConnectionClass} {eqpNum : U32} :
    mcon.Linked d (.object eqpClass eqpNum) ↔ ∃ i < CtrDrvrRamTableSIZE,
      mcon.eqpNum i = eqpNum ∧ mcon.eqpClass i = eqpClass ∧ mcon.At d i := by
  constructor
  · intro ⟨i, hi, hat⟩
    obtain ⟨hlt, hnum, hclass⟩ := mem_matching.mp hi
    exact ⟨i, hlt, hnum, hclass, hat⟩
  · intro ⟨i, hlt, hnum, hclass, hat⟩
    exact ⟨i, mem_matching.mpr ⟨hlt, hnum, hclass⟩, hat⟩

theorem at_kind (hnumbered : (mcon.slot i).Numbered) (hat : mcon.At d i) :
    mcon.eqpNum i ≠ 0 ∧ (mcon.eqpClass i = .CTIM ∨ mcon.eqpClass i = .PTIM) := by
  have hne : mcon.eqpNum i ≠ 0 := by
    intro hzero
    have hnone : mcon.clients i = 0 := (hnumbered.empty hzero).2
    unfold ModuleContext.At at hat
    rw [hnone] at hat
    exact absurd hat (by simp)
  exact ⟨hne, hnumbered.full hne⟩

theorem disConnect_keeps {slot : Slot} (hbit : (slot.disConnect c).clients.getLsbD d = true) :
    (slot.disConnect c).eqpNum = slot.eqpNum ∧
      (slot.disConnect c).eqpClass = slot.eqpClass := by
  have hleft := disConnect_cases slot c
  generalize slot.disConnect c = slot' at hleft hbit ⊢
  cases hleft with
  | same | shared | releases => exact ⟨rfl, rfl⟩
  | frees hused hnone =>
    rw [hnone] at hbit
    exact absurd hbit (by simp)

theorem disConnectAs_keeps {slot : Slot} {clss : CtrDrvrConnectionClass}
    (hbit : (slot.disConnectAs clss c).clients.getLsbD d = true) :
    (slot.disConnectAs clss c).eqpNum = slot.eqpNum ∧
      (slot.disConnectAs clss c).eqpClass = slot.eqpClass := by
  rcases disConnectAs_eq slot clss c with heq | heq
  · rw [heq]
    exact ⟨rfl, rfl⟩
  · rw [heq] at hbit ⊢
    exact disConnect_keeps hbit

theorem disConnect_linked (hc : c < CtrDrvrCLIENT_CONTEXTS)
    (hnumbered : ∀ i < CtrDrvrRamTableSIZE, (mcon.slot i).Numbered)
    (hnum : conx.eqpNum ≠ 0) :
    (mcon.disConnect behind conx.eqpNum conx.eqpClass c).Linked d l ↔
      mcon.Linked d l ∧ ¬ (d = c ∧ conx.Removes l) := by
  cases l with
  | object eqpClass eqpNum =>
    have hat := fun i hi => @disConnect_at mcon conx c d i behind hc hnumbered hnum hi
    have hkeep : ∀ i, (mcon.disConnect behind conx.eqpNum conx.eqpClass c).At d i →
        ((mcon.disConnect behind conx.eqpNum conx.eqpClass c).slot i).eqpNum =
            mcon.eqpNum i ∧
          ((mcon.disConnect behind conx.eqpNum conx.eqpClass c).slot i).eqpClass =
            mcon.eqpClass i := by
      intro i hbit
      rw [at_slot] at hbit
      by_cases hhard : conx.eqpClass = .HARD
      · rw [hhard, disConnect_hard_slot i]
        exact ⟨rfl, rfl⟩
      · rw [disConnect_slot hhard] at hbit ⊢
        split at hbit
        · next hmem =>
          rw [if_pos hmem]
          exact disConnectAs_keeps hbit
        · next hmem =>
          rw [if_neg hmem]
          exact ⟨rfl, rfl⟩
    rw [linked_object, linked_object]
    constructor
    · intro ⟨i, hlt, hnum', hclass', hbit⟩
      obtain ⟨hnumsame, hclasssame⟩ := hkeep i hbit
      obtain ⟨hold, hnot⟩ := (hat i hlt).mp hbit
      have hn : mcon.eqpNum i = eqpNum := hnumsame.symm.trans hnum'
      have hk : mcon.eqpClass i = eqpClass := hclasssame.symm.trans hclass'
      refine ⟨⟨i, hlt, hn, hk, hold⟩, fun hgone => hnot ⟨hgone.1, ?_⟩⟩
      exact ⟨hn.trans hgone.2.2.symm, hk.trans hgone.2.1.symm⟩
    · intro ⟨⟨i, hlt, hn, hk, hold⟩, hnot⟩
      have hbit := (hat i hlt).mpr ⟨hold, fun hgone => hnot ⟨hgone.1,
        hgone.2.2.symm.trans hk, hgone.2.1.symm.trans hn⟩⟩
      obtain ⟨hnumsame, hclasssame⟩ := hkeep i hbit
      exact ⟨i, hlt, hnumsame.trans hn, hclasssame.trans hk, hbit⟩
  | source s =>
    show _ ∧ _ ↔ (_ ∧ _) ∧ ¬ (d = c ∧ conx.eqpClass = .HARD)
    rw [and_assoc]
    refine and_congr_right fun hs => ?_
    by_cases hhard : conx.eqpClass = .HARD
    · have hsources : mcon.disConnect behind conx.eqpNum conx.eqpClass c =
          mcon.disConnectSources behind c := by
        rw [hhard]
        exact if_neg (by simp)
      rw [hsources, disConnectSources_left hc hs]
      exact and_congr_right fun _ => ⟨fun hne hgone => hne hgone.1,
        fun hnot heq => hnot ⟨heq, hhard⟩⟩
    · unfold ModuleContext.AtSource
      rw [disConnect_hardClients hhard]
      exact ⟨fun h => ⟨h, fun hgone => hhard hgone.2⟩, fun h => h.1⟩

theorem connect_keeps (hnumbered : Numbered wa) (h : connect wa conx c = .ok (m, mcon'))
    (hi : i < CtrDrvrRamTableSIZE) (hat : (wa.moduleContexts m).At d i) :
    (mcon'.slot i).eqpNum = (wa.moduleContexts m).eqpNum i ∧
      (mcon'.slot i).eqpClass = (wa.moduleContexts m).eqpClass i := by
  cases connect_ok h with
  | ptim _ _ hconnect =>
    rw [connectPtim_slot hconnect]
    split <;> exact ⟨rfl, rfl⟩
  | ctim _ hconnect =>
    obtain ⟨j, hj, hslot⟩ := connectCtim_slot hconnect
    rcases hslot with ⟨-, -, hchange⟩ | ⟨-, hempty, hchange⟩
    · rw [hchange i]
      split <;> exact ⟨rfl, rfl⟩
    · rw [hchange i]
      split
      · next heq =>
        subst heq
        exact absurd (emptySlot_eq_some hempty).2
          (at_kind (hnumbered.slots _ i hi) hat).1
      · exact ⟨rfl, rfl⟩
  | hard _ _ hconnect =>
    rw [connectHard_slot hconnect]
    exact ⟨rfl, rfl⟩

theorem connect_linked (hc : c < CtrDrvrCLIENT_CONTEXTS) (hnumbered : Numbered wa)
    (hafter : Numbered wa') (h : connect wa conx c = .ok (m, mcon'))
    (hone : OneModule wa wa' m mcon') :
    connectTarget wa conx c = some m ∧ ∀ m' d l, (wa'.moduleContexts m').Linked d l ↔
      (wa.moduleContexts m').Linked d l ∨ (d = c ∧ m' = m ∧ conx.Names l) := by
  have hjoins := connect_joins hnumbered hc h hone
  refine ⟨hjoins.target, fun m' d l => ?_⟩
  by_cases hm : m' = m
  · subst hm
    cases l with
    | object eqpClass eqpNum =>
      have hkeep : ∀ i < CtrDrvrRamTableSIZE, (wa.moduleContexts m').At d i →
          ((wa'.moduleContexts m').slot i).eqpNum = (wa.moduleContexts m').eqpNum i ∧
          ((wa'.moduleContexts m').slot i).eqpClass =
            (wa.moduleContexts m').eqpClass i := by
        intro i hi hat
        rw [hone.at]
        exact connect_keeps hnumbered h hi hat
      rw [linked_object, linked_object]
      constructor
      · intro ⟨i, hlt, hnum, hclass, hat⟩
        rcases (hjoins.slots i hlt d).mp hat with hold | ⟨hd, hcarries⟩
        · obtain ⟨hnumsame, hclasssame⟩ := hkeep i hlt hold
          exact .inl ⟨i, hlt, hnumsame.symm.trans hnum, hclasssame.symm.trans hclass, hold⟩
        · obtain ⟨-, hkind⟩ := at_kind (hafter.slots m' i hlt) hat
          rw [hclass] at hkind
          exact .inr ⟨hd, rfl, hkind, hcarries.2.symm.trans hclass,
            hcarries.1.symm.trans hnum⟩
      · intro hor
        rcases hor with ⟨i, hlt, hnum, hclass, hold⟩ | ⟨hd, -, hkind, hclass, hnum⟩
        · obtain ⟨hnumsame, hclasssame⟩ := hkeep i hlt hold
          exact ⟨i, hlt, hnumsame.trans hnum, hclasssame.trans hclass,
            (hjoins.slots i hlt d).mpr (.inl hold)⟩
        · rw [← hclass] at hkind
          obtain ⟨i, hlt, hcarries⟩ := hjoins.found hkind
          exact ⟨i, hlt, hcarries.1.trans hnum, hcarries.2.trans hclass,
            (hjoins.slots i hlt d).mpr (.inr ⟨hd, hcarries⟩)⟩
    | source s =>
      show _ ∧ _ ↔ _ ∧ _ ∨ d = c ∧ m' = m' ∧ s < _ ∧ _
      constructor
      · intro ⟨hs, hat⟩
        rcases (hjoins.sources s hs d).mp hat with hold | ⟨hd, hctim, hptim, hbit⟩
        · exact .inl ⟨hs, hold⟩
        · exact .inr ⟨hd, rfl, hs, hctim, hptim, hbit⟩
      · intro hor
        rcases hor with ⟨hs, hold⟩ | ⟨hd, -, hs, hctim, hptim, hbit⟩
        · exact ⟨hs, (hjoins.sources s hs d).mpr (.inl hold)⟩
        · exact ⟨hs, (hjoins.sources s hs d).mpr (.inr ⟨hd, hctim, hptim, hbit⟩)⟩
  · rw [hjoins.others m' hm]
    exact ⟨.inl, fun hor => hor.resolve_right fun hand => hm hand.2.1⟩

end

end Coht.Ctr
