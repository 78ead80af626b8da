import Coht.Ctr.Delivery
import Coht.Ctr.InsideTables

/-!
# Which requests stay inside the tables

The numbers of slots that the driver finds are inside, and those of modules that it
remembers: the one that a client has selected, and those of the PTIM objects
(`Housed`). What a request names itself is tested for some requests and not for others.
A module need not be installed for `Connect()`, nor mapped; `DisConnect()` does not test
the module at all; `CtrDrvrSET_CONFIG` tests the counter too late, a simulated event
does not test the trigger number, and nobody counts the list of connections.

`Request.Fits` says of each request when all its accesses are inside.
-/

namespace Coht.Ctr

open Coht.Lib Accessing Accesses Errno

/-- The requests, with their arguments. -/
inductive Request
  | connect (conx : CtrDrvrConnection)
  | disconnect (conx : CtrDrvrConnection)
  | setAction (act : CtrDrvrAction)
  | getAction (triggerNumber : Nat)
  | createPtim (ptim : CtrDrvrPtimBinding)
  | destroyPtim (ptim : CtrDrvrPtimBinding)
  | getClientConnections (pid : Nat)
  | setConfig (counter : Nat) (conf : CtrDrvrCounterConfiguration)
  | getConfig (counter : Nat)
  /-- a write, with the time it is made at -/
  | simulate (wb : CtrDrvrWriteBuf) (time : CtrDrvrCTime)

def Request.testsLock : Request → Bool
  | .connect _ | .disconnect _ | .setAction _ | .createPtim _ | .destroyPtim _
  | .setConfig .. => true
  | .getAction _ | .getClientConnections _ | .getConfig _ | .simulate .. => false

/-- `conx->Module - 1`, where `Module` is an unsigned long. -/
def disConnectIndex (module : Nat) : Nat := if module = 0 then 2 ^ 32 - 1 else module - 1

section

variable (behind : Nat → Behind) (pids : Nat → Nat) (wa : WorkingArea) (c : Nat)

/-- The request past the tests that all ioctls have in common. -/
def Accesses.command : Request → Code (Except Errno WorkingArea)
  | .connect conx => do
      let res ← Accesses.connect wa conx c
      pure (res.map fun taken => wa.setModule taken.1 taken.2)
  | .disconnect conx =>
    if conx.eqpNum = 0 then do
      let left ← Accesses.disConnectAll behind wa c
      pure (.ok left)
    else do
      let midx := disConnectIndex conx.module
      let left ← Accesses.disConnect (behind midx) midx (wa.moduleContexts midx) c
        conx.eqpNum conx.eqpClass
      pure (.ok (wa.setModule midx left))
  | .setAction act => do
      let res ← Accesses.setAction (wa.selected c) (wa.moduleContexts (wa.selected c)) act
      pure (res.map (wa.setModule (wa.selected c)))
  | .getAction triggerNumber => do
      let res ← Accesses.getAction (wa.selected c) (wa.moduleContexts (wa.selected c))
        triggerNumber
      pure (res.map fun _ => wa)
  | .createPtim ptim => Accesses.createPtim wa ptim
  | .destroyPtim ptim => Accesses.destroyPtim wa ptim
  | .getClientConnections pid => do
      let _ ← Accesses.clientConnections wa pids pid
      pure (.ok wa)
  | .setConfig counter conf => do
      let res ← Accesses.setConfig (wa.selected c) (wa.moduleContexts (wa.selected c))
        counter conf
      pure (res.map (wa.setModule (wa.selected c)))
  | .getConfig counter => do
      let res ← Accesses.getConfig (wa.selected c) (wa.moduleContexts (wa.selected c)) counter
      pure (res.map fun _ => wa)
  | .simulate wb time => Accesses.ctrDrvrWrite wb time wa

/-- `CtrDrvrIoctl()` -/
def Accesses.ioctl (req : Request) : Code (Except Errno WorkingArea) :=
  if CtrDrvrCLIENT_CONTEXTS ≤ c then pure (.error .ENODEV)
  else if (wa.clientContexts c).inUse = false then pure (.error .EBADF)
  else do
    access .moduleContexts (wa.selected c)
    if (wa.moduleContexts (wa.selected c)).inUse = false then pure (.error .ENODEV)
    else if (wa.moduleContexts (wa.selected c)).upLock = true ∧ req.testsLock = true then
      pure (.error .EINVAL)
    else Accesses.command behind pids wa c req

/-- A request of a client: a write does not go through `CtrDrvrIoctl()`. -/
def Accesses.request : Request → Code (Except Errno WorkingArea)
  | .simulate wb time => Accesses.ctrDrvrWrite wb time wa
  | req => Accesses.ioctl behind pids wa c req

end

/-! ## The condition -/

/-- A simulated event is for some client: of the sources of the mask, of the first slot
of the object, or of the slot that is named. -/
def ModuleContext.Simulates (mcon : ModuleContext) (wb : CtrDrvrWriteBuf) : Prop :=
  let conx := wb.connection
  if conx.eqpClass ≠ .HARD then
    if wb.triggerNumber = 0 then
      ∃ t, (mcon.matching conx.eqpNum conx.eqpClass).head? = some t ∧ mcon.clients t ≠ 0
    else mcon.clients (wb.triggerNumber - 1) ≠ 0
  else ∃ s ∈ ModuleContext.sourcesOf conx.eqpNum, mcon.hardClients s ≠ 0

section

variable (mapped : Nat → Bool) (behind : Nat → Behind) (pids : Nat → Nat) (wa : WorkingArea)
  (c : Nat)

/-- The tests that all ioctls have in common let the request through. -/
def Admitted (req : Request) : Prop :=
  c < CtrDrvrCLIENT_CONTEXTS ∧ (wa.clientContexts c).inUse = true ∧
    (wa.moduleContexts (wa.selected c)).inUse = true ∧
    ¬ ((wa.moduleContexts (wa.selected c)).upLock = true ∧ req.testsLock = true)

/-- The event stays inside. -/
def SimulationFits (wb : CtrDrvrWriteBuf) : Prop :=
  let conx := wb.connection
  1 ≤ conx.module ∧ conx.module ≤ CtrDrvrMODULE_CONTEXTS →
    (conx.eqpClass ≠ .HARD → wb.triggerNumber ≤ CtrDrvrRamTableSIZE) ∧
      ((wa.moduleContexts (conx.module - 1)).Simulates wb → OnBoard wa mapped (conx.module - 1))

/-- What the request is for is inside the tables. -/
def Request.Fits : Request → Prop
  | .connect conx => ∀ m, TakesConnection wa conx c m → OnBoard wa mapped m
  | .disconnect conx =>
    if conx.eqpNum = 0 then
      ∀ m < wa.modules, (wa.moduleContexts m).AllFits (OnBoard wa mapped m) (behind m) c
    else
      (1 ≤ conx.module ∧ conx.module ≤ CtrDrvrMODULE_CONTEXTS) ∧
        (wa.moduleContexts (conx.module - 1)).ObjectFits
          (OnBoard wa mapped (conx.module - 1)) (behind (conx.module - 1)) c conx
  | .setAction act =>
    (wa.moduleContexts (wa.selected c)).TakesAction act → OnBoard wa mapped (wa.selected c)
  | .getAction triggerNumber =>
    0 < triggerNumber ∧ triggerNumber ≤ CtrDrvrRamTableSIZE →
      OnBoard wa mapped (wa.selected c)
  | .createPtim _ => True
  | .destroyPtim ptim => GivesPtim wa ptim → OnBoard wa mapped ptim.moduleIndex
  | .getClientConnections pid => (clientConnections wa pids pid).length ≤ CtrDrvrCONNECTIONS
  | .setConfig counter _ => counter ≤ 8 ∧ OnBoard wa mapped (wa.selected c)
  | .getConfig counter => counter ≤ 8 → OnBoard wa mapped (wa.selected c)
  | .simulate wb _ => SimulationFits mapped wa wb

/-- The request is refused before, or fits. -/
def Request.Contained : Request → Prop
  | .simulate wb _ => SimulationFits mapped wa wb
  | req => Admitted wa c req → req.Fits mapped behind pids wa c

end

structure Housed (wa : WorkingArea) : Prop where
  modules : wa.modules ≤ CtrDrvrMODULE_CONTEXTS
  selected : ∀ c, wa.selected c < CtrDrvrMODULE_CONTEXTS
  ptim : ∀ obj ∈ wa.ptim, obj.moduleIndex < wa.modules

section

variable {wa wa' : WorkingArea} {mapped : Nat → Bool} {mcon : ModuleContext}
  {behind : Nat → Behind} {pids : Nat → Nat} {pid i j c m : Nat} {e : Event}
  {conns : List CtrDrvrConnection}

/-! ## Connections -/

theorem Housed.connectModule (h : Housed wa) {conx : CtrDrvrConnection} :
    connectModule wa conx c < CtrDrvrMODULE_CONTEXTS := by
  unfold Ctr.connectModule
  split
  · next hrange => omega
  · exact h.selected c

theorem Housed.getPtimModule (h : Housed wa) {eqpNum : U32}
    (hm : wa.getPtimModule eqpNum = some m) : m < CtrDrvrMODULE_CONTEXTS := by
  obtain ⟨obj, hfind, rfl⟩ := Option.map_eq_some_iff.mp hm
  exact Nat.lt_of_lt_of_le (h.ptim obj (List.mem_of_find?_eq_some hfind)) h.modules

theorem inside_connect (h : Housed wa) {conx : CtrDrvrConnection} :
    Inside (areas wa mapped) (Accesses.connect wa conx c) ↔
      ∀ m, TakesConnection wa conx c m → OnBoard wa mapped m := by
  unfold Accesses.connect TakesConnection
  dsimp only
  rw [inside_bind, inside_moduleContexts, and_iff_right h.connectModule]
  cases hclass : conx.eqpClass with
  | PTIM =>
    cases hptim : wa.getPtimModule conx.eqpNum with
    | none => simp
    | some midx =>
      dsimp only
      rw [inside_bind, and_iff_left (inside_pure _),
        inside_connectPtim (h.getPtimModule hptim)]
      simp
  | CTIM =>
    dsimp only
    rw [inside_bind, and_iff_left (inside_pure _), inside_connectCtim]
    simp
  | HARD =>
    dsimp only
    rw [inside_bind, and_iff_left (inside_pure _), inside_connectHard]
    simp
  | other n =>
    dsimp only
    rw [inside_bind, and_iff_left (inside_pure _), inside_connectHard]
    simp

/-! ## Simulated events -/

theorem written_value {wb : CtrDrvrWriteBuf} :
    (Accesses.written mcon wb).value = mcon.written wb := by
  unfold Accesses.written ModuleContext.written
  dsimp only
  rw [value_ite, value_ite, value_bind, isObject_find, each_value]
  refine if_congr Iff.rfl (if_congr Iff.rfl ?_ rfl) rfl
  cases (mcon.matching wb.connection.eqpNum wb.connection.eqpClass).head? with
  | none => rfl
  | some t => rfl

theorem or_foldl {w : U32} {words : Nat → U32} {is : List Nat} :
    is.foldl (fun w i => w ||| words i) w ≠ 0 ↔ w ≠ 0 ∨ ∃ i ∈ is, words i ≠ 0 := by
  induction is generalizing w with
  | nil => simp
  | cons i is ih =>
    have hor : w ||| words i = 0 ↔ w = 0 ∧ words i = 0 := BitVec.or_eq_zero_iff
    rw [List.foldl_cons, ih, List.exists_mem_cons_iff, ← or_assoc]
    exact or_congr_left ((not_congr hor).trans not_and_or)

theorem written_simulates {wb : CtrDrvrWriteBuf} :
    (mcon.written wb).1 ≠ 0 ↔ mcon.Simulates wb := by
  unfold ModuleContext.written ModuleContext.Simulates
  dsimp only
  split
  · split
    · cases (mcon.matching wb.connection.eqpNum wb.connection.eqpClass).head? with
      | none => simp
      | some t => simp
    · exact Iff.rfl
  · have hfold : ∀ (is : List Nat) (w : U32 × CtrDrvrReadBuf),
        (is.foldl (fun w i => (w.1 ||| mcon.hardClients i,
          { w.2 with interruptNumber := BitVec.ofNat 32 (i + 1) })) w).1 =
          is.foldl (fun w i => w ||| mcon.hardClients i) w.1 := by
      intro is
      induction is with
      | nil => exact fun w => rfl
      | cons i is ih => exact fun w => ih _
    refine Iff.trans (Iff.of_eq (congrArg (· ≠ 0) (hfold _ _))) ?_
    rw [or_foldl]
    exact or_iff_right fun hne => hne rfl

theorem inside_written {wb : CtrDrvrWriteBuf} :
    Inside (areas wa mapped) (Accesses.written mcon wb) ↔
      (wb.connection.eqpClass ≠ .HARD → wb.triggerNumber ≤ CtrDrvrRamTableSIZE) := by
  unfold Accesses.written
  dsimp only
  split
  · next hclass =>
    rw [forall_prop_of_true hclass]
    split
    · next hzero =>
      have hle : wb.triggerNumber ≤ CtrDrvrRamTableSIZE := hzero ▸ Nat.zero_le _
      refine iff_of_true ?_ hle
      rw [inside_bind, and_iff_right inside_findObject, isObject_find]
      split
      · next t ht =>
        have hlt := (head_matching ht).1
        unfold writtenSlot
        simp [hlt]
      · exact inside_pure _
    · next hne =>
      unfold writtenSlot
      simp only [inside_bind, inside_clients, inside_trigs, inside_pure, and_true,
        and_self]
      omega
  · next hclass =>
    refine iff_of_true ?_ fun hne => absurd hne hclass
    refine each_all_inside fun s hs w => ?_
    have hlt := (mem_sourcesOf.mp hs).1
    unfold writtenSource
    simp [hlt]

theorem inside_ctrDrvrWrite {wb : CtrDrvrWriteBuf} {time : CtrDrvrCTime} :
    Inside (areas wa mapped) (Accesses.ctrDrvrWrite wb time wa) ↔
      SimulationFits mapped wa wb := by
  unfold Accesses.ctrDrvrWrite SimulationFits
  dsimp only
  split
  · next hout =>
    refine iff_of_true (inside_pure _) fun hin => ?_
    exact absurd hout (not_or.mpr ⟨by omega, by omega⟩)
  · next hin =>
    obtain ⟨hzero, hle⟩ := not_or.mp hin
    have hmodule : 1 ≤ wb.connection.module ∧
        wb.connection.module ≤ CtrDrvrMODULE_CONTEXTS := by omega
    have hlt : wb.connection.module - 1 < CtrDrvrMODULE_CONTEXTS := by omega
    rw [forall_prop_of_true hmodule, inside_bind, inside_moduleContexts, and_iff_right hlt,
      inside_bind, inside_written]
    refine and_congr_right fun _ => ?_
    rw [written_value, ← written_simulates, inside_ite, inside_bind,
      inside_map (show mapCommand < mapSIZE by decide), and_iff_left (inside_pure _)]
    exact and_iff_right fun _ => inside_pure _

/-! ## The list of connections -/

theorem inside_addConnection {conx : CtrDrvrConnection} :
    Inside (areas wa mapped) (addConnection conns conx) ↔
      (conns ++ [conx]).length ≤ CtrDrvrCONNECTIONS := by
  unfold addConnection
  rw [inside_bind, inside_connections, and_iff_left (inside_pure _), List.length_append]
  exact Iff.rfl

abbrev Lists (wa : WorkingArea) (mapped : Nat → Bool) :
    (List CtrDrvrConnection → Code (List CtrDrvrConnection)) →
      (List CtrDrvrConnection → List CtrDrvrConnection) → Prop :=
  Fills (areas wa mapped) List.length CtrDrvrCONNECTIONS

theorem listSlot_grows {k : Nat} : conns.length ≤ (mcon.listSlot i j conns k).length := by
  unfold ModuleContext.listSlot
  split
  · split
    · exact Nat.le_refl _
    · rw [List.length_append]
      exact Nat.le_add_right _ _
  · exact Nat.le_refl _

theorem isListed_find {k : Nat} :
    (find (isListed mcon k conns) (List.range conns.length)).value.isSome =
      conns.any fun conx => mcon.eqpNum k = conx.eqpNum ∧ mcon.eqpClass k = conx.eqpClass := by
  rw [find_value, Bool.eq_iff_iff, List.find?_isSome, List.any_eq_true]
  unfold isListed
  simp only [value_bind, value_pure, List.mem_range]
  constructor
  · intro ⟨n, hn, hsame⟩
    rw [List.getElem?_eq_getElem hn] at hsame
    exact ⟨conns[n], List.getElem_mem hn, hsame⟩
  · intro ⟨conx, hmem, hsame⟩
    obtain ⟨n, hn, rfl⟩ := List.getElem_of_mem hmem
    refine ⟨n, hn, ?_⟩
    rw [List.getElem?_eq_getElem hn]
    exact hsame

theorem listSlot_lists {k : Nat} (hk : k < CtrDrvrRamTableSIZE) :
    Lists wa mapped (Accesses.listSlot mcon i j · k) (mcon.listSlot i j · k) where
  grows _ := listSlot_grows
  inside conns hroom := by
    have hsearch : Inside (areas wa mapped)
        (find (isListed mcon k conns) (List.range conns.length)) := by
      refine find_inside fun n hn => ?_
      have hlt := Nat.lt_of_lt_of_le (List.mem_range.mp hn) hroom
      unfold isListed
      simp [hlt]
    unfold Accesses.listSlot ModuleContext.listSlot
    rw [if_neg (Nat.not_lt.mpr hroom), inside_bind, inside_clients, and_iff_right hk]
    by_cases hheld : clientMask i &&& mcon.clients k ≠ 0
    · rw [if_pos hheld, if_pos hheld]
      unfold listObject
      rw [inside_bind, inside_eqpNum, and_iff_right hk, inside_bind, inside_eqpClass,
        and_iff_right hk, inside_bind, and_iff_right hsearch, isListed_find]
      split
      · exact iff_of_true (inside_pure _) hroom
      · exact inside_addConnection
    · rw [if_neg hheld, if_neg hheld]
      exact iff_of_true (inside_pure _) hroom
  value conns hle := by
    have hroom := Nat.le_trans listSlot_grows hle
    unfold Accesses.listSlot ModuleContext.listSlot
    rw [if_neg (Nat.not_lt.mpr hroom), value_bind, value_ite]
    refine if_congr Iff.rfl ?_ rfl
    unfold listObject
    rw [value_bind, value_bind, value_bind, isListed_find, value_ite]
    rfl

theorem listSources_lists :
    Lists wa mapped (Accesses.listSources mcon i j) (mcon.listSources i j) := by
  have hsources : Inside (areas wa mapped)
      (each (listSource mcon i) (List.range CtrDrvrInterruptSOURCES) 0) := by
    refine each_all_inside fun s hs w => ?_
    have hlt := List.mem_range.mp hs
    unfold listSource
    simp [hlt]
  have hheld : (each (listSource mcon i) (List.range CtrDrvrInterruptSOURCES) 0).value =
      mcon.heldSources i := each_value
  have hgrows : ∀ conns, conns.length ≤ (mcon.listSources i j conns).length := by
    intro conns
    unfold ModuleContext.listSources
    dsimp only
    split
    · rw [List.length_append]
      exact Nat.le_add_right _ _
    · exact Nat.le_refl _
  refine ⟨hgrows, fun conns hroom => ?_, fun conns hle => ?_⟩
  · unfold Accesses.listSources ModuleContext.listSources
    rw [if_neg (Nat.not_lt.mpr hroom), inside_bind, and_iff_right hsources, hheld]
    dsimp only
    split
    · exact inside_addConnection
    · exact iff_of_true (inside_pure _) hroom
  · have hroom := Nat.le_trans (hgrows conns) hle
    unfold Accesses.listSources ModuleContext.listSources
    rw [if_neg (Nat.not_lt.mpr hroom), value_bind, hheld, value_ite]
    rfl

theorem slots_lists {slots : List Nat} (hslots : ∀ k ∈ slots, k < CtrDrvrRamTableSIZE)
    (hj : j < CtrDrvrMODULE_CONTEXTS) :
    Lists wa mapped
      (fun conns => do
        access .moduleContexts j
        let listed ← each (Accesses.listSlot mcon i j) slots conns
        Accesses.listSources mcon i j listed)
      (fun conns => mcon.listSources i j (slots.foldl (mcon.listSlot i j) conns)) := by
  have hloop : Lists wa mapped (each (Accesses.listSlot mcon i j) slots)
      (slots.foldl (mcon.listSlot i j)) :=
    .each fun k hk => listSlot_lists (hslots k hk)
  exact (hloop.bind listSources_lists).after (inside_moduleContexts.mpr hj)

theorem list_lists (hj : j < CtrDrvrMODULE_CONTEXTS) :
    Lists wa mapped (Accesses.list mcon i j) (mcon.list i j) :=
  slots_lists (fun _ hk => List.mem_range.mp hk) hj

theorem inside_clientConnections :
    Inside (areas wa mapped) (Accesses.clientConnections wa pids pid) ↔
      (clientConnections wa pids pid).length ≤ CtrDrvrCONNECTIONS := by
  have hclients : Lists wa mapped
      (each (fun conns i =>
        if (wa.clientContexts i).inUse = true ∧ pids i = pid then
          each (fun conns j => Accesses.list (wa.moduleContexts j) i j conns)
            (List.range CtrDrvrMODULE_CONTEXTS) conns
        else pure conns) (List.range CtrDrvrCLIENT_CONTEXTS))
      ((List.range CtrDrvrCLIENT_CONTEXTS).foldl (listClient wa pids pid)) := by
    refine .each fun i _ => ?_
    have hmodules : Lists wa mapped
        (each (fun conns j => Accesses.list (wa.moduleContexts j) i j conns)
          (List.range CtrDrvrMODULE_CONTEXTS))
        ((List.range CtrDrvrMODULE_CONTEXTS).foldl
          (fun conns j => (wa.moduleContexts j).list i j conns)) :=
      .each fun j hj => list_lists (List.mem_range.mp hj)
    unfold listClient
    by_cases hown : (wa.clientContexts i).inUse = true ∧ pids i = pid
    · simp only [hown, and_self, if_true]
      exact hmodules
    · simp only [hown, if_false]
      exact .skip
  exact hclients.inside [] (Nat.zero_le _)

/-! ## Where modules are -/

theorem queuePut_moduleIndex {rb : CtrDrvrReadBuf} {ccon : ClientContext} :
    (queuePut rb ccon).moduleIndex = ccon.moduleIndex := by
  unfold queuePut
  dsimp only
  split <;> rfl

theorem next_moduleIndex {e : ClientEvent} {ccon : ClientContext} :
    (ccon.next e).moduleIndex = ccon.moduleIndex := by
  cases e with
  | puts rb => exact queuePut_moduleIndex
  | enters task =>
    simp only [ClientContext.next]
    split <;> rfl
  | arms task started =>
    simp only [ClientContext.next]
    split
    · rfl
    · split <;> rfl
  | waits task =>
    simp only [ClientContext.next, waitStep]
    split <;> rfl
  | looks r =>
    simp only [ClientContext.next]
    split <;> rfl
  | takes r =>
    simp only [ClientContext.next]
    split <;> rfl
  | signalled | aborts | cancels | fires | setsFlag | setsTimeout | readsOverflow => rfl

theorem setClient_selected {c' : Nat} {ccon : ClientContext}
    (h : ccon.moduleIndex = wa.selected c') :
    (wa.setClient c' ccon).selected c = wa.selected c := by
  show (Function.update wa.clientContexts c' ccon c).moduleIndex = _
  by_cases heq : c = c'
  · subst heq
    rw [Function.update_self, h]
  · rw [Function.update_of_ne heq]
    rfl

theorem deliver_selected {w : U32} {rb : CtrDrvrReadBuf} :
    (deliver w rb wa).selected c = wa.selected c := by
  unfold deliver WorkingArea.selected
  dsimp only
  split
  · exact queuePut_moduleIndex
  · rfl

theorem intrHandler_selected {midx : Nat} {raised : Raised} :
    (intrHandler midx raised wa).selected c = wa.selected c := by
  unfold intrHandler
  refine foldl_keeps (P := fun wa' : WorkingArea => wa'.selected c = wa.selected c)
    (fun wa' s _ h => Eq.trans ?_ h) rfl
  unfold intrSource
  exact deliver_selected

theorem setModule_selected {c' : Nat} {lav : Int} (hle : lav ≤ wa.modules) :
    let left := wa.setClient c' { wa.clientContexts c' with moduleIndex := lav.toNat - 1 }
    left.selected c = wa.selected c ∨ left.selected c = 0 ∨ left.selected c < wa.modules := by
  dsimp only
  unfold WorkingArea.selected WorkingArea.setClient
  dsimp only
  by_cases heq : c = c'
  · subst heq
    rw [Function.update_self]
    dsimp only
    omega
  · rw [Function.update_of_ne heq]
    exact .inl rfl

theorem next_selected (h : wa.next e = some wa') : wa'.selected c = wa.selected c ∨
    wa'.selected c = 0 ∨ wa'.selected c < wa.modules := by
  cases e with
  | opens c' =>
    cases h
    unfold WorkingArea.openClient WorkingArea.selected WorkingArea.setClient
    dsimp only
    by_cases heq : c = c'
    · subst heq
      rw [Function.update_self]
      exact .inr (.inl rfl)
    · rw [Function.update_of_ne heq]
      exact .inl rfl
  | reads c' e =>
    cases h
    exact .inl (setClient_selected next_moduleIndex)
  | interrupts midx raised =>
    cases h
    exact .inl intrHandler_selected
  | writes c' wb time =>
    rcases after_eq_some h with hreturns | rfl
    · unfold ctrDrvrWrite at hreturns
      dsimp only at hreturns
      split at hreturns
      · cases hreturns
      split at hreturns
      · cases hreturns
      split at hreturns
      · cases hreturns
        exact .inl rfl
      · cases hreturns
        exact .inl deliver_selected
    · exact .inl rfl
  | closes c' behind =>
    rcases after_eq_some h with hreturns | rfl
    · have hsame := congrArg (fun f => (f c).moduleIndex) (disConnectAll_clients hreturns)
      exact .inl (hsame.trans (setClient_selected rfl))
    · exact .inl rfl
  | ioctl c' cmd behind =>
    rcases after_eq_some h with hreturns | rfl
    · obtain ⟨hadm, hcommand⟩ := ioctl_admits hreturns
      cases hsets : cmd.sets with
      | false =>
        exact .inl (congrArg (fun clients => (clients c).moduleIndex)
          (command_clients hsets hcommand))
      | true =>
        cases cmd with
        | setTimeout | setQueueFlag | getQueueOverflow =>
          cases hcommand
          exact .inl (setClient_selected next_moduleIndex)
        | setModule lav =>
          unfold WorkingArea.command at hcommand
          dsimp only at hcommand
          split at hcommand
          · next hrange =>
            cases hcommand
            exact setModule_selected hrange.2
          · cases hcommand
        | _ => cases hsets
    · exact .inl rfl

theorem change_ptim (h : Change wa e wa') (hptim : ∀ obj ∈ wa.ptim, obj.moduleIndex < wa.modules) :
    wa'.modules = wa.modules ∧ ∀ obj ∈ wa'.ptim, obj.moduleIndex < wa.modules := by
  have hkeep : wa'.modules = wa.modules → wa'.ptim = wa.ptim → wa'.modules = wa.modules ∧
      ∀ obj ∈ wa'.ptim, obj.moduleIndex < wa.modules := by
    intro hmodules hsame
    rw [hsame]
    exact ⟨hmodules, hptim⟩
  cases h with
  | rest hrest => exact hkeep hrest.modules hrest.ptim
  | latches hlatch hone => exact hkeep hone.modules hone.ptim
  | locks hadm hopens hone => exact hkeep hone.modules hone.ptim
  | controls hadm hcontrol hone => exact hkeep hone.modules hone.ptim
  | connects hadm hconnect hin hone => exact hkeep hone.modules hone.ptim
  | disconnects hadm hne hmodule hlt hone => exact hkeep hone.modules hone.ptim
  | leaves hadm hzero hstrays hall => exact hkeep hall.modules hall.ptim
  | closes hlt hopen hstrays hall => exact hkeep hall.modules hall.ptim
  | acts hadm hact hone => exact hkeep hone.modules hone.ptim
  | createsCtim hadm hcreate =>
    rw [(createCtim_ok hcreate).2]
    exact ⟨rfl, hptim⟩
  | destroysCtim hadm hdestroy =>
    rw [(destroyCtim_ok hdestroy).2]
    exact ⟨rfl, hptim⟩
  | changesCtim hadm hchange =>
    rw [(changeCtimFrame_ok hchange).2]
    exact ⟨rfl, hptim⟩
  | createsPtim hadm hcreate =>
    obtain ⟨-, -, hmodule, -, -, heq⟩ := createPtim_ok hcreate
    rw [heq]
    refine ⟨rfl, fun obj hobj => ?_⟩
    rcases List.mem_append.mp hobj with hold | hnew
    · exact hptim obj hold
    · rw [List.mem_singleton.mp hnew]
      exact hmodule
  | destroysPtim hadm hdestroy hin =>
    obtain ⟨-, -, -, heq⟩ := destroyPtim_ok hdestroy
    rw [heq]
    exact ⟨rfl, fun obj hobj => hptim obj (mem_of_swapRemove hobj)⟩

theorem housed_invariant : driver.Invariant Housed where
  init h := by
    refine ⟨h.modules, fun c => ?_, fun obj hobj => ?_⟩
    · unfold WorkingArea.selected
      rw [h.client c]
      decide
    · rw [h.fresh] at hobj
      cases hobj
  step h hstep := by
    obtain ⟨hmodules, hptim⟩ := change_ptim (next_change hstep.1 hstep.2) h.ptim
    refine ⟨hmodules.trans_le h.modules, fun c => ?_, fun obj hobj => ?_⟩
    · rcases @next_selected _ _ c _ hstep.2 with hsame | hzero | hlt
      · rw [hsame]
        exact h.selected c
      · rw [hzero]
        decide
      · exact Nat.lt_of_lt_of_le hlt h.modules
    · rw [hmodules]
      exact hptim obj hobj

/-! ## Requests -/

variable {req : Request} {cmd : Ioctl}

/-- The command of the driver that the request is. -/
def Request.command : Request → Option Ioctl
  | .connect conx => some (.connect conx)
  | .disconnect conx => some (.disconnect conx)
  | .setAction act => some (.setAction act)
  | .createPtim ptim => some (.createPtim ptim)
  | .destroyPtim ptim => some (.destroyPtim ptim)
  | .setConfig counter conf => some (.control (.setConfig counter conf))
  | .getAction _ | .getClientConnections _ | .getConfig _ | .simulate .. => none

theorem allFits_strays (h : mcon.AllFits (OnBoard wa mapped m) (behind m) c) :
    mcon.strays = false := by
  unfold ModuleContext.strays
  rw [List.any_eq_false]
  intro i hi
  have hvisit := h.1 i hi
  intro hstray
  obtain ⟨hge, hclass⟩ := of_decide_eq_true hstray
  rw [hclass] at hvisit
  exact absurd hvisit.1 (Nat.not_lt.mpr hge)

theorem command_outcome (hcmd : req.command = some cmd) (h : req.Fits mapped behind pids wa c) :
    wa.command behind c cmd = .of (Accesses.command behind pids wa c req).value := by
  cases req with
  | getAction | getClientConnections | getConfig | simulate => cases hcmd
  | connect conx =>
    cases hcmd
    have hvalue : (Accesses.command behind pids wa c (.connect conx)).value =
        (Ctr.connect wa conx c).map fun taken => wa.setModule taken.1 taken.2 := by
      rw [← connect_value]
      rfl
    rw [hvalue]
    unfold WorkingArea.command
    dsimp only
    cases hconnect : Ctr.connect wa conx c with
    | error err => rfl
    | ok taken =>
      obtain ⟨midx, mcon⟩ := taken
      dsimp only
      rw [if_pos (h midx (connect_takes hconnect)).1]
      rfl
  | disconnect conx =>
    cases hcmd
    unfold WorkingArea.command Accesses.command
    unfold Request.Fits at h
    dsimp only at h ⊢
    rw [value_ite]
    split
    · next hzero =>
      rw [if_pos hzero] at h
      have hnone : ¬ ((List.range wa.modules).any fun midx =>
          (wa.moduleContexts midx).strays) = true := by
        intro hany
        obtain ⟨midx, hmem, hstray⟩ := List.any_eq_true.mp hany
        rw [allFits_strays (h midx (List.mem_range.mp hmem))] at hstray
        cases hstray
      unfold WorkingArea.disConnectAll
      rw [if_neg hnone, value_bind, disConnectAll_value]
      rfl
    · next hne =>
      rw [if_neg hne] at h
      have hindex : disConnectIndex conx.module = conx.module - 1 := by
        unfold disConnectIndex
        rw [if_neg (by omega)]
      rw [if_pos h.1, hindex, value_bind, disConnect_value]
      rfl
  | setAction act =>
    cases hcmd
    have hvalue : (Accesses.command behind pids wa c (.setAction act)).value =
        ((wa.moduleContexts (wa.selected c)).setAction act).map
          (wa.setModule (wa.selected c)) := by
      rw [← setAction_value]
      rfl
    rw [hvalue]
    rfl
  | createPtim ptim =>
    cases hcmd
    exact congrArg Outcome.of createPtim_value.symm
  | destroyPtim ptim =>
    cases hcmd
    have hvalue : (Accesses.command behind pids wa c (.destroyPtim ptim)).value =
        Ctr.destroyPtim wa ptim := destroyPtim_value
    rw [hvalue]
    unfold WorkingArea.command
    dsimp only
    cases hdestroy : Ctr.destroyPtim wa ptim with
    | error err => rfl
    | ok left =>
      obtain ⟨hmodule, hfree, hsome, -⟩ := destroyPtim_ok hdestroy
      dsimp only
      rw [if_pos (h ⟨hmodule, hsome, hfree⟩).1]
      rfl
  | setConfig counter conf =>
    cases hcmd
    have hvalue : (Accesses.command behind pids wa c (.setConfig counter conf)).value =
        ((wa.moduleContexts (wa.selected c)).setConfig counter conf).map
          (wa.setModule (wa.selected c)) := by
      rw [← @setConfig_value _ (wa.selected c)]
      rfl
    rw [hvalue]
    rfl

theorem inside_command (h : Housed wa) :
    Inside (areas wa mapped) (Accesses.command behind pids wa c req) ↔
      req.Fits mapped behind pids wa c := by
  have hthen : ∀ {α β : Type} {x : Code α} {g : α → β},
      Inside (areas wa mapped) (x >>= fun a => pure (g a)) ↔ Inside (areas wa mapped) x :=
    inside_bind.trans (and_iff_left (inside_pure _))
  cases req with
  | connect conx => exact hthen.trans (inside_connect h)
  | disconnect conx =>
    unfold Accesses.command Request.Fits
    dsimp only
    split
    · exact hthen.trans (inside_disConnectAll h.modules)
    · rw [hthen]
      by_cases hmodule : 1 ≤ conx.module ∧ conx.module ≤ CtrDrvrMODULE_CONTEXTS
      · have hindex : disConnectIndex conx.module = conx.module - 1 := by
          unfold disConnectIndex
          rw [if_neg (by omega)]
        rw [hindex, and_iff_right hmodule]
        exact inside_disConnect (by omega)
      · refine iff_of_false (fun hin => hmodule ?_) fun hand => hmodule hand.1
        have hlt : disConnectIndex conx.module < CtrDrvrMODULE_CONTEXTS := by
          unfold Accesses.disConnect at hin
          exact inside_moduleContexts.mp (inside_bind.mp hin).1
        unfold disConnectIndex CtrDrvrMODULE_CONTEXTS at hlt
        unfold CtrDrvrMODULE_CONTEXTS
        split at hlt <;> omega
  | setAction act => exact hthen.trans inside_setAction
  | getAction triggerNumber => exact hthen.trans inside_getAction
  | createPtim ptim => exact iff_of_true (inside_createPtim h.modules) trivial
  | destroyPtim ptim => exact inside_destroyPtim h.modules
  | getClientConnections pid => exact hthen.trans inside_clientConnections
  | setConfig counter conf => exact hthen.trans inside_setConfig
  | getConfig counter => exact hthen.trans inside_getConfig
  | simulate wb time => exact inside_ctrDrvrWrite

theorem inside_ioctl (h : Housed wa) :
    Inside (areas wa mapped) (Accesses.ioctl behind pids wa c req) ↔
      (Admitted wa c req → req.Fits mapped behind pids wa c) := by
  unfold Accesses.ioctl Admitted
  split
  · next hclient =>
    exact iff_of_true (inside_pure _) fun hadm => absurd hadm.1 (Nat.not_lt.mpr hclient)
  next hclient =>
  split
  · next hclosed =>
    refine iff_of_true (inside_pure _) fun hadm => ?_
    rw [hclosed] at hadm
    cases hadm.2.1
  next hopen =>
  rw [inside_bind, inside_moduleContexts, and_iff_right (h.selected c)]
  split
  · next hempty =>
    refine iff_of_true (inside_pure _) fun hadm => ?_
    rw [hempty] at hadm
    cases hadm.2.2.1
  next hin =>
  split
  · next hlock => exact iff_of_true (inside_pure _) fun hadm => absurd hlock hadm.2.2.2
  next hlock =>
  have hadm : c < CtrDrvrCLIENT_CONTEXTS ∧ (wa.clientContexts c).inUse = true ∧
      (wa.moduleContexts (wa.selected c)).inUse = true ∧
      ¬ ((wa.moduleContexts (wa.selected c)).upLock = true ∧ req.testsLock = true) :=
    ⟨Nat.not_le.mp hclient, Bool.of_not_eq_false hopen, Bool.of_not_eq_false hin, hlock⟩
  rw [inside_command h, forall_prop_of_true hadm]

/-- In every state that the driver reaches a request stays inside the tables, and
touches only modules that are installed and mapped, if and only if it is refused before
or fits. -/
theorem request_inside (h : driver.Reachable wa) :
    Inside (areas wa mapped) (Accesses.request behind pids wa c req) ↔
      req.Contained mapped behind pids wa c := by
  have hhoused := housed_invariant.reachable h
  cases req with
  | simulate wb time => exact inside_ctrDrvrWrite
  | connect | disconnect | setAction | getAction | createPtim | destroyPtim
  | getClientConnections | setConfig | getConfig => exact inside_ioctl hhoused

/-- A client of one module. -/
def openedModule : WorkingArea := oneModule.openClient 0

theorem openedModule_reachable : driver.Reachable openedModule :=
  .step (e := .opens 0) (.init oneModule_installed) ⟨by decide, rfl⟩

theorem request_inside_config : Inside (areas openedModule fun _ => true)
    (Accesses.request (fun _ _ => 0) (fun _ => 0) openedModule 0 (.getConfig 3)) :=
  (request_inside openedModule_reachable).mpr fun _ _ => ⟨rfl, rfl⟩

/-- No module has the number 0. -/
theorem request_escapes : ¬ ∀ (wa : WorkingArea) (mapped : Nat → Bool)
    (behind : Nat → Behind) (pids : Nat → Nat) (c : Nat) (req : Request),
    driver.Reachable wa → (∀ m, (wa.moduleContexts m).inUse = true → mapped m = true) →
    Inside (areas wa mapped) (Accesses.request behind pids wa c req) := by
  intro h
  have hin := h openedModule (fun _ => true) (fun _ _ => 0) (fun _ => 0) 0
    (.disconnect { module := 0, eqpNum := 5, eqpClass := .CTIM }) openedModule_reachable
    fun _ _ => rfl
  have hfits := (inside_ioctl (housed_invariant.reachable openedModule_reachable)).mp hin
  have hadm : Admitted openedModule 0
      (.disconnect { module := 0, eqpNum := 5, eqpClass := .CTIM }) := by
    refine ⟨by decide, rfl, rfl, ?_⟩
    decide
  exact absurd (hfits hadm).1.1 (by decide)

end

end Coht.Ctr
