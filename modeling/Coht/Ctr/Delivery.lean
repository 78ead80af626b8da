import Coht.Ctr.Clients

/-!
# What is put on the queues

`IntrHandler()` and `CtrDrvrWrite()` go over the clients source by source; here
is what they come to for one client. An interrupt gives it a list of entries,
one for each source that is raised and that it is connected to, and a simulated
event gives it one entry or none. Latching the time between two sources changes
nothing that the handler reads of the module for the next one.
-/

namespace Coht.Ctr

open Coht.Lib Coht.Cdcm

/-- Puts, one after the other. -/
def putAll (rbs : List CtrDrvrReadBuf) (ccon : ClientContext) : ClientContext :=
  rbs.foldl (fun ccon rb => queuePut rb ccon) ccon

namespace ModuleContext

variable (mcon : ModuleContext)

def intrEntry (midx : Nat) (raised : Raised) (inum : Nat) : CtrDrvrReadBuf :=
  { mcon.intrBuf midx raised inum with interruptNumber := BitVec.ofNat 32 inum }

/-- What an interrupt puts on the queue of client `c`. -/
def intrEntries (midx : Nat) (raised : Raised) (c : Nat) : List CtrDrvrReadBuf :=
  ((sourcesOf raised.source).filter fun inum =>
    (mcon.intrClients raised inum).getLsbD c).map (mcon.intrEntry midx raised)

def writeEntry (wb : CtrDrvrWriteBuf) (time : CtrDrvrCTime) : CtrDrvrReadBuf :=
  { (mcon.written wb).2 with
    connection := wb.connection
    triggerTime := time
    startTime := time
    onZeroTime := time }

/-- What a simulated event puts on the queue of client `c`. -/
def writeEntries (wb : CtrDrvrWriteBuf) (time : CtrDrvrCTime) (c : Nat) :
    List CtrDrvrReadBuf :=
  if (mcon.written wb).1.getLsbD c then [mcon.writeEntry wb time] else []

end ModuleContext

section

variable {mcon mcon' : ModuleContext} {raised : Raised} {midx inum c t : Nat}
  {wa wa' : WorkingArea} {wb : CtrDrvrWriteBuf} {time : CtrDrvrCTime}

theorem deliver_client {clients : U32} {rb : CtrDrvrReadBuf}
    (hc : c < CtrDrvrCLIENT_CONTEXTS) : (deliver clients rb wa).clientContexts c =
      if clients.getLsbD c then queuePut rb (wa.clientContexts c)
      else wa.clientContexts c := by
  show (if c < CtrDrvrCLIENT_CONTEXTS ∧ clients.getLsbD c = true then _ else _) = _
  by_cases hbit : clients.getLsbD c = true
  · rw [if_pos ⟨hc, hbit⟩, if_pos hbit]
  · rw [if_neg fun hand => hbit hand.2, if_neg hbit]

/-! ## Interrupts -/

theorem at_used {d : Nat} (h : mcon.At d t) : mcon.clients t ≠ 0 := by
  intro hzero
  unfold ModuleContext.At at h
  rw [hzero] at h
  cases (BitVec.getLsbD_zero (w := 32) (i := d)).symm.trans h

theorem latched_lockConfig (h : Latched mcon mcon') :
    mcon'.map (mapLockConfig inum) = mcon.map (mapLockConfig inum) := by
  induction h with
  | none => rfl
  | once _ ih =>
    refine (map_hWr_of_ne ?_).trans ih
    unfold mapLockConfig mapCounters mapCommand
    omega

theorem latched_intr (h : Latched mcon mcon') :
    mcon'.intrClients raised inum = mcon.intrClients raised inum ∧
      mcon'.intrEntry midx raised inum = mcon.intrEntry midx raised inum := by
  have hsame := h.quiet.toSameTables
  have hslot : mcon'.loadedSlot raised inum = mcon.loadedSlot raised inum := by
    unfold ModuleContext.loadedSlot
    rw [latched_lockConfig h, hsame.clients]
  unfold ModuleContext.intrClients ModuleContext.intrEntry ModuleContext.intrBuf
  rw [hslot, hsame.clients, hsame.hardClients, hsame.trigs, hsame.eqpNum, hsame.eqpClass]
  exact ⟨rfl, rfl⟩

theorem intrHandler_client (hc : c < CtrDrvrCLIENT_CONTEXTS) :
    (intrHandler midx raised wa).clientContexts c =
      putAll ((wa.moduleContexts midx).intrEntries midx raised c)
        (wa.clientContexts c) := by
  suffices h : ∀ (sources : List Nat) (wa' : WorkingArea),
      Latched (wa.moduleContexts midx) (wa'.moduleContexts midx) →
      (sources.foldl (intrSource midx raised) wa').clientContexts c =
        putAll ((sources.filter fun inum =>
          ((wa.moduleContexts midx).intrClients raised inum).getLsbD c).map
            ((wa.moduleContexts midx).intrEntry midx raised)) (wa'.clientContexts c) from
    h _ wa .none
  intro sources
  induction sources with
  | nil => exact fun wa' _ => rfl
  | cons inum sources ih =>
    intro wa' hlatch
    have hnext : (intrSource midx raised wa' inum).moduleContexts midx =
        (wa'.moduleContexts midx).intrLatch inum := Function.update_self _ _ _
    have hrest := ih (intrSource midx raised wa' inum) (by
      rw [hnext]
      exact intrLatch_latched inum hlatch)
    have hround : (intrSource midx raised wa' inum).clientContexts c =
        if ((wa.moduleContexts midx).intrClients raised inum).getLsbD c then
          queuePut ((wa.moduleContexts midx).intrEntry midx raised inum)
            (wa'.clientContexts c)
        else wa'.clientContexts c := by
      obtain ⟨hclients, hentry⟩ := @latched_intr _ _ raised midx inum hlatch
      rw [← hclients, ← hentry]
      exact deliver_client hc
    rw [List.foldl_cons, hrest, hround]
    simp only [List.filter_cons]
    split
    · rfl
    · rfl

/-! ## Simulated events -/

theorem ctrDrvrWrite_client (hc : c < CtrDrvrCLIENT_CONTEXTS)
    (h : ctrDrvrWrite wb time wa = .returns wa') : wa'.clientContexts c =
      putAll ((wa.moduleContexts (wb.connection.module - 1)).writeEntries wb time c)
        (wa.clientContexts c) := by
  unfold ctrDrvrWrite at h
  dsimp only at h
  split at h
  · cases h
  split at h
  · cases h
  unfold ModuleContext.writeEntries
  split at h
  · next hnone =>
    cases h
    rw [hnone, if_neg]
    · rfl
    · exact ne_true_of_eq_false BitVec.getLsbD_zero
  · cases h
    refine (deliver_client hc).trans ?_
    split
    · rfl
    · rfl

end

/-!
## Delivery

A run of the driver is, for each client, a row of puts, of sections of reads and
of commands that concern the client (`ClientStep`), and what happens to the
entries of its queue on the way is its `history`. Each of the steps keeps the
ring in order; where it is calm, it keeps the permits in step with the entries
too, so that a read that has come to take finds the oldest entry there is.

A client that is closed has no read in progress, which is why the reset when it
is opened again takes no permit from anyone.
-/

/-- What puts do to the entries of a queue. -/
def putsHappen : List CtrDrvrReadBuf → ClientContext → List (FifoEvent CtrDrvrReadBuf)
  | [], _ => []
  | rb :: rbs, ccon => ccon.happens (.puts rb) ++ putsHappen rbs (queuePut rb ccon)

namespace WorkingArea

variable (wa : WorkingArea)

/-- What a step does to the entries of client `c`. -/
def happens (c : Nat) : Event → List (FifoEvent CtrDrvrReadBuf)
  | .opens c' =>
    if c' = c then (wa.clientContexts c).queue.pending.map .drop else []
  | .reads c' e => if c' = c then (wa.clientContexts c).happens e else []
  | .interrupts midx raised =>
    putsHappen ((wa.moduleContexts midx).intrEntries midx raised c) (wa.clientContexts c)
  | .writes _ wb time =>
    match ctrDrvrWrite wb time wa with
    | .returns _ =>
      putsHappen ((wa.moduleContexts (wb.connection.module - 1)).writeEntries wb time c)
        (wa.clientContexts c)
    | .fails _ | .undefined => []
  | .closes .. | .ioctl .. => []

/-- What the steps of a run do to the entries of client `c`. -/
def history (c : Nat) : List Event → WorkingArea → List (FifoEvent CtrDrvrReadBuf)
  | [], _ => []
  | e :: es, wa => wa.happens c e ++
      match wa.next e with
      | some wa' => history c es wa'
      | none => []

end WorkingArea

/-- The step of a read is calm. -/
def Calm (wa : WorkingArea) : Event → Prop
  | .reads c e => (wa.clientContexts c).calm e
  | _ => True

instance (ccon : ClientContext) (e : ClientEvent) : Decidable (ccon.calm e) :=
  match e with
  | .enters _ => inferInstanceAs (Decidable (_ → _))
  | .fires => inferInstanceAs (Decidable (_ = _))
  | .looks _ => inferInstanceAs (Decidable (_ = _))
  | .puts _ | .arms .. | .waits _ | .signalled _ | .aborts _ | .cancels _ | .takes _
  | .setsFlag _ | .setsTimeout _ | .readsOverflow => .isTrue trivial

instance (wa : WorkingArea) (e : Event) : Decidable (Calm wa e) :=
  match e with
  | .reads c e => inferInstanceAs (Decidable ((wa.clientContexts c).calm e))
  | .opens _ | .closes .. | .ioctl .. | .writes .. | .interrupts .. => .isTrue trivial

def ClientContext.opened (ccon : ClientContext) : ClientContext :=
  ClientContext.sreset
    { inUse := true, semaphore := ccon.semaphore, timers := ccon.timers,
      reads := ccon.reads }

inductive ClientStep (ccon : ClientContext) :
    List (FifoEvent CtrDrvrReadBuf) → ClientContext → Prop
  | same : ClientStep ccon [] ccon
  | opens : ccon.inUse = false →
      ClientStep ccon (ccon.queue.pending.map .drop) ccon.opened
  | closes : ccon.idle = true →
      ClientStep ccon [] { cancelTimeout ccon with inUse := false }
  | selects {midx : Nat} : ClientStep ccon [] { ccon with moduleIndex := midx }
  | does {e : ClientEvent} : ccon.ready e → ccon.calm e →
      (ccon.inUse = false → e.ofRead = true ∧ e.entersRead = false) →
      ClientStep ccon (ccon.happens e) (ccon.next e)
  | puts {rbs : List CtrDrvrReadBuf} :
      ClientStep ccon (putsHappen rbs ccon) (putAll rbs ccon)

section

variable {ccon ccon' : ClientContext} {rbs : List CtrDrvrReadBuf} {wa wa' : WorkingArea}
  {e : Event} {c : Nat} {es : List Event} {fs : List (FifoEvent CtrDrvrReadBuf)}

/-! ### The clients -/

theorem setClient_step {c' : Nat}
    (h : c' = c → ClientStep (wa.clientContexts c) fs ccon) :
    ClientStep (wa.clientContexts c) (if c' = c then fs else [])
      ((wa.setClient c' ccon).clientContexts c) := by
  show ClientStep _ _ (Function.update wa.clientContexts c' ccon c)
  by_cases heq : c' = c
  · subst heq
    rw [if_pos rfl, Function.update_self]
    exact h rfl
  · rw [if_neg heq, Function.update_of_ne (Ne.symm heq)]
    exact .same

theorem setClient_quiet {c' : Nat}
    (h : c' = c → ClientStep (wa.clientContexts c) [] ccon) :
    ClientStep (wa.clientContexts c) [] ((wa.setClient c' ccon).clientContexts c) := by
  have hstep := setClient_step h
  rw [ite_self] at hstep
  exact hstep

theorem onModule_clients {midx : Nat} {mcon : Except Errno ModuleContext}
    (h : wa.onModule midx mcon = .returns wa') : wa'.clientContexts = wa.clientContexts := by
  cases mcon with
  | error err => cases h
  | ok mcon =>
    cases h
    rfl

theorem disConnectAll_clients {behind : Nat → Behind} {c' : Nat}
    (h : wa.disConnectAll behind c' = .returns wa') :
    wa'.clientContexts = wa.clientContexts := by
  rw [(disConnectAll_returns h).2]
  rfl

def Ioctl.sets : Ioctl → Bool
  | .setTimeout _ | .setQueueFlag _ | .getQueueOverflow | .setModule _ => true
  | _ => false

theorem command_clients {behind : Nat → Behind} {c' : Nat} {cmd : Ioctl}
    (hsets : cmd.sets = false) (h : wa.command behind c' cmd = .returns wa') :
    wa'.clientContexts = wa.clientContexts := by
  cases cmd with
  | setTimeout | setQueueFlag | getQueueOverflow | setModule => cases hsets
  | lock | unlock | getUtc | inquiry =>
    cases h
    rfl
  | connect conx =>
    unfold WorkingArea.command at h
    dsimp only at h
    split at h
    · cases h
    split at h
    · cases h
      rfl
    · cases h
  | disconnect conx =>
    unfold WorkingArea.command at h
    dsimp only at h
    split at h
    · exact disConnectAll_clients h
    split at h
    · cases h
      rfl
    · cases h
  | setAction | control => exact onModule_clients h
  | createCtim ctim => rw [(createCtim_ok (of_returns h)).2]
  | destroyCtim ctim => rw [(destroyCtim_ok (of_returns h)).2]
  | changeCtimFrame ctim => rw [(changeCtimFrame_ok (of_returns h)).2]
  | createPtim ptim =>
    rw [(createPtim_ok (of_returns h)).2.2.2.2.2]
    rfl
  | destroyPtim ptim =>
    unfold WorkingArea.command at h
    dsimp only at h
    split at h
    · cases h
    next wa'' hdestroy =>
    split at h
    · cases h
      rw [(destroyPtim_ok hdestroy).2.2.2]
      rfl
    · cases h

theorem command_client {behind : Nat → Behind} {c' : Nat} {cmd : Ioctl}
    (hadm : Admits wa c' cmd) (h : wa.command behind c' cmd = .returns wa') :
    ClientStep (wa.clientContexts c) [] (wa'.clientContexts c) := by
  have hdoes : ∀ e : ClientEvent, (wa.clientContexts c').ready e →
      (wa.clientContexts c').calm e → (wa.clientContexts c').happens e = [] →
      wa.onClient c' e = .returns wa' →
      ClientStep (wa.clientContexts c) [] (wa'.clientContexts c) := by
    intro e hready hcalm hnone hreturns
    cases hreturns
    refine setClient_quiet fun heq => ?_
    subst heq
    rw [← hnone]
    refine .does hready hcalm fun hclosed => ?_
    rw [hadm.open_] at hclosed
    cases hclosed
  cases hsets : cmd.sets with
  | false =>
    rw [command_clients hsets h]
    exact .same
  | true =>
    cases cmd with
    | setTimeout lav => exact hdoes (.setsTimeout lav) trivial trivial rfl h
    | setQueueFlag lav => exact hdoes (.setsFlag lav) trivial trivial rfl h
    | getQueueOverflow => exact hdoes .readsOverflow trivial trivial rfl h
    | setModule lav =>
      unfold WorkingArea.command at h
      dsimp only at h
      split at h
      · cases h
        refine setClient_quiet fun heq => ?_
        subst heq
        exact .selects
      · cases h
    | _ => cases hsets

theorem next_client (hc : c < CtrDrvrCLIENT_CONTEXTS) (hcalm : Calm wa e)
    (hready : wa.ready e) (h : wa.next e = some wa') :
    ClientStep (wa.clientContexts c) (wa.happens c e) (wa'.clientContexts c) := by
  cases e with
  | opens c' =>
    cases h
    refine setClient_step fun heq => ?_
    subst heq
    exact .opens hready.2
  | reads c' e =>
    cases h
    refine setClient_step fun heq => ?_
    subst heq
    refine .does hready.2.2.1 hcalm fun hclosed => ⟨hready.2.1, ?_⟩
    cases henters : e.entersRead with
    | false => rfl
    | true =>
      rw [hready.2.2.2 henters] at hclosed
      cases hclosed
  | interrupts midx raised =>
    cases h
    rw [intrHandler_client hc]
    exact .puts
  | writes c' wb time =>
    have hhappens : wa.happens c (.writes c' wb time) =
        match ctrDrvrWrite wb time wa with
        | .returns _ => putsHappen
            ((wa.moduleContexts (wb.connection.module - 1)).writeEntries wb time c)
            (wa.clientContexts c)
        | .fails _ | .undefined => [] := rfl
    have hafter : (ctrDrvrWrite wb time wa).after wa = some wa' := h
    rw [hhappens]
    cases hwrite : ctrDrvrWrite wb time wa with
    | returns wa'' =>
      rw [hwrite] at hafter
      cases hafter
      rw [ctrDrvrWrite_client hc hwrite]
      exact .puts
    | fails err =>
      rw [hwrite] at hafter
      cases hafter
      exact .same
    | undefined =>
      rw [hwrite] at hafter
      cases hafter
  | closes c' behind =>
    rcases after_eq_some h with hreturns | rfl
    · have hsame := disConnectAll_clients hreturns
      show ClientStep _ [] _
      rw [hsame]
      refine setClient_quiet fun heq => ?_
      subst heq
      exact .closes hready.2.2
    · exact .same
  | ioctl c' cmd behind =>
    rcases after_eq_some h with hreturns | rfl
    · obtain ⟨hadm, hcommand⟩ := ioctl_admits hreturns
      exact command_client hadm hcommand
    · exact .same

/-! ### What every step keeps -/

/-- The ring of a client is in order and its permits are in step, and no read of
a closed one is in progress. -/
structure ClientOk (ccon : ClientContext) : Prop where
  ring : RingOk ccon.queue
  inStep : InStep ccon
  closed : ccon.inUse = false → ccon.reads = [] ∧ ccon.semaphore.waitList = []

theorem idle_iff : ccon.idle = true ↔
    ccon.reads = [] ∧ ccon.semaphore.waitList = [] := by
  unfold ClientContext.idle
  rw [Bool.and_eq_true, List.isEmpty_iff, List.isEmpty_iff]

theorem queuePut_closed {rb : CtrDrvrReadBuf} :
    (queuePut rb ccon).inUse = ccon.inUse ∧
      (ccon.reads = [] ∧ ccon.semaphore.waitList = [] →
        (queuePut rb ccon).reads = [] ∧ (queuePut rb ccon).semaphore.waitList = []) := by
  by_cases hroom : ccon.queue.size < CtrDrvrQUEUE_SIZE
  · rw [queuePut_room hroom]
    refine ⟨rfl, fun ⟨hreads, hwait⟩ => ?_⟩
    simp [ClientContext.ssignal, cdcmUp, hreads, hwait]
  · rw [queuePut_full hroom]
    exact ⟨rfl, id⟩

theorem putAll_ok (h : ClientOk ccon) : ClientOk (putAll rbs ccon) ∧
    replay (putsHappen rbs ccon) ccon.queue.pending =
      some (putAll rbs ccon).queue.pending := by
  induction rbs generalizing ccon with
  | nil => exact ⟨h, rfl⟩
  | cons rb rbs ih =>
    obtain ⟨hring, hreplay⟩ := @queuePut_ring ccon rb h.ring
    obtain ⟨hinUse, hclosed⟩ := @queuePut_closed ccon rb
    obtain ⟨hok, hrest⟩ := @ih (queuePut rb ccon)
      ⟨hring, queuePut_inStep h.inStep, fun hnot => hclosed (h.closed (hinUse ▸ hnot))⟩
    refine ⟨hok, ?_⟩
    show replay (_ ++ putsHappen rbs (queuePut rb ccon)) _ = _
    rw [replay_append, hreplay]
    exact hrest

theorem next_inUse {e : ClientEvent} : (ccon.next e).inUse = ccon.inUse := by
  cases e with
  | puts rb => exact queuePut_closed.1
  | enters task =>
    simp only [ClientContext.next]
    split <;> rfl
  | arms task started =>
    simp only [ClientContext.next]
    split
    · rfl
    · split <;> rfl
  | waits task =>
    simp only [ClientContext.next, waitStep]
    split <;> rfl
  | looks r =>
    simp only [ClientContext.next]
    split <;> rfl
  | takes r =>
    simp only [ClientContext.next]
    split <;> rfl
  | signalled | aborts | cancels | fires | setsFlag | setsTimeout | readsOverflow => rfl

theorem next_closed {e : ClientEvent} (hready : ccon.ready e)
    (hread : e.ofRead = true ∧ e.entersRead = false)
    (h : ccon.reads = [] ∧ ccon.semaphore.waitList = []) :
    (ccon.next e).reads = [] ∧ (ccon.next e).semaphore.waitList = [] := by
  obtain ⟨hreads, hwait⟩ := h
  cases e with
  | puts | setsFlag | setsTimeout | readsOverflow => cases hread.1
  | enters task => cases hread.2
  | arms | waits | aborts =>
    have hmem : _ ∈ ccon.reads := hready
    rw [hreads] at hmem
    cases hmem
  | signalled task =>
    have hmem : task ∈ ccon.semaphore.waitList := hready
    rw [hwait] at hmem
    cases hmem
  | looks r | cancels r | takes r =>
    have hmem := hready.1
    rw [hreads] at hmem
    cases hmem
  | fires =>
    simp [ClientContext.next, readTimeout, ClientContext.sreset, sreset_idle hwait, hreads]

theorem opened_ok (h : ClientOk ccon) (hclosed : ccon.inUse = false) :
    ClientOk ccon.opened ∧
      replay (ccon.queue.pending.map .drop) ccon.queue.pending =
        some ccon.opened.queue.pending := by
  obtain ⟨hreads, -⟩ := h.closed hclosed
  refine ⟨⟨⟨show 0 < CtrDrvrQUEUE_SIZE by decide, rfl, Nat.zero_le _⟩, ?_, ?_⟩,
    replay_drops⟩
  · refine sreset_inStep h.inStep.tight (fun r hr => h.inStep.sound r hr) ?_
    show ccon.reads.countP (·.permit) = 0
    rw [hreads]
    rfl
  · intro hopen
    cases hopen

theorem ClientOk.step (h : ClientOk ccon) (hs : ClientStep ccon fs ccon') :
    ClientOk ccon' ∧ replay fs ccon.queue.pending = some ccon'.queue.pending := by
  cases hs with
  | same => exact ⟨h, rfl⟩
  | opens hclosed => exact opened_ok h hclosed
  | closes hidle =>
    refine ⟨⟨h.ring, ⟨h.inStep.balanced, h.inStep.tight, h.inStep.sound⟩, ?_⟩, rfl⟩
    exact fun _ => idle_iff.mp hidle
  | selects =>
    exact ⟨⟨h.ring, ⟨h.inStep.balanced, h.inStep.tight, h.inStep.sound⟩, h.closed⟩, rfl⟩
  | does hready hcalm hread =>
    obtain ⟨hring, hreplay⟩ := ring_step h.ring
    refine ⟨⟨hring, inStep_step h.inStep hready hcalm, fun hnot => ?_⟩, hreplay⟩
    rw [next_inUse] at hnot
    exact next_closed hready (hread hnot) (h.closed hnot)
  | puts => exact putAll_ok h

/-! ### Runs -/

theorem Installed.client (h : Installed wa) (c : Nat) : wa.clientContexts c = {} :=
  congrArg (fun wa => wa.clientContexts c) h.fresh

theorem client_fresh : ClientOk {} where
  ring := ⟨show 0 < CtrDrvrQUEUE_SIZE by decide, rfl, Nat.zero_le _⟩
  inStep := ⟨rfl, fun _ => rfl, fun r hr => by cases hr⟩
  closed _ := ⟨rfl, rfl⟩

theorem run_clients (h : (driver.guarded Calm).Run wa es wa')
    (hc : c < CtrDrvrCLIENT_CONTEXTS) (hok : ClientOk (wa.clientContexts c)) :
    ClientOk (wa'.clientContexts c) ∧
      replay (WorkingArea.history c es wa) (wa.clientContexts c).queue.pending =
        some (wa'.clientContexts c).queue.pending := by
  induction h with
  | nil wa => exact ⟨hok, rfl⟩
  | @cons wa wa'' wa' e es hstep hrest ih =>
    obtain ⟨hcalm, hready, hnext⟩ := hstep
    obtain ⟨hok', hreplay⟩ := hok.step (next_client hc hcalm hready hnext)
    obtain ⟨hokend, hreplayend⟩ := ih hok'
    have hhistory : WorkingArea.history c (e :: es) wa =
        wa.happens c e ++ WorkingArea.history c es wa'' := by
      show wa.happens c e ++ _ = _
      rw [hnext]
    refine ⟨hokend, ?_⟩
    rw [hhistory, replay_append, hreplay]
    exact hreplayend

/-! ### Interrupts -/

/-- The client is connected to the slot that the history of the counter names,
or to the source itself. -/
def ModuleContext.Concerns (mcon : ModuleContext) (raised : Raised) (c s : Nat) : Prop :=
  (s < CtrDrvrCOUNTERS ∧ (raised.history s).index < CtrDrvrRamTableSIZE ∧
    mcon.At c (raised.history s).index) ∨ mcon.AtSource c s

instance (mcon : ModuleContext) (c i : Nat) : Decidable (mcon.At c i) :=
  inferInstanceAs (Decidable (_ = _))

instance (mcon : ModuleContext) (c s : Nat) : Decidable (mcon.AtSource c s) :=
  inferInstanceAs (Decidable (_ = _))

instance (mcon : ModuleContext) (raised : Raised) (c s : Nat) :
    Decidable (mcon.Concerns raised c s) :=
  inferInstanceAs (Decidable (_ ∨ _))

theorem intrClients_concerns {mcon : ModuleContext} {raised : Raised} {s : Nat}
    (hlocks : ∀ k < CtrDrvrCOUNTERS, mcon.map (mapLockConfig k) = 0) :
    (mcon.intrClients raised s).getLsbD c = decide (mcon.Concerns raised c s) := by
  refine (Bool.eq_iff_iff).mpr (Iff.trans ?_ decide_eq_true_iff.symm)
  unfold ModuleContext.intrClients ModuleContext.Concerns
  by_cases hloaded : s < CtrDrvrCOUNTERS ∧ (raised.history s).index < CtrDrvrRamTableSIZE ∧
      mcon.clients (raised.history s).index ≠ 0
  · obtain ⟨hs, hindex, hused⟩ := hloaded
    have hslot : mcon.loadedSlot raised s = some (raised.history s).index :=
      if_pos ⟨hs, hlocks s hs, hindex, hused⟩
    rw [hslot]
    dsimp only
    rw [BitVec.getLsbD_or, Bool.or_eq_true]
    exact or_congr_left ⟨fun hat => ⟨hs, hindex, hat⟩, fun hand => hand.2.2⟩
  · have hslot : mcon.loadedSlot raised s = none :=
      if_neg fun hand => hloaded ⟨hand.1, hand.2.2.1, hand.2.2.2⟩
    rw [hslot]
    exact (or_iff_right fun hand =>
      hloaded ⟨hand.1, hand.2.1, at_used hand.2.2⟩).symm

theorem intrEntries_concerns {mcon : ModuleContext} {raised : Raised} {midx : Nat}
    (hlocks : ∀ k < CtrDrvrCOUNTERS, mcon.map (mapLockConfig k) = 0) :
    mcon.intrEntries midx raised c =
      ((ModuleContext.sourcesOf raised.source).filter fun s =>
        mcon.Concerns raised c s).map (mcon.intrEntry midx raised) := by
  unfold ModuleContext.intrEntries
  rw [List.filter_congr fun s _ => intrClients_concerns hlocks]

/-- What a client gets in a run, and what its queue is then. -/
structure Delivers (wa₀ wa : WorkingArea) (es : List Event) (c : Nat) : Prop where
  bounded : (wa.clientContexts c).queue.size ≤ CtrDrvrQUEUE_SIZE
  pointers : (wa.clientContexts c).queue.wrPntr =
    ((wa.clientContexts c).queue.rdPntr + (wa.clientContexts c).queue.size) %
      CtrDrvrQUEUE_SIZE
  permits : (wa.clientContexts c).semaphore.count + (wa.clientContexts c).permits =
    (wa.clientContexts c).queue.size
  fifo : replay (WorkingArea.history c es wa₀) [] =
    some (wa.clientContexts c).queue.pending
  oldest : ∀ r, (wa.clientContexts c).ready (.takes r) →
    ∃ rb rest, (wa.clientContexts c).queue.pending = rb :: rest ∧
      (wa.clientContexts c).takeResult = .ok rb
  exactly : ∀ midx raised,
    (∀ k < CtrDrvrCOUNTERS, (wa.moduleContexts midx).map (mapLockConfig k) = 0) →
    (intrHandler midx raised wa).clientContexts c =
      putAll (((ModuleContext.sourcesOf raised.source).filter fun s =>
        (wa.moduleContexts midx).Concerns raised c s).map
          ((wa.moduleContexts midx).intrEntry midx raised)) (wa.clientContexts c)

/-- In every run of calm steps every client gets an entry for each interrupt that
concerns it, and its reads take them in order. -/
theorem run_delivers (hinit : Installed wa) (h : (driver.guarded Calm).Run wa es wa')
    (hc : c < CtrDrvrCLIENT_CONTEXTS) : Delivers wa wa' es c := by
  have hfresh := hinit.client c
  obtain ⟨hok, hreplay⟩ := run_clients h hc (by
    rw [hfresh]
    exact client_fresh)
  rw [hfresh] at hreplay
  refine ⟨hok.ring.bounded, hok.ring.write, hok.inStep.balanced, hreplay,
    fun r hready => ?_, fun midx raised hlocks => ?_⟩
  · obtain ⟨-, hsize⟩ := hok.inStep.takes hready.1 hready.2
    obtain ⟨-, hpending⟩ := hok.ring.get hsize
    exact ⟨_, _, hpending, if_neg hsize⟩
  · rw [intrHandler_client hc, intrEntries_concerns hlocks]

end

/-- A client connects to source 0 and waits for it with a timer, and the source
interrupts. -/
def wokenEvents : List Event :=
  [.opens 0, .ioctl 0 (.connect ⟨1, .HARD, 1⟩) fun _ _ => 0, .reads 0 (.enters 5),
    .reads 0 (.arms 5 true), .reads 0 (.waits 5), .interrupts 0 { source := 1 }]

/-- The read goes on until it is about to take. -/
def takingEvents : List Event :=
  wokenEvents ++ [.reads 0 (.looks ⟨5, .awake, true⟩),
    .reads 0 (.cancels ⟨5, .cancelling, true⟩)]

theorem run_delivers_taking : ∃ wa : WorkingArea,
    (wa.clientContexts 0).queue.size = 1 ∧
      (wa.clientContexts 0).ready (.takes ⟨5, .taking, true⟩) ∧
      Delivers oneModule wa takingEvents 0 := by
  have hruns : (oneModule.run Calm takingEvents).any (fun wa =>
      (wa.clientContexts 0).queue.size = 1 ∧
        (wa.clientContexts 0).ready (.takes ⟨5, .taking, true⟩)) = true := by
    decide +kernel
  obtain ⟨wa, hrun, hsize, hready⟩ := exists_run hruns
  exact ⟨wa, hsize, hready, run_delivers oneModule_installed (run_run hrun) (by decide)⟩

/-- There is another interrupt, and the timer runs out before the read that was
woken looks at it. -/
def lateEvents : List Event :=
  wokenEvents ++ [.interrupts 0 { source := 1 }, .reads 0 .fires]

/-- The permit of the second entry is lost. -/
theorem permit_lost : ¬ ∀ (wa : WorkingArea) (es : List Event) (c : Nat),
    driver.Run oneModule es wa → c < CtrDrvrCLIENT_CONTEXTS →
    Delivers oneModule wa es c := by
  intro h
  have hruns : (oneModule.run (fun _ _ => True) lateEvents).any (fun wa =>
      (wa.clientContexts 0).semaphore.count = 0 ∧ (wa.clientContexts 0).permits = 1 ∧
        (wa.clientContexts 0).queue.size = 2) = true := by
    decide +kernel
  obtain ⟨wa, hrun, hcount, hpermits, hsize⟩ := exists_run hruns
  have hbalanced := (h wa _ 0 (run_run hrun).of_guarded (by decide)).permits
  rw [hcount, hpermits, hsize] at hbalanced
  cases hbalanced

end Coht.Ctr
