import Coht.Lib.Fifo
import Coht.Lib.Word
import Coht.Skel.Connections

/-!
# From an interrupt to the reads of the clients (`skeldrvr.c`)

The interrupt handler splits the mask it reads from a module into its bits
and, for each bit in ascending order, puts an event with that one bit on the
queue of every client on its list. A client then reads the events one by one.

A run here connects and disconnects clients, handles interrupts and lets
clients read, without timeouts, resets and queue-off flags. Every client
carries a log of what was put on its queue, what its reads returned and what
the queue lost by overwriting its slots; what it should have been given is
`raised`, which follows from the calls and the interrupts alone.
`events_delivered` compares the two.
-/

namespace Coht.Skel

open Coht.Lib

variable {κ : Type} [DecidableEq κ] {σ : Type}

/-- `put_queues()`, for clients with any state that `put` works on. -/
def putQueues (put : SkelDrvrReadBuf → σ → σ) (rb : SkelDrvrReadBuf)
    (clientList : List κ) (queues : κ → σ) : κ → σ :=
  clientList.foldl (fun q c => Function.update q c (put rb (q c))) queues

/-- The loop of `__fill_clients_queues()` over the first `n` interrupts. -/
def fillClientsQueues (put : SkelDrvrReadBuf → σ → σ)
    (connected : SkelDrvrModConn κ) (rb : SkelDrvrReadBuf) (imask : U32) :
    Nat → (κ → σ) → κ → σ
  | 0, queues => queues
  | i + 1, queues =>
    let queues := fillClientsQueues put connected rb imask i queues
    let interrupt := imask &&& 1#32 <<< i
    if interrupt = 0 ∨ connected.clients i = [] then
      queues
    else
      putQueues put
        { rb with connection := { rb.connection with conMask := interrupt } }
        (connected.clients i) queues

/-- `IntrHandler()` of a module that reports `interrupt` at `time`. -/
def intrHandler (INTERRUPTS : Nat) (put : SkelDrvrReadBuf → σ → σ)
    (mcon : SkelDrvrModuleContext κ) (time : SkelDrvrTime) (interrupt : U32)
    (queues : κ → σ) : κ → σ :=
  if interrupt = 0 then
    queues
  else
    fillClientsQueues put mcon.connected
      ⟨{ module := mcon.moduleNumber }, time⟩ interrupt INTERRUPTS queues

/-- The events an interrupt raises for a client that is connected to the bits
`joined`. -/
def raisedEvents (modnr : U32) (time : SkelDrvrTime) (interrupt : U32)
    (joined : Nat → Bool) (n : Nat) : List SkelDrvrReadBuf :=
  (List.range n).filterMap fun j =>
    if interrupt.getLsbD j = true ∧ joined j = true then
      some ⟨⟨modnr, 1#32 <<< j⟩, time⟩
    else
      none

/-- A client, what happened to its queue, what its reads returned and what it
should be given. -/
structure ClientLog (ι : Type) where
  client : Client ι := {}
  history : List (FifoEvent SkelDrvrReadBuf) := []
  got : List SkelDrvrReadBuf := []
  raised : List SkelDrvrReadBuf := []

/-- `q_put()`, with a note of the entry it writes over. -/
def ClientLog.qPut {ι : Type} (QUEUE_SIZE : Nat) (rb : SkelDrvrReadBuf)
    (log : ClientLog ι) : ClientLog ι :=
  { log with
    client := Skel.qPut QUEUE_SIZE rb log.client
    history := log.history ++
      if log.client.queue.size < QUEUE_SIZE then [.put rb]
      else [.drop (log.client.queue.entries log.client.queue.wrPntr), .put rb] }

/-- A section of a read, with a note of the entry it returns. -/
def ClientLog.reads {ι : Type} (client : Client ι) (log : ClientLog ι) :
    ClientEvent ι → ClientLog ι
  | .takes _ rb =>
    { log with
      client := client
      history := log.history ++ [.take rb]
      got := log.got ++ [rb] }
  | .puts _ | .enters _ | .waits _ | .fails _ | .timesOut _ | .resets
  | .setsFlag _ | .setsTimeout _ => { log with client := client }

/-- The events of a read that neither times out nor finds its queue off. -/
def Undisturbed {ι : Type} : ClientEvent ι → Prop
  | .enters _ | .waits _ | .takes .. | .setsTimeout _ => True
  | .fails r => r.timed = false
  | .puts _ | .timesOut _ | .resets | .setsFlag _ => False

/-- The driver, its clients and who is connected to what by the calls. -/
structure EventRun (κ ι : Type) where
  area : SkelDrvrWorkingArea κ
  logs : κ → ClientLog ι := fun _ => {}
  joined : κ → Nat → Nat → Bool := fun _ _ _ => false

inductive DriverEvent (κ ι : Type)
  | connects (c : κ) (conx : SkelDrvrConnection) (alloc : Nat → Bool)
  | disConnects (c : κ) (conx : SkelDrvrConnection)
  | interrupts (i : Nat) (time : SkelDrvrTime) (interrupt : U32)
  | reads (c : κ) (e : ClientEvent ι)

section Steps

variable {ι : Type} [DecidableEq ι]

/-- One call, interrupt or section of a read. A call says that the client is
connected to the bits it names, except those whose link could not be
allocated, or that it no longer is. -/
inductive DriverStep (INTERRUPTS QUEUE_SIZE : Nat) :
    EventRun κ ι → DriverEvent κ ι → EventRun κ ι → Prop
  | connects {s : EventRun κ ι} (c : κ) (conx : SkelDrvrConnection)
      (alloc : Nat → Bool) :
      DriverStep INTERRUPTS QUEUE_SIZE s (.connects c conx alloc)
        { s with
          area := connect INTERRUPTS alloc c conx s.area
          joined := fun c' i j =>
            if c' = c ∧ conxModule c conx.module s.area = some i ∧
                conx.conMask.getLsbD j = true ∧ alloc j = true
              then true else s.joined c' i j }
  | disConnects {s : EventRun κ ι} (c : κ) (conx : SkelDrvrConnection) :
      DriverStep INTERRUPTS QUEUE_SIZE s (.disConnects c conx)
        { s with
          area := (disConnect INTERRUPTS c conx s.area).1
          joined := fun c' i j =>
            if c' = c ∧ conxModule c conx.module s.area = some i ∧
                (disConnectMask conx.conMask).getLsbD j = true
              then false else s.joined c' i j }
  | interrupts {s : EventRun κ ι} (i : Nat) (time : SkelDrvrTime)
      (interrupt : U32) :
      DriverStep INTERRUPTS QUEUE_SIZE s (.interrupts i time interrupt)
        { s with
          logs := fun c =>
            { intrHandler INTERRUPTS (ClientLog.qPut QUEUE_SIZE)
                (s.area.modules i) time interrupt s.logs c with
              raised := (s.logs c).raised ++
                raisedEvents (s.area.modules i).moduleNumber time interrupt
                  (s.joined c i) INTERRUPTS } }
  | reads {s : EventRun κ ι} (c : κ) {e : ClientEvent ι} {client : Client ι} :
      Undisturbed e →
      ClientStep QUEUE_SIZE (s.logs c).client e client →
      DriverStep INTERRUPTS QUEUE_SIZE s (.reads c e)
        { s with
          logs := Function.update s.logs c ((s.logs c).reads client e) }

/-- Any modules and any clients, at first without connections and events. -/
def eventSystem (INTERRUPTS QUEUE_SIZE : Nat) (κ ι : Type) [DecidableEq κ]
    [DecidableEq ι] : System (EventRun κ ι) (DriverEvent κ ι) where
  init s :=
    (∀ i, (s.area.modules i).connected = {}) ∧
      (∀ c, ∃ timeout, s.logs c = { client := { timeout := timeout } }) ∧
      s.joined = fun _ _ _ => false
  step := DriverStep INTERRUPTS QUEUE_SIZE

end Steps

/-! ## What one interrupt puts on one queue -/

section Interrupts

variable {put : SkelDrvrReadBuf → σ → σ} {rb : SkelDrvrReadBuf}
  {queues : κ → σ} {c : κ}

theorem putQueues_apply {clientList : List κ} (hnodup : clientList.Nodup) :
    putQueues put rb clientList queues c =
      if c ∈ clientList then put rb (queues c) else queues c := by
  induction clientList generalizing queues with
  | nil => rfl
  | cons d rest ih =>
    obtain ⟨hd, hrest⟩ := List.nodup_cons.mp hnodup
    rw [putQueues, List.foldl_cons, ← putQueues, ih hrest]
    by_cases hcd : c = d
    · subst hcd
      rw [Function.update_self, if_neg hd, if_pos List.mem_cons_self]
    · rw [Function.update_of_ne hcd]
      simp only [List.mem_cons, hcd, false_or]

@[simp] theorem raisedEvents_succ {modnr : U32} {time : SkelDrvrTime}
    {interrupt : U32} {joined : Nat → Bool} {n : Nat} :
    raisedEvents modnr time interrupt joined (n + 1) =
      raisedEvents modnr time interrupt joined n ++
        if interrupt.getLsbD n = true ∧ joined n = true
          then [⟨⟨modnr, 1#32 <<< n⟩, time⟩] else [] := by
  unfold raisedEvents
  rw [List.range_succ, List.filterMap_append]
  congr 1
  split <;> simp [*]

theorem fillClientsQueues_apply {connected : SkelDrvrModConn κ} {modnr : U32}
    {time : SkelDrvrTime} {interrupt : U32} {joined : Nat → Bool} {n : Nat}
    (honce : connected.Nodup)
    (hmembers : ∀ j < n, c ∈ connected.clients j ↔ joined j = true) :
    fillClientsQueues put connected ⟨{ module := modnr }, time⟩ interrupt n
        queues c =
      (raisedEvents modnr time interrupt joined n).foldl
        (fun q rb => put rb q) (queues c) := by
  induction n with
  | zero => rfl
  | succ n ih =>
    have ih := ih fun j hj => hmembers j (Nat.lt_succ_of_lt hj)
    have hmem := hmembers n (Nat.lt_succ_self n)
    rw [raisedEvents_succ, List.foldl_append, ← ih, fillClientsQueues]
    simp only [and_one_shiftLeft_eq_zero]
    by_cases hbit : interrupt.getLsbD n = true
    · rw [and_one_shiftLeft hbit]
      by_cases hjoin : joined n = true
      · have hc := hmem.mpr hjoin
        rw [if_neg, putQueues_apply (honce n), if_pos hc,
          if_pos ⟨hbit, hjoin⟩]
        · rfl
        · rintro (hclear | hnil)
          · rw [hbit] at hclear
            cases hclear
          · rw [hnil] at hc
            cases hc
      · have hc : c ∉ connected.clients n := fun hc => hjoin (hmem.mp hc)
        have hnone : ¬ (interrupt.getLsbD n = true ∧ joined n = true) :=
          fun hj => hjoin hj.2
        simp only [hnone, if_false, List.foldl_nil]
        split
        · rfl
        · rw [putQueues_apply (honce n), if_neg hc]
    · have hnone : ¬ (interrupt.getLsbD n = true ∧ joined n = true) :=
        fun hj => hbit hj.1
      simp only [hnone, if_false, List.foldl_nil]
      rw [if_pos (.inl (Bool.not_eq_true _ ▸ hbit))]

theorem raisedEvents_zero {modnr : U32} {time : SkelDrvrTime}
    {joined : Nat → Bool} {n : Nat} :
    raisedEvents modnr time 0 joined n = [] := by
  simp [raisedEvents]

theorem intrHandler_apply {INTERRUPTS : Nat} {mcon : SkelDrvrModuleContext κ}
    {time : SkelDrvrTime} {interrupt : U32} {joined : Nat → Bool}
    (honce : mcon.connected.Nodup)
    (hmembers : ∀ j < INTERRUPTS,
      c ∈ mcon.connected.clients j ↔ joined j = true) :
    intrHandler INTERRUPTS put mcon time interrupt queues c =
      (raisedEvents mcon.moduleNumber time interrupt joined INTERRUPTS).foldl
        (fun q rb => put rb q) (queues c) := by
  unfold intrHandler
  split
  · next hzero =>
    rw [hzero, raisedEvents_zero]
    rfl
  · exact fillClientsQueues_apply honce hmembers

end Interrupts

/-! ## What a log keeps -/

section Logs

variable {ι : Type} {QUEUE_SIZE : Nat} {log : ClientLog ι}
  {pending : List SkelDrvrReadBuf} {rb : SkelDrvrReadBuf}

/-- The queue holds what its history leaves, and the reads and the drops are
the ones of the history. -/
structure Logged (QUEUE_SIZE : Nat) (log : ClientLog ι)
    (pending : List SkelDrvrReadBuf) : Prop where
  follows : Follows QUEUE_SIZE log.client.queue pending
    (log.history.filterMap FifoEvent.dropped?).length
  counts : Counts log.client
  replays : replay log.history [] = some pending
  got : log.history.filterMap FifoEvent.taken? = log.got
  on : log.client.queue.queueOff = false

theorem qPut_queueOff {c : Client ι} :
    (qPut QUEUE_SIZE rb c).queue.queueOff = c.queue.queueOff := by
  by_cases hroom : c.queue.size < QUEUE_SIZE
  · rw [qPut_room hroom]
    rfl
  · rw [qPut_full hroom]

theorem Follows.overwrites {q : SkelDrvrQueue} {overwritten : Nat}
    (h : Follows QUEUE_SIZE q pending overwritten)
    (hfull : ¬ q.size < QUEUE_SIZE) :
    ∃ rest, pending = q.entries q.wrPntr :: rest := by
  have hsize : q.size = QUEUE_SIZE := by
    have := h.bounded
    omega
  have hwrite : q.wrPntr = q.rdPntr := by
    rw [h.write, hsize, Nat.add_mod_right, Nat.mod_eq_of_lt h.read]
  obtain ⟨n, hn⟩ : ∃ n, q.size = n + 1 :=
    ⟨q.size - 1, by have := h.read; omega⟩
  have hpop := held_pop q.entries n h.read
  rw [← hn, h.entries, ← hwrite] at hpop
  exact ⟨_, hpop⟩

theorem Logged.qPut (rb : SkelDrvrReadBuf) (h : Logged QUEUE_SIZE log pending) :
    (∃ pending', Logged QUEUE_SIZE (log.qPut QUEUE_SIZE rb) pending') ∧
      (log.qPut QUEUE_SIZE rb).history.filterMap FifoEvent.put? =
        log.history.filterMap FifoEvent.put? ++ [rb] := by
  have hfollows := qPut_follows rb h.follows
  have hcounts := qPut_counts QUEUE_SIZE rb h.counts
  have hon : (Skel.qPut QUEUE_SIZE rb log.client).queue.queueOff = false :=
    qPut_queueOff.trans h.on
  rw [h.follows.length] at hfollows
  by_cases hroom : log.client.queue.size < QUEUE_SIZE
  · rw [if_pos hroom, if_pos hroom] at hfollows
    have hhist : (log.qPut QUEUE_SIZE rb).history =
        log.history ++ [.put rb] := by
      show log.history ++ (if _ then _ else _) = _
      rw [if_pos hroom]
    refine ⟨⟨pending ++ [rb], ?_, hcounts, ?_, ?_, hon⟩, ?_⟩
    · rw [hhist, List.filterMap_append]
      exact (List.append_nil _).symm ▸ hfollows
    · rw [hhist, replay_append, h.replays]
      rfl
    · rw [hhist, List.filterMap_append]
      exact (List.append_nil _).trans h.got
    · rw [hhist, List.filterMap_append]
      rfl
  · rw [if_neg hroom, if_neg hroom] at hfollows
    obtain ⟨rest, hrest⟩ := h.follows.overwrites hroom
    have hhist : (log.qPut QUEUE_SIZE rb).history =
        log.history ++ [.drop (log.client.queue.entries
          log.client.queue.wrPntr), .put rb] := by
      show log.history ++ (if _ then _ else _) = _
      rw [if_neg hroom]
    refine ⟨⟨pending.tail ++ [rb], ?_, hcounts, ?_, ?_, hon⟩, ?_⟩
    · rw [hhist, List.filterMap_append, List.length_append]
      exact hfollows
    · rw [hhist, replay_append, h.replays, hrest]
      simp [replay]
    · rw [hhist, List.filterMap_append]
      exact (List.append_nil _).trans h.got
    · rw [hhist, List.filterMap_append]
      rfl

theorem Logged.foldl (events : List SkelDrvrReadBuf)
    (h : Logged QUEUE_SIZE log pending) :
    (∃ pending', Logged QUEUE_SIZE
        (events.foldl (fun log rb => log.qPut QUEUE_SIZE rb) log) pending') ∧
      (events.foldl (fun log rb => log.qPut QUEUE_SIZE rb)
          log).history.filterMap FifoEvent.put? =
        log.history.filterMap FifoEvent.put? ++ events := by
  induction events generalizing log pending with
  | nil => exact ⟨⟨pending, h⟩, (List.append_nil _).symm⟩
  | cons rb events ih =>
    obtain ⟨⟨pending', hput⟩, hputs⟩ := h.qPut rb
    obtain ⟨hlogged, htail⟩ := ih hput
    refine ⟨hlogged, ?_⟩
    rw [List.foldl_cons, htail, hputs, List.append_assoc]
    rfl

theorem Logged.calm {e : ClientEvent ι} (overwritten : Nat)
    (h : Logged QUEUE_SIZE log pending) (he : Undisturbed e) :
    Calm ⟨log.client, pending, overwritten⟩ e := by
  cases e with
  | enters i =>
    intro hoff
    change log.client.queue.queueOff = true at hoff
    rw [h.on] at hoff
    cases hoff
  | timesOut r => cases he
  | resets => cases he
  | puts rb => trivial
  | waits i => trivial
  | fails r => trivial
  | takes r rb => trivial
  | setsFlag value => trivial
  | setsTimeout value => trivial

theorem Logged.reads [DecidableEq ι] {e : ClientEvent ι} {client : Client ι}
    (h : Logged QUEUE_SIZE log pending) (he : Undisturbed e)
    (hstep : ClientStep QUEUE_SIZE log.client e client) :
    (∃ pending', Logged QUEUE_SIZE (log.reads client e) pending') ∧
      (log.reads client e).history.filterMap FifoEvent.put? =
        log.history.filterMap FifoEvent.put? := by
  have hcalm := h.calm (log.history.filterMap FifoEvent.dropped?).length he
  have htracks : ∀ p o, (p, o) = _ → Tracks QUEUE_SIZE ⟨client, p, o⟩ :=
    fun p o hacc => Tracks.step ⟨h.follows, h.counts⟩ hcalm ⟨hstep, hacc⟩
  cases hstep with
  | puts rb => cases he
  | timesOut r hr => cases he
  | resets => cases he
  | setsFlag value => cases he
  | enters i =>
    have hoff : ¬ log.client.queue.queueOff = true := by
      rw [h.on]
      exact Bool.false_ne_true
    have hnext := htracks _ _ (if_neg hoff).symm
    rw [if_neg hoff] at hnext ⊢
    exact ⟨⟨pending, hnext.follows, hnext.counts, h.replays, h.got, h.on⟩, rfl⟩
  | waitsNot i hi hdown =>
    have hnext := htracks _ _ rfl
    exact ⟨⟨pending, hnext.follows, hnext.counts, h.replays, h.got, h.on⟩, rfl⟩
  | waits i hi hdown =>
    have hnext := htracks _ _ rfl
    exact ⟨⟨pending, hnext.follows, hnext.counts, h.replays, h.got, h.on⟩, rfl⟩
  | fails r hr =>
    have hnext := htracks _ _ rfl
    exact ⟨⟨pending, hnext.follows, hnext.counts, h.replays, h.got, h.on⟩, rfl⟩
  | setsTimeout value =>
    have hnext := htracks _ _ rfl
    exact ⟨⟨pending, hnext.follows, hnext.counts, h.replays, h.got, h.on⟩, rfl⟩
  | @takes r rb q hr hget =>
    have hsize : 0 < log.client.queue.size := by
      have hpermits := h.counts.permits
      have hlen := List.length_pos_of_mem hr
      omega
    obtain ⟨hhead, -, -⟩ := qGet_follows h.follows hsize hget
    obtain ⟨rest, rfl⟩ := List.head?_eq_some_iff.mp hhead
    have hnext := htracks rest _ rfl
    have hon : q.queueOff = false := by
      unfold qGet at hget
      rw [if_pos hsize] at hget
      cases hget
      exact h.on
    refine ⟨⟨rest, ?_, hnext.counts, ?_, ?_, hon⟩, ?_⟩
    · show Follows QUEUE_SIZE _ rest
        ((log.history ++ [FifoEvent.take rb]).filterMap
          FifoEvent.dropped?).length
      rw [List.filterMap_append]
      exact (List.append_nil _).symm ▸ hnext.follows
    · show replay (log.history ++ [FifoEvent.take rb]) [] = some rest
      rw [replay_append, h.replays]
      simp [replay]
    · show (log.history ++ [FifoEvent.take rb]).filterMap FifoEvent.taken? =
        log.got ++ [rb]
      rw [List.filterMap_append, h.got]
      rfl
    · show (log.history ++ [FifoEvent.take rb]).filterMap FifoEvent.put? = _
      rw [List.filterMap_append]
      exact List.append_nil _

end Logs

section Runs

variable {ι : Type} [DecidableEq ι] {INTERRUPTS QUEUE_SIZE : Nat}
  {s s' : EventRun κ ι} {e : DriverEvent κ ι}

/-- What every step keeps: the lists are the connections the calls made, and
every log is right and was given what was raised. -/
structure Delivers (INTERRUPTS QUEUE_SIZE : Nat) (s : EventRun κ ι) : Prop where
  once : ∀ i, (s.area.modules i).connected.Nodup
  members : ∀ i, ∀ j < INTERRUPTS, ∀ c,
    c ∈ (s.area.modules i).connected.clients j ↔ s.joined c i j = true
  logged : ∀ c, ∃ pending, Logged QUEUE_SIZE (s.logs c) pending
  raised : ∀ c,
    (s.logs c).history.filterMap FifoEvent.put? = (s.logs c).raised

theorem connect_members {c c' : κ} {conx : SkelDrvrConnection}
    {alloc : Nat → Bool} {i j : Nat} {wa : SkelDrvrWorkingArea κ}
    {joined : Bool} (hj : j < INTERRUPTS)
    (h : c' ∈ (wa.modules i).connected.clients j ↔ joined = true) :
    c' ∈ ((connect INTERRUPTS alloc c conx wa).modules i).connected.clients j ↔
      (if c' = c ∧ conxModule c conx.module wa = some i ∧
          conx.conMask.getLsbD j = true ∧ alloc j = true
        then true else joined) = true := by
  rw [connect_connected]
  by_cases hi : conxModule c conx.module wa = some i
  · rw [if_pos hi, connectLoop_clients]
    by_cases hc : c' = c
    · subst hc
      by_cases hmem : c' ∈ (wa.modules i).connected.clients j
      · simp [hmem, h.mp hmem]
      · by_cases hset : conx.conMask.getLsbD j = true
        · by_cases halloc : alloc j = true
          · simp [hmem, hset, halloc, hj, hi]
          · simp [hset, halloc, h]
        · simp [hset, h]
    · split
      · simp [hc, h]
      · simp [hc, h]
  · simp [hi, h]

theorem disConnect_members {c c' : κ} {conx : SkelDrvrConnection} {i j : Nat}
    {wa : SkelDrvrWorkingArea κ} {joined : Bool} (hj : j < INTERRUPTS)
    (honce : (wa.modules i).connected.Nodup)
    (h : c' ∈ (wa.modules i).connected.clients j ↔ joined = true) :
    c' ∈ ((disConnect INTERRUPTS c conx wa).1.modules i).connected.clients j ↔
      (if c' = c ∧ conxModule c conx.module wa = some i ∧
          (disConnectMask conx.conMask).getLsbD j = true
        then false else joined) = true := by
  rw [disConnect_connected]
  by_cases hi : conxModule c conx.module wa = some i
  · rw [if_pos hi, disConnectLoop_clients]
    by_cases hset : (disConnectMask conx.conMask).getLsbD j = true
    · rw [if_pos ⟨hj, hset⟩, (honce j).mem_erase_iff]
      by_cases hc : c' = c <;> simp [hc, hi, hset, h]
    · simp [hset, h]
  · simp [hi, h]

theorem Delivers.step (h : Delivers INTERRUPTS QUEUE_SIZE s)
    (hstep : DriverStep INTERRUPTS QUEUE_SIZE s e s') :
    Delivers INTERRUPTS QUEUE_SIZE s' := by
  cases hstep with
  | connects c conx alloc =>
    refine ⟨?_, ?_, h.logged, h.raised⟩
    · intro i
      show ((connect INTERRUPTS alloc c conx s.area).modules i).connected.Nodup
      rw [connect_connected]
      split
      · intro j
        rw [connectLoop_clients]
        split
        · next hnew => exact List.nodup_cons.mpr ⟨hnew.2.2.1, h.once i j⟩
        · exact h.once i j
      · exact h.once i
    · intro i j hj c'
      exact connect_members hj (h.members i j hj c')
  | disConnects c conx =>
    refine ⟨?_, ?_, h.logged, h.raised⟩
    · intro i
      show ((disConnect INTERRUPTS c conx s.area).1.modules i).connected.Nodup
      rw [disConnect_connected]
      split
      · intro j
        rw [disConnectLoop_clients]
        split
        · exact (h.once i j).erase c
        · exact h.once i j
      · exact h.once i
    · intro i j hj c'
      exact disConnect_members hj (h.once i) (h.members i j hj c')
  | interrupts i time interrupt =>
    have happly : ∀ c, intrHandler INTERRUPTS (ClientLog.qPut QUEUE_SIZE)
        (s.area.modules i) time interrupt s.logs c =
        (raisedEvents (s.area.modules i).moduleNumber time interrupt
          (s.joined c i) INTERRUPTS).foldl
          (fun log rb => log.qPut QUEUE_SIZE rb) (s.logs c) :=
      fun c => intrHandler_apply (h.once i) fun j hj => h.members i j hj c
    refine ⟨h.once, h.members, ?_, ?_⟩
    · intro c
      obtain ⟨pending, hlog⟩ := h.logged c
      obtain ⟨⟨pending', hnext⟩, -⟩ := hlog.foldl
        (raisedEvents (s.area.modules i).moduleNumber time interrupt
          (s.joined c i) INTERRUPTS)
      rw [← happly c] at hnext
      exact ⟨pending', hnext.follows, hnext.counts, hnext.replays, hnext.got,
        hnext.on⟩
    · intro c
      obtain ⟨pending, hlog⟩ := h.logged c
      obtain ⟨-, hputs⟩ := hlog.foldl
        (raisedEvents (s.area.modules i).moduleNumber time interrupt
          (s.joined c i) INTERRUPTS)
      rw [← happly c, h.raised c] at hputs
      exact hputs
  | reads c hquiet hread =>
    obtain ⟨pending, hlog⟩ := h.logged c
    obtain ⟨hnext, hputs⟩ := hlog.reads hquiet hread
    refine ⟨h.once, h.members, ?_, ?_⟩
    · intro d
      show ∃ pending, Logged QUEUE_SIZE (Function.update s.logs c _ d) pending
      by_cases hd : d = c
      · subst hd
        rw [Function.update_self]
        exact hnext
      · rw [Function.update_of_ne hd]
        exact h.logged d
    · intro d
      show (Function.update s.logs c _ d).history.filterMap FifoEvent.put? =
        (Function.update s.logs c _ d).raised
      by_cases hd : d = c
      · subst hd
        rw [Function.update_self, hputs, h.raised d]
        unfold ClientLog.reads
        split <;> rfl
      · rw [Function.update_of_ne hd]
        exact h.raised d

theorem eventSystem_invariant (hN : 0 < QUEUE_SIZE) :
    (eventSystem INTERRUPTS QUEUE_SIZE κ ι).Invariant
      (Delivers INTERRUPTS QUEUE_SIZE) where
  init {s} hs := by
    obtain ⟨hconn, hlogs, hjoined⟩ := hs
    refine ⟨?_, ?_, ?_, ?_⟩
    · intro i j
      rw [hconn]
      exact List.nodup_nil
    · intro i j hj c
      rw [hconn, hjoined]
      simp
    · intro c
      obtain ⟨timeout, hlog⟩ := hlogs c
      rw [hlog]
      exact ⟨[], Follows.cleared hN, ⟨rfl, fun _ => rfl⟩, rfl, rfl, rfl⟩
    · intro c
      obtain ⟨timeout, hlog⟩ := hlogs c
      rw [hlog]
      rfl
  step h hstep := h.step hstep

/-- The entries on a client's queue, oldest first. -/
def ClientLog.queued (QUEUE_SIZE : Nat) (log : ClientLog ι) :
    List SkelDrvrReadBuf :=
  held QUEUE_SIZE log.client.queue.entries log.client.queue.rdPntr
    log.client.queue.size

/-- What happened to the queue of one client, told by its history: the puts are
what was raised for it, the takes are what it read, each entry it took or lost
was the oldest one at that moment, and what it read and what is queued is what
was raised less `Missed` entries. -/
structure Delivered (QUEUE_SIZE : Nat) (log : ClientLog ι) : Prop where
  raised : log.history.filterMap FifoEvent.put? = log.raised
  got : log.history.filterMap FifoEvent.taken? = log.got
  oldest : replay log.history [] = some (log.queued QUEUE_SIZE)
  missed : (log.history.filterMap FifoEvent.dropped?).length =
    log.client.queue.missed.toNat
  order : (log.got ++ log.queued QUEUE_SIZE).Sublist log.raised
  count : log.got.length + log.client.queue.missed.toNat +
    (log.queued QUEUE_SIZE).length = log.raised.length

/-- In every run without timeouts, resets and queue-off flags, a client whose
queue has overwritten fewer than 2 ^ 16 entries has been given exactly what was
raised for it. -/
theorem events_delivered (hN : 0 < QUEUE_SIZE)
    (hs : (eventSystem INTERRUPTS QUEUE_SIZE κ ι).Reachable s) (c : κ)
    (hfew : ((s.logs c).history.filterMap FifoEvent.dropped?).length <
      2 ^ 16) : Delivered QUEUE_SIZE (s.logs c) := by
  have h := (eventSystem_invariant hN).reachable hs
  obtain ⟨pending, hlog⟩ := h.logged c
  have hqueued : (s.logs c).queued QUEUE_SIZE = pending := hlog.follows.entries
  have hmissed : ((s.logs c).history.filterMap FifoEvent.dropped?).length =
      (s.logs c).client.queue.missed.toNat := by
    rw [hlog.follows.missed, BitVec.toNat_ofNat, Nat.mod_eq_of_lt hfew]
  have hall := congrArg List.length (replay_conserves hlog.replays)
  rw [List.nil_append, List.length_append, removed_length, hlog.got,
    h.raised c, hmissed] at hall
  refine ⟨h.raised c, hlog.got, ?_, hmissed, ?_, ?_⟩
  · rw [hqueued]
    exact hlog.replays
  · rw [hqueued, ← hlog.got, ← h.raised c]
    exact replay_sublist hlog.replays
  · rw [hqueued]
    omega

end Runs

/-! ## One interrupt with two bits -/

def listeningArea : SkelDrvrWorkingArea Unit :=
  { installedModules := 1
    modules := fun _ => { moduleNumber := 1 }
    moduleNumber := fun _ => 1 }

theorem events_delivered_twoBits :
    ∃ s : EventRun Unit Unit,
      (s.logs ()).raised = [⟨⟨1, 1⟩, {}⟩, ⟨⟨1, 2⟩, {}⟩] ∧
        Delivered 32 (s.logs ()) := by
  have hinit : (eventSystem 32 32 Unit Unit).Reachable
      { area := listeningArea } :=
    .init ⟨fun _ => rfl, fun _ => ⟨0, rfl⟩, rfl⟩
  have hconnect := hinit.step (DriverStep.connects () ⟨1, 3⟩ fun _ => true)
  have hinterrupt := hconnect.step (DriverStep.interrupts 0 {} 3)
  exact ⟨_, by decide, events_delivered (by decide) hinterrupt () (by decide)⟩

end Coht.Skel
