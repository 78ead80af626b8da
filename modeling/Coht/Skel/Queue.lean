import Coht.Lib.System
import Coht.Lib.Fifo
import Coht.Cdcm.Semaphore

/-!
# The event queue of a client (`skeldrvr.c`)

Every client of the driver has a ring of `SkelDrvrQUEUE_SIZE` events that the
interrupt handler fills and `SkelDrvrRead()` empties, and a semaphore that is
signalled once for each entry that makes the queue longer. A read is three
critical sections with a wait between them: it resets the queue if the queue
is off, waits on the semaphore, and takes an entry; a wait with a timeout that
fails runs `client_timeout()` instead of taking an entry. Any number of reads
of one client may be in progress, and every section of every read is a step of
its own here, as are interrupts, resets and the two ioctls that change the
queue flag and the timeout.

`pending` and `overwritten` of `QueueRun` are not fields of the driver: they
are what the events alone say about the queue, a list to which an event is
appended and from which the oldest one is dropped when there is no room.

`client_timeout()` empties the queue without touching the semaphore or the
pointers, and `sreset()` lets waiting reads through as if they had a permit.
`Calm` is the condition under which neither does harm; `queue_consistent` is
about the runs whose steps are calm, `not_queue_balanced` is the shortest
other one.
-/

namespace Coht.Skel

open Coht.Lib Coht.Cdcm

abbrev U32 := BitVec 32

structure SkelDrvrConnection where
  module : U32 := 0
  conMask : U32 := 0
  deriving DecidableEq, Repr

structure SkelDrvrTime where
  second : U32 := 0
  nanoSecond : U32 := 0
  deriving DecidableEq, Repr

structure SkelDrvrReadBuf where
  connection : SkelDrvrConnection := {}
  time : SkelDrvrTime := {}
  deriving DecidableEq, Repr

structure SkelDrvrQueue where
  queueOff : Bool := false
  missed : BitVec 16 := 0
  size : Nat := 0
  rdPntr : Nat := 0
  wrPntr : Nat := 0
  entries : Nat → SkelDrvrReadBuf := fun _ => {}

/-- A read that has reached its wait, with whether the wait has a timeout. -/
structure Reader (ι : Type) where
  task : ι
  timed : Bool
  deriving DecidableEq, Repr

/-- The fields of `SkelDrvrClientContext` that the queue works on, and the
reads in progress by the section they have reached: about to wait, past the
semaphore, and about to run `client_timeout()`. -/
structure Client (ι : Type) where
  queue : SkelDrvrQueue := {}
  semaphore : CdcmSem (Reader ι) := {}
  timeout : U32 := 0
  entered : List ι := []
  admitted : List (Reader ι) := []
  timedOut : List (Reader ι) := []

section Functions

variable {ι : Type} (QUEUE_SIZE : Nat)

/-- `ssignal(&ccon->Semaphore)`: a read that is woken goes on to take an
entry. -/
def Client.ssignal (ccon : Client ι) : Client ι :=
  { ccon with
    semaphore := (cdcmUp ccon.semaphore).2
    admitted := ccon.admitted ++ (cdcmUp ccon.semaphore).1 }

/-- `sreset(&ccon->Semaphore)`: so does every read that is woken by it. -/
def Client.sreset (ccon : Client ι) : Client ι :=
  { ccon with
    semaphore := (Cdcm.sreset ccon.semaphore).2
    admitted := ccon.admitted ++ (Cdcm.sreset ccon.semaphore).1 }

/-- `__q_put()` -/
def qPut (rb : SkelDrvrReadBuf) (ccon : Client ι) : Client ι :=
  let q := { ccon.queue with
    entries := Function.update ccon.queue.entries ccon.queue.wrPntr rb
    wrPntr := (ccon.queue.wrPntr + 1) % QUEUE_SIZE }
  if q.size < QUEUE_SIZE then
    Client.ssignal { ccon with queue := { q with size := q.size + 1 } }
  else
    { ccon with
      queue := { q with
        missed := q.missed + 1
        rdPntr := (q.rdPntr + 1) % QUEUE_SIZE } }

/-- `client_timeout()` -/
def clientTimeout (ccon : Client ι) : Client ι :=
  { ccon with queue := { ccon.queue with size := 0, missed := 0 } }

/-- `__reset_queue()` -/
def resetQueue (ccon : Client ι) : Client ι :=
  Client.sreset
    { ccon with
      queue := { ccon.queue with size := 0, rdPntr := 0, wrPntr := 0, missed := 0 } }

/-- `__q_get()`, which returns an entry of zeros when there is none. -/
def qGet (q : SkelDrvrQueue) : SkelDrvrReadBuf × SkelDrvrQueue :=
  if 0 < q.size then
    (q.entries q.rdPntr,
      { q with rdPntr := (q.rdPntr + 1) % QUEUE_SIZE, size := q.size - 1 })
  else
    ({}, q)

end Functions

/-! ## One section at a time

`Balanced` is the relation that the indices, the size and the semaphore should
keep. `Follows` and `Counts` say a little more: that the ring holds a given
list, and that no task waits while a permit is free. -/

section Sections

variable {ι : Type}

/-- No read waits on the semaphore or is past it. -/
def Quiet (c : Client ι) : Prop :=
  c.semaphore.waitList = [] ∧ c.admitted = []

/-- The relation between the indices, the size and the semaphore: the free
permits are the entries less the permits of reads that have not yet taken
their entry. -/
structure Balanced (QUEUE_SIZE : Nat) (c : Client ι) : Prop where
  bounded : c.queue.size ≤ QUEUE_SIZE
  pointers : c.queue.rdPntr + c.queue.size ≡ c.queue.wrPntr [MOD QUEUE_SIZE]
  permits : c.semaphore.count + c.admitted.length = c.queue.size

structure Follows (QUEUE_SIZE : Nat) (q : SkelDrvrQueue)
    (pending : List SkelDrvrReadBuf) (overwritten : Nat) : Prop where
  read : q.rdPntr < QUEUE_SIZE
  write : q.wrPntr = (q.rdPntr + q.size) % QUEUE_SIZE
  bounded : q.size ≤ QUEUE_SIZE
  entries : held QUEUE_SIZE q.entries q.rdPntr q.size = pending
  missed : q.missed = BitVec.ofNat 16 overwritten

structure Counts (c : Client ι) : Prop where
  permits : c.semaphore.count + c.admitted.length = c.queue.size
  tight : c.semaphore.Tight

variable {QUEUE_SIZE : Nat} {q q' : SkelDrvrQueue} {c : Client ι}
  {pending : List SkelDrvrReadBuf} {overwritten : Nat} {rb : SkelDrvrReadBuf}

theorem Follows.length (h : Follows QUEUE_SIZE q pending overwritten) :
    pending.length = q.size := by
  rw [← h.entries, length_held]

theorem Follows.cleared {entries : Nat → SkelDrvrReadBuf} {off : Bool}
    (hN : 0 < QUEUE_SIZE) :
    Follows QUEUE_SIZE
      { queueOff := off, missed := 0, size := 0, rdPntr := 0, wrPntr := 0,
        entries := entries } [] 0 where
  read := hN
  write := (Nat.zero_mod _).symm
  bounded := Nat.zero_le _
  entries := rfl
  missed := rfl

theorem qPut_room (h : c.queue.size < QUEUE_SIZE) :
    qPut QUEUE_SIZE rb c = Client.ssignal
      { c with
        queue := { c.queue with
          entries := Function.update c.queue.entries c.queue.wrPntr rb
          wrPntr := (c.queue.wrPntr + 1) % QUEUE_SIZE
          size := c.queue.size + 1 } } :=
  if_pos h

theorem qPut_full (h : ¬ c.queue.size < QUEUE_SIZE) :
    qPut QUEUE_SIZE rb c =
      { c with
        queue := { c.queue with
          entries := Function.update c.queue.entries c.queue.wrPntr rb
          wrPntr := (c.queue.wrPntr + 1) % QUEUE_SIZE
          missed := c.queue.missed + 1
          rdPntr := (c.queue.rdPntr + 1) % QUEUE_SIZE } } :=
  if_neg h

theorem qPut_follows (rb : SkelDrvrReadBuf)
    (h : Follows QUEUE_SIZE c.queue pending overwritten) :
    Follows QUEUE_SIZE (qPut QUEUE_SIZE rb c).queue
      (if pending.length < QUEUE_SIZE then pending ++ [rb]
        else pending.tail ++ [rb])
      (if pending.length < QUEUE_SIZE then overwritten else overwritten + 1) := by
  have hpos : 0 < QUEUE_SIZE := Nat.zero_lt_of_lt h.read
  rw [h.length]
  by_cases hroom : c.queue.size < QUEUE_SIZE
  · rw [qPut_room hroom, if_pos hroom, if_pos hroom]
    refine ⟨h.read, ?_, hroom, ?_, h.missed⟩
    · show (c.queue.wrPntr + 1) % QUEUE_SIZE = _
      rw [h.write, Nat.mod_add_mod, Nat.add_assoc]
      rfl
    · show held QUEUE_SIZE (Function.update c.queue.entries c.queue.wrPntr rb)
        c.queue.rdPntr (c.queue.size + 1) = _
      rw [h.write, held_push _ _ _ hroom, h.entries]
  · have hsize : c.queue.size = QUEUE_SIZE := by
      have := h.bounded
      omega
    have hwrite : c.queue.wrPntr = c.queue.rdPntr := by
      rw [h.write, hsize, Nat.add_mod_right, Nat.mod_eq_of_lt h.read]
    rw [qPut_full hroom, if_neg hroom, if_neg hroom]
    refine ⟨Nat.mod_lt _ hpos, ?_, h.bounded, ?_, ?_⟩
    · show (c.queue.wrPntr + 1) % QUEUE_SIZE =
        ((c.queue.rdPntr + 1) % QUEUE_SIZE + c.queue.size) % QUEUE_SIZE
      rw [hwrite, hsize, Nat.add_mod_right, Nat.mod_mod]
    · show held QUEUE_SIZE (Function.update c.queue.entries c.queue.wrPntr rb)
        ((c.queue.rdPntr + 1) % QUEUE_SIZE) c.queue.size = _
      rw [← h.entries, hwrite, hsize, held_overwrite h.read]
    · show c.queue.missed + 1 = _
      rw [h.missed, BitVec.ofNat_add]
      rfl

theorem qGet_follows (h : Follows QUEUE_SIZE q pending overwritten)
    (hsize : 0 < q.size) (hget : qGet QUEUE_SIZE q = (rb, q')) :
    pending.head? = some rb ∧
      Follows QUEUE_SIZE q' pending.tail overwritten ∧
      q'.size + 1 = q.size := by
  obtain ⟨n, hn⟩ : ∃ n, q.size = n + 1 := ⟨q.size - 1, by omega⟩
  have hpop := held_pop q.entries n h.read
  rw [← hn, h.entries] at hpop
  unfold qGet at hget
  rw [if_pos hsize] at hget
  cases hget
  refine ⟨by rw [hpop]; rfl, ⟨?_, ?_, ?_, ?_, h.missed⟩, ?_⟩
  · exact Nat.mod_lt _ (Nat.zero_lt_of_lt h.read)
  · show q.wrPntr = ((q.rdPntr + 1) % QUEUE_SIZE + (q.size - 1)) % QUEUE_SIZE
    rw [h.write, hn, Nat.mod_add_mod, Nat.add_sub_cancel, Nat.add_right_comm,
      Nat.add_assoc]
  · show q.size - 1 ≤ QUEUE_SIZE
    have := h.bounded
    omega
  · show held QUEUE_SIZE q.entries ((q.rdPntr + 1) % QUEUE_SIZE) (q.size - 1) = _
    rw [hpop, hn, Nat.add_sub_cancel, List.tail_cons]
  · show q.size - 1 + 1 = q.size
    omega

theorem ssignal_permits :
    c.ssignal.semaphore.count + c.ssignal.admitted.length =
      c.semaphore.count + c.admitted.length + 1 := by
  have h := cdcmUp_permits c.semaphore
  show (cdcmUp c.semaphore).2.count +
    (c.admitted ++ (cdcmUp c.semaphore).1).length = _
  rw [List.length_append]
  omega

theorem qPut_counts (QUEUE_SIZE : Nat) (rb : SkelDrvrReadBuf) (h : Counts c) :
    Counts (qPut QUEUE_SIZE rb c) := by
  by_cases hroom : c.queue.size < QUEUE_SIZE
  · rw [qPut_room hroom]
    exact ⟨ssignal_permits.trans (congrArg (· + 1) h.permits),
      cdcmUp_tight h.tight⟩
  · rw [qPut_full hroom]
    exact ⟨h.permits, h.tight⟩

theorem resetQueue_counts (h : Quiet c) : Counts (resetQueue c) := by
  have hreset := sreset_idle h.1
  constructor
  · show (Cdcm.sreset c.semaphore).2.count +
      (c.admitted ++ (Cdcm.sreset c.semaphore).1).length = 0
    rw [hreset, h.2]
    rfl
  · show (Cdcm.sreset c.semaphore).2.Tight
    rw [hreset]
    intro _
    rfl

theorem clientTimeout_follows
    (h : Follows QUEUE_SIZE c.queue pending overwritten)
    (hempty : c.queue.size = 0) :
    Follows QUEUE_SIZE (clientTimeout c).queue [] 0 where
  read := h.read
  write := by
    have hw := h.write
    rw [hempty] at hw
    exact hw
  bounded := Nat.zero_le _
  entries := rfl
  missed := rfl

theorem Follows.balanced (h : Follows QUEUE_SIZE c.queue pending overwritten)
    (hc : Counts c) : Balanced QUEUE_SIZE c where
  bounded := h.bounded
  pointers := by
    rw [h.write]
    exact (Nat.mod_modEq _ _).symm
  permits := hc.permits

end Sections

/-- What happens to a client's queue. -/
inductive ClientEvent (ι : Type)
  | puts (rb : SkelDrvrReadBuf)
  | enters (i : ι)
  | waits (i : ι)
  /-- `tswait()` or `swait()` returns an error. -/
  | fails (r : Reader ι)
  | timesOut (r : Reader ι)
  /-- `q_get()` hands `rb` to the read. -/
  | takes (r : Reader ι) (rb : SkelDrvrReadBuf)
  | resets
  | setsFlag (value : Bool)
  | setsTimeout (value : U32)

section Steps

variable {ι : Type} [DecidableEq ι]

/-- One critical section. -/
inductive ClientStep (QUEUE_SIZE : Nat) :
    Client ι → ClientEvent ι → Client ι → Prop
  | puts {c : Client ι} (rb : SkelDrvrReadBuf) :
      ClientStep QUEUE_SIZE c (.puts rb) (qPut QUEUE_SIZE rb c)
  | enters {c : Client ι} (i : ι) :
      ClientStep QUEUE_SIZE c (.enters i)
        { (if c.queue.queueOff then resetQueue c else c) with
          entered := i :: c.entered }
  | waitsNot {c : Client ι} (i : ι) {sem : CdcmSem (Reader ι)} :
      i ∈ c.entered →
      cdcmDown ⟨i, c.timeout != 0⟩ c.semaphore = (true, sem) →
      ClientStep QUEUE_SIZE c (.waits i)
        { c with
          entered := c.entered.erase i
          semaphore := sem
          admitted := c.admitted ++ [⟨i, c.timeout != 0⟩] }
  | waits {c : Client ι} (i : ι) {sem : CdcmSem (Reader ι)} :
      i ∈ c.entered →
      cdcmDown ⟨i, c.timeout != 0⟩ c.semaphore = (false, sem) →
      ClientStep QUEUE_SIZE c (.waits i)
        { c with entered := c.entered.erase i, semaphore := sem }
  | fails {c : Client ι} (r : Reader ι) :
      r ∈ c.semaphore.waitList →
      ClientStep QUEUE_SIZE c (.fails r)
        { c with
          semaphore := downFails r c.semaphore
          timedOut := if r.timed then r :: c.timedOut else c.timedOut }
  | timesOut {c : Client ι} (r : Reader ι) :
      r ∈ c.timedOut →
      ClientStep QUEUE_SIZE c (.timesOut r)
        { clientTimeout c with timedOut := c.timedOut.erase r }
  | takes {c : Client ι} (r : Reader ι) {rb : SkelDrvrReadBuf}
      {q : SkelDrvrQueue} :
      r ∈ c.admitted →
      qGet QUEUE_SIZE c.queue = (rb, q) →
      ClientStep QUEUE_SIZE c (.takes r rb)
        { c with queue := q, admitted := c.admitted.erase r }
  | resets {c : Client ι} :
      ClientStep QUEUE_SIZE c .resets (resetQueue c)
  | setsFlag {c : Client ι} (value : Bool) :
      ClientStep QUEUE_SIZE c (.setsFlag value)
        { c with queue := { c.queue with queueOff := value } }
  | setsTimeout {c : Client ι} (value : U32) :
      ClientStep QUEUE_SIZE c (.setsTimeout value) { c with timeout := value }

/-- A client with what the events before say its queue holds and how many
entries were overwritten since it was last cleared. -/
structure QueueRun (ι : Type) where
  client : Client ι := {}
  pending : List SkelDrvrReadBuf := []
  overwritten : Nat := 0

/-- What an event does to the list of pending entries. -/
def accounts (QUEUE_SIZE : Nat) (s : QueueRun ι) :
    ClientEvent ι → List SkelDrvrReadBuf × Nat
  | .puts rb =>
    if s.pending.length < QUEUE_SIZE then (s.pending ++ [rb], s.overwritten)
    else (s.pending.tail ++ [rb], s.overwritten + 1)
  | .takes .. => (s.pending.tail, s.overwritten)
  | .timesOut _ | .resets => ([], 0)
  | .enters _ =>
    if s.client.queue.queueOff then ([], 0) else (s.pending, s.overwritten)
  | .waits _ | .fails _ | .setsFlag _ | .setsTimeout _ =>
    (s.pending, s.overwritten)

/-- A client context after `client_init()`, under any order of events. -/
def queueSystem (QUEUE_SIZE : Nat) (ι : Type) [DecidableEq ι] :
    System (QueueRun ι) (ClientEvent ι) where
  init s := ∃ timeout, s = { client := { timeout := timeout } }
  step s e s' :=
    ClientStep QUEUE_SIZE s.client e s'.client ∧
      (s'.pending, s'.overwritten) = accounts QUEUE_SIZE s e

/-- `client_timeout()` runs on an empty queue, and `__reset_queue()` while no
read is at or past the semaphore. -/
def Calm (s : QueueRun ι) : ClientEvent ι → Prop
  | .timesOut _ => s.client.queue.size = 0
  | .resets => Quiet s.client
  | .enters _ => s.client.queue.queueOff = true → Quiet s.client
  | .puts _ | .waits _ | .fails _ | .takes .. | .setsFlag _ | .setsTimeout _ =>
    True

section Runs

variable {QUEUE_SIZE : Nat} {s s' : QueueRun ι} {e : ClientEvent ι}

/-- The driver's queue is the list the events describe, and the semaphore
counts it. -/
structure Tracks (QUEUE_SIZE : Nat) (s : QueueRun ι) : Prop where
  follows : Follows QUEUE_SIZE s.client.queue s.pending s.overwritten
  counts : Counts s.client

theorem Tracks.step (h : Tracks QUEUE_SIZE s) (hcalm : Calm s e)
    (hstep : (queueSystem QUEUE_SIZE ι).step s e s') : Tracks QUEUE_SIZE s' := by
  obtain ⟨client', pending', overwritten'⟩ := s'
  obtain ⟨hstep, hacc⟩ := hstep
  have hpos : 0 < QUEUE_SIZE := Nat.zero_lt_of_lt h.follows.read
  change ClientStep QUEUE_SIZE s.client e client' at hstep
  change (pending', overwritten') = _ at hacc
  cases hstep with
  | puts rb =>
    have hput := qPut_follows rb h.follows
    have hcounts := qPut_counts QUEUE_SIZE rb h.counts
    change _ = if _ then _ else _ at hacc
    split at hacc
    · next hroom =>
      cases hacc
      rw [if_pos hroom, if_pos hroom] at hput
      exact ⟨hput, hcounts⟩
    · next hfull =>
      cases hacc
      rw [if_neg hfull, if_neg hfull] at hput
      exact ⟨hput, hcounts⟩
  | enters i =>
    change _ = if _ then _ else _ at hacc
    split at hacc
    · next hoff =>
      cases hacc
      rw [if_pos hoff]
      have hcounts := resetQueue_counts (hcalm hoff)
      exact ⟨Follows.cleared hpos, hcounts.permits, hcounts.tight⟩
    · next hon =>
      cases hacc
      rw [if_neg hon]
      exact ⟨h.follows, h.counts.permits, h.counts.tight⟩
  | @waitsNot i sem hi hdown =>
    cases hacc
    refine ⟨h.follows, ?_, ?_⟩
    · have htrue := cdcmDown_true hdown
      have hpermits := h.counts.permits
      show sem.count + (s.client.admitted ++ [_]).length = s.client.queue.size
      rw [List.length_append, List.length_singleton]
      omega
    · have htight := cdcmDown_tight ⟨i, s.client.timeout != 0⟩
        h.counts.tight
      rw [hdown] at htight
      exact htight
  | @waits i sem hi hdown =>
    cases hacc
    refine ⟨h.follows, ?_, ?_⟩
    · show sem.count + s.client.admitted.length = s.client.queue.size
      rw [cdcmDown_false hdown]
      exact h.counts.permits
    · have htight := cdcmDown_tight ⟨i, s.client.timeout != 0⟩
        h.counts.tight
      rw [hdown] at htight
      exact htight
  | fails r hr =>
    cases hacc
    exact ⟨h.follows, h.counts.permits, downFails_tight h.counts.tight⟩
  | timesOut r hr =>
    cases hacc
    refine ⟨clientTimeout_follows h.follows hcalm, ?_, h.counts.tight⟩
    have hpermits := h.counts.permits
    change s.client.queue.size = 0 at hcalm
    rw [hcalm] at hpermits
    exact hpermits
  | @takes r rb q hr hget =>
    cases hacc
    have hlen : (s.client.admitted.erase r).length + 1 =
        s.client.admitted.length := by
      rw [List.length_erase_of_mem hr]
      have := List.length_pos_of_mem hr
      omega
    have hpermits := h.counts.permits
    have hsize : 0 < s.client.queue.size := by omega
    obtain ⟨-, hfollows, hq⟩ := qGet_follows h.follows hsize hget
    refine ⟨hfollows, ?_, h.counts.tight⟩
    show s.client.semaphore.count + (s.client.admitted.erase r).length = q.size
    omega
  | resets =>
    cases hacc
    exact ⟨Follows.cleared hpos, resetQueue_counts hcalm⟩
  | setsFlag value =>
    cases hacc
    obtain ⟨hr, hw, hb, he, hm⟩ := h.follows
    exact ⟨⟨hr, hw, hb, he, hm⟩, h.counts.permits, h.counts.tight⟩
  | setsTimeout value =>
    cases hacc
    exact ⟨h.follows, h.counts.permits, h.counts.tight⟩

theorem queueSystem_invariant (hN : 0 < QUEUE_SIZE) :
    ((queueSystem QUEUE_SIZE ι).guarded Calm).Invariant (Tracks QUEUE_SIZE) where
  init {s} hs := by
    obtain ⟨timeout, rfl⟩ := hs
    exact ⟨Follows.cleared hN, rfl, fun _ => rfl⟩
  step h hstep := h.step hstep.1 hstep.2

/-- In every run with calm timeouts and resets the indices, the size and the
semaphore keep their relation, `missed` counts what was overwritten, and a read
past the semaphore finds the oldest entry that is still pending. -/
theorem queue_consistent (hN : 0 < QUEUE_SIZE)
    (hs : ((queueSystem QUEUE_SIZE ι).guarded Calm).Reachable s) :
    Balanced QUEUE_SIZE s.client ∧
      s.client.queue.missed = BitVec.ofNat 16 s.overwritten ∧
      (∀ r ∈ s.client.admitted, 0 < s.client.queue.size) ∧
      ∀ r rb c', ClientStep QUEUE_SIZE s.client (.takes r rb) c' →
        s.pending.head? = some rb := by
  have h := (queueSystem_invariant hN).reachable hs
  have hfinds : ∀ r ∈ s.client.admitted, 0 < s.client.queue.size := by
    intro r hr
    have hpermits := h.counts.permits
    have hlen := List.length_pos_of_mem hr
    omega
  refine ⟨h.follows.balanced h.counts, h.follows.missed, hfinds, ?_⟩
  intro r rb c' hstep
  cases hstep with
  | takes _ hr hget => exact (qGet_follows h.follows (hfinds r hr) hget).1

end Runs

end Steps

/-! ## Two short runs

Both start with a read that waits with a timeout. In the first an interrupt
wakes it. In the second the wait fails, and an interrupt queues its event
before the callback runs. -/

def someEvent : SkelDrvrReadBuf := ⟨⟨1, 1⟩, ⟨0, 0⟩⟩

def freshClient : QueueRun Unit := { client := { timeout := 2000 } }

def waitingClient : QueueRun Unit :=
  { client :=
    { timeout := 2000, semaphore := { waitList := [⟨(), true⟩] } } }

theorem waitingClient_reachable :
    ((queueSystem 32 Unit).guarded Calm).Reachable waitingClient := by
  have hinit : ((queueSystem 32 Unit).guarded Calm).Reachable freshClient :=
    .init ⟨2000, rfl⟩
  have hcalm : Calm freshClient (.enters ()) := fun hoff => nomatch hoff
  have henter : ((queueSystem 32 Unit).guarded Calm).Reachable
      { client := { timeout := 2000, entered := [()] } } :=
    hinit.step (e := .enters ()) ⟨hcalm, .enters (), rfl⟩
  exact henter.step (e := .waits ()) ⟨trivial, .waits () (.head _) rfl, rfl⟩

/-- The event has been queued and the read is past the semaphore. -/
def wokenClient : QueueRun Unit :=
  { client := qPut 32 someEvent waitingClient.client, pending := [someEvent] }

theorem queue_consistent_wokenClient :
    Balanced 32 wokenClient.client ∧
      wokenClient.client.queue.missed =
        BitVec.ofNat 16 wokenClient.overwritten ∧
      (∀ r ∈ wokenClient.client.admitted, 0 < wokenClient.client.queue.size) ∧
      ∀ r rb c', ClientStep 32 wokenClient.client (.takes r rb) c' →
        wokenClient.pending.head? = some rb :=
  queue_consistent (by decide)
    (waitingClient_reachable.step (e := .puts someEvent)
      ⟨trivial, .puts someEvent, rfl⟩)

theorem not_queue_balanced :
    ¬ ∀ s, (queueSystem 32 Unit).Reachable s → Balanced 32 s.client := by
  intro hall
  have hinit : (queueSystem 32 Unit).Reachable freshClient := .init ⟨2000, rfl⟩
  have henter : (queueSystem 32 Unit).Reachable
      { client := { timeout := 2000, entered := [()] } } :=
    hinit.step (e := .enters ()) ⟨.enters (), rfl⟩
  have hwait : (queueSystem 32 Unit).Reachable waitingClient :=
    henter.step (e := .waits ()) ⟨.waits () (.head _) rfl, rfl⟩
  have hfail : (queueSystem 32 Unit).Reachable
      { client := { timeout := 2000, timedOut := [⟨(), true⟩] } } :=
    hwait.step (e := .fails ⟨(), true⟩) ⟨.fails _ (.head _), rfl⟩
  have hput : (queueSystem 32 Unit).Reachable
      ⟨qPut 32 someEvent { timeout := 2000, timedOut := [⟨(), true⟩] },
        [someEvent], 0⟩ :=
    hfail.step (e := .puts someEvent) ⟨.puts someEvent, rfl⟩
  have htimeout : (queueSystem 32 Unit).Reachable
      ⟨{ clientTimeout (qPut 32 someEvent
          { timeout := 2000, timedOut := [⟨(), true⟩] }) with timedOut := [] },
        [], 0⟩ :=
    hput.step (e := .timesOut ⟨(), true⟩) ⟨.timesOut _ (.head _), rfl⟩
  exact absurd (hall _ htimeout).permits (by decide)

end Coht.Skel
