import Coht.Ctr.ModuleContext
import Coht.Lib.Fifo
import Coht.Cdcm.Semaphore

/-!
# The queue of a client (`ctrdrvr-vme.c`)

`IntrHandler()` and `CtrDrvrWrite()` put entries on the queue of a client, a
ring of `CtrDrvrQUEUE_SIZE` that overwrites its oldest entry, and signal its
semaphore for each one that makes the queue longer. `CtrDrvrRead()` is a row
of sections: it resets a queue that is off, starts a timer, waits on the
semaphore, looks at `ccon->Timer`, cancels the timer, and takes. Nothing keeps
two tasks from reading one client, so any number of reads may be in progress;
they share the one `ccon->Timer`.

`ReadTimeout()` resets the semaphore and leaves the queue alone, and a read
that finds `ccon->Timer` cleared gives up, whether or not it has a permit.
`Read.permit` says whether a read has a permit, which a read that `sreset()`
woke has not. `Calm` is the condition under which permits and entries stay in
step.
-/

namespace Coht.Ctr

open Coht.Lib Coht.Cdcm

def CtrDrvrQUEUE_SIZE : Nat := 64
def CtrDrvrDEFAULT_TIMEOUT : U32 := 2000

structure CtrDrvrConnection where
  module : Nat := 0
  eqpClass : CtrDrvrConnectionClass := .HARD
  eqpNum : U32 := 0
  deriving DecidableEq

structure CtrDrvrCTime where
  ctrain : U32 := 0
  second : U32 := 0
  ticksHPTDC : U32 := 0
  deriving DecidableEq

structure CtrDrvrReadBuf where
  connection : CtrDrvrConnection := {}
  triggerNumber : Nat := 0
  interruptNumber : U32 := 0
  ctim : U32 := 0
  frame : CtrDrvrEventFrame := {}
  triggerTime : CtrDrvrCTime := {}
  startTime : CtrDrvrCTime := {}
  onZeroTime : CtrDrvrCTime := {}
  deriving DecidableEq

structure CtrDrvrQueue where
  queueOff : Bool := false
  missed : BitVec 16 := 0
  size : Nat := 0
  rdPntr : Nat := 0
  wrPntr : Nat := 0
  entries : Nat → CtrDrvrReadBuf := fun _ => {}

/-- `ccon->Timer`: zero, the timer that was started last, or the `SYSERR` that
`timeout()` returns when there is none left. The field is unsigned, so the test
for a negative value misses the last. -/
inductive Timer
  | none | running | refused
  deriving DecidableEq

/-- Where a read is that does not wait: about to start its timer, about to
wait, interrupted in its wait, past it, and after the look at `ccon->Timer`
about to cancel the timer or to take. -/
inductive Section
  | entered | armed | aborted | awake | cancelling | taking
  deriving DecidableEq

structure Read where
  task : Nat
  place : Section
  permit : Bool := false
  deriving DecidableEq

/-- `CtrDrvrClientContext`, its reads, and the timers that were started for it
and have neither run nor been cancelled. The reads that wait are on the
semaphore. -/
structure ClientContext where
  inUse : Bool := false
  moduleIndex : Nat := 0
  timeout : U32 := CtrDrvrDEFAULT_TIMEOUT
  timer : Timer := .none
  semaphore : CdcmSem Nat := {}
  queue : CtrDrvrQueue := {}
  timers : Nat := 0
  reads : List Read := []

inductive Errno
  | EINVAL | ENODEV | EBADF | EFAULT | EBUSY | ENOMEM | ENXIO | EINTR | ETIME
  deriving DecidableEq

def ClientContext.ssignal (ccon : ClientContext) : ClientContext :=
  { ccon with
    semaphore := (cdcmUp ccon.semaphore).2
    reads := ccon.reads ++
      (cdcmUp ccon.semaphore).1.map fun task => ⟨task, .awake, true⟩ }

/-- The reads that are woken go on without a permit. -/
def ClientContext.sreset (ccon : ClientContext) : ClientContext :=
  { ccon with
    semaphore := (Cdcm.sreset ccon.semaphore).2
    reads := ccon.reads ++
      (Cdcm.sreset ccon.semaphore).1.map fun task => ⟨task, .awake, false⟩ }

/-- The critical section of `IntrHandler()` and `CtrDrvrWrite()`. -/
def queuePut (rb : CtrDrvrReadBuf) (ccon : ClientContext) : ClientContext :=
  let queue := { ccon.queue with
    entries := Function.update ccon.queue.entries ccon.queue.wrPntr rb
    wrPntr := (ccon.queue.wrPntr + 1) % CtrDrvrQUEUE_SIZE }
  if queue.size < CtrDrvrQUEUE_SIZE then
    ClientContext.ssignal { ccon with queue := { queue with size := queue.size + 1 } }
  else
    { ccon with queue := { queue with
      missed := queue.missed + 1
      rdPntr := (queue.rdPntr + 1) % CtrDrvrQUEUE_SIZE } }

def CtrDrvrQueue.get (queue : CtrDrvrQueue) : CtrDrvrReadBuf × CtrDrvrQueue :=
  (queue.entries queue.rdPntr,
    { queue with
      rdPntr := (queue.rdPntr + 1) % CtrDrvrQUEUE_SIZE
      size := queue.size - 1 })

def queueReset (ccon : ClientContext) : ClientContext :=
  ClientContext.sreset { ccon with
    queue := { ccon.queue with size := 0, missed := 0, wrPntr := 0, rdPntr := 0 } }

def readTimeout (ccon : ClientContext) : ClientContext :=
  ClientContext.sreset { ccon with timer := .none }

/-- `CancelTimeout(&ccon->Timer)`: the timer that was started last. -/
def cancelTimeout (ccon : ClientContext) : ClientContext :=
  { ccon with
    timer := .none
    timers := if ccon.timer = .running then ccon.timers - 1 else ccon.timers }

/-! ## Steps -/

inductive ClientEvent
  | puts (rb : CtrDrvrReadBuf)
  | enters (task : Nat)
  /-- `started`: there was a timer left -/
  | arms (task : Nat) (started : Bool)
  | waits (task : Nat)
  /-- a signal to the process ends its wait -/
  | signalled (task : Nat)
  | aborts (task : Nat)
  | looks (r : Read)
  | cancels (r : Read)
  | takes (r : Read)
  | fires
  | setsFlag (value : Bool)
  | setsTimeout (value : U32)
  /-- `CtrDrvrGET_QUEUE_OVERFLOW` -/
  | readsOverflow

/-- The step is the next one of the read, or one that may come at any time. -/
def ClientContext.ready (ccon : ClientContext) : ClientEvent → Prop
  | .arms task _ => ⟨task, .entered, false⟩ ∈ ccon.reads
  | .waits task => ⟨task, .armed, false⟩ ∈ ccon.reads
  | .signalled task => task ∈ ccon.semaphore.waitList
  | .aborts task => ⟨task, .aborted, false⟩ ∈ ccon.reads
  | .looks r => r ∈ ccon.reads ∧ r.place = .awake
  | .cancels r => r ∈ ccon.reads ∧ r.place = .cancelling
  | .takes r => r ∈ ccon.reads ∧ r.place = .taking
  | .fires => 0 < ccon.timers
  | .puts _ | .enters _ | .setsFlag _ | .setsTimeout _ | .readsOverflow => True

instance (ccon : ClientContext) (e : ClientEvent) : Decidable (ccon.ready e) :=
  match e with
  | .arms .. | .waits _ | .signalled _ | .aborts _ =>
    inferInstanceAs (Decidable (_ ∈ _))
  | .looks _ | .cancels _ | .takes _ => inferInstanceAs (Decidable (_ ∧ _))
  | .fires => inferInstanceAs (Decidable (_ < _))
  | .puts _ | .enters _ | .setsFlag _ | .setsTimeout _ | .readsOverflow =>
    inferInstanceAs (Decidable True)

/-- The read goes from one section to the next. -/
def ClientContext.move (ccon : ClientContext) (r : Read) (s : Section) :
    ClientContext :=
  { ccon with reads := { r with place := s } :: ccon.reads.erase r }

def ClientContext.leave (ccon : ClientContext) (r : Read) : ClientContext :=
  { ccon with reads := ccon.reads.erase r }

/-- The read that looks goes on; otherwise it returns `ETIME`. -/
def ClientContext.goesOn (ccon : ClientContext) : Bool :=
  ccon.timeout = 0 ∨ ccon.timer ≠ .none

/-- `swait()` up to where the task would sleep. -/
def waitStep (task : Nat) (ccon : ClientContext) : ClientContext :=
  let r : Read := ⟨task, .armed, false⟩
  match cdcmDown task ccon.semaphore with
  | (true, sem) =>
    { ccon with
      semaphore := sem
      reads := ⟨task, .awake, true⟩ :: ccon.reads.erase r }
  | (false, sem) => { ccon with semaphore := sem, reads := ccon.reads.erase r }

def ClientContext.next (ccon : ClientContext) : ClientEvent → ClientContext
  | .puts rb => queuePut rb ccon
  | .enters task =>
    let ccon := if ccon.queue.queueOff then queueReset ccon else ccon
    { ccon with reads := ⟨task, .entered, false⟩ :: ccon.reads }
  | .arms task started =>
    let ccon := ccon.move ⟨task, .entered, false⟩ .armed
    if ccon.timeout = 0 then ccon
    else if started then
      { ccon with timer := .running, timers := ccon.timers + 1 }
    else { ccon with timer := .refused }
  | .waits task => waitStep task ccon
  | .signalled task =>
    { ccon with
      semaphore := downFails task ccon.semaphore
      reads := ⟨task, .aborted, false⟩ :: ccon.reads }
  | .aborts task => cancelTimeout (ccon.leave ⟨task, .aborted, false⟩)
  | .looks r =>
    if ccon.goesOn then
      ccon.move r (if ccon.timeout = 0 then .taking else .cancelling)
    else ccon.leave r
  | .cancels r => cancelTimeout (ccon.move r .taking)
  | .takes r =>
    let ccon := ccon.leave r
    if ccon.queue.size = 0 then ccon else { ccon with queue := ccon.queue.get.2 }
  | .fires => readTimeout { ccon with timers := ccon.timers - 1 }
  | .setsFlag value => { ccon with queue := { ccon.queue with queueOff := value } }
  | .setsTimeout value => { ccon with timeout := value }
  | .readsOverflow => { ccon with queue := { ccon.queue with missed := 0 } }

/-- What `CtrDrvrRead()` comes back with from its last section. -/
def ClientContext.takeResult (ccon : ClientContext) :
    Except Errno CtrDrvrReadBuf :=
  if ccon.queue.size = 0 then .error .EINTR else .ok ccon.queue.get.1

/-! ## What a step does to the queue -/

/-- The entries in the ring, oldest first. -/
def CtrDrvrQueue.pending (queue : CtrDrvrQueue) : List CtrDrvrReadBuf :=
  held CtrDrvrQUEUE_SIZE queue.entries queue.rdPntr queue.size

/-- The step empties the queue. -/
def ClientContext.clears (ccon : ClientContext) : ClientEvent → Bool
  | .enters _ => ccon.queue.queueOff
  | _ => false

/-- What a step does to the entries: a put, which in a full queue overwrites the
oldest one, a take, or the discard of all. -/
def ClientContext.happens (ccon : ClientContext) (e : ClientEvent) :
    List (FifoEvent CtrDrvrReadBuf) :=
  if ccon.clears e then ccon.queue.pending.map .drop
  else
    match e with
    | .puts rb =>
      if ccon.queue.size < CtrDrvrQUEUE_SIZE then [.put rb]
      else [.drop ccon.queue.get.1, .put rb]
    | .takes _ => if ccon.queue.size = 0 then [] else [.take ccon.queue.get.1]
    | _ => []

structure RingOk (queue : CtrDrvrQueue) : Prop where
  read : queue.rdPntr < CtrDrvrQUEUE_SIZE
  write : queue.wrPntr = (queue.rdPntr + queue.size) % CtrDrvrQUEUE_SIZE
  bounded : queue.size ≤ CtrDrvrQUEUE_SIZE

def ClientContext.permits (ccon : ClientContext) : Nat :=
  ccon.reads.countP (·.permit)

def Balanced (ccon : ClientContext) : Prop :=
  ccon.semaphore.count + ccon.permits = ccon.queue.size

/-- Where a read is says whether it has a permit, except between its wait and
its look at `ccon->Timer`. -/
def Read.Sound (r : Read) : Prop :=
  match r.place with
  | .entered | .armed | .aborted => r.permit = false
  | .awake => True
  | .cancelling | .taking => r.permit = true

/-- The permits are in step with the entries, and no task waits while one is
free. -/
structure InStep (ccon : ClientContext) : Prop where
  balanced : Balanced ccon
  tight : ccon.semaphore.Tight
  sound : ∀ r ∈ ccon.reads, r.Sound

/-- A queue is reset while no read has a permit, a timer runs out while no
permit is free, and a read finds its time run out if and only if it has no
permit. -/
def ClientContext.calm (ccon : ClientContext) : ClientEvent → Prop
  | .enters _ => ccon.queue.queueOff = true → ccon.permits = 0
  | .fires => ccon.semaphore.count = 0
  | .looks r => r.permit = ccon.goesOn
  | _ => True

section Steps

variable {ccon : ClientContext} {e : ClientEvent} {queue : CtrDrvrQueue}
  {rb : CtrDrvrReadBuf} {r : Read}

theorem queuePut_room (h : ccon.queue.size < CtrDrvrQUEUE_SIZE) :
    queuePut rb ccon = ClientContext.ssignal { ccon with queue := { ccon.queue with
      entries := Function.update ccon.queue.entries ccon.queue.wrPntr rb
      wrPntr := (ccon.queue.wrPntr + 1) % CtrDrvrQUEUE_SIZE
      size := ccon.queue.size + 1 } } :=
  if_pos h

theorem queuePut_full (h : ¬ ccon.queue.size < CtrDrvrQUEUE_SIZE) :
    queuePut rb ccon = { ccon with queue := { ccon.queue with
      entries := Function.update ccon.queue.entries ccon.queue.wrPntr rb
      wrPntr := (ccon.queue.wrPntr + 1) % CtrDrvrQUEUE_SIZE
      missed := ccon.queue.missed + 1
      rdPntr := (ccon.queue.rdPntr + 1) % CtrDrvrQUEUE_SIZE } } :=
  if_neg h

theorem RingOk.get (h : RingOk queue) (hne : queue.size ≠ 0) :
    RingOk queue.get.2 ∧ queue.pending = queue.get.1 :: queue.get.2.pending := by
  obtain ⟨n, hn⟩ := Nat.exists_eq_succ_of_ne_zero hne
  have hbounded := h.bounded
  refine ⟨⟨Nat.mod_lt _ (by decide), ?_, ?_⟩, ?_⟩
  · show queue.wrPntr = ((queue.rdPntr + 1) % CtrDrvrQUEUE_SIZE +
      (queue.size - 1)) % CtrDrvrQUEUE_SIZE
    rw [h.write, Nat.mod_add_mod, hn]
    congr 1
    omega
  · show queue.size - 1 ≤ CtrDrvrQUEUE_SIZE
    omega
  · show held CtrDrvrQUEUE_SIZE queue.entries queue.rdPntr queue.size =
      _ :: held CtrDrvrQUEUE_SIZE queue.entries _ (queue.size - 1)
    rw [hn]
    exact held_pop _ _ h.read

theorem queuePut_ring (h : RingOk ccon.queue) :
    RingOk (queuePut rb ccon).queue ∧
      replay (ccon.happens (.puts rb)) ccon.queue.pending =
        some (queuePut rb ccon).queue.pending := by
  have hbounded := h.bounded
  have hhappens : ccon.happens (.puts rb) =
      if ccon.queue.size < CtrDrvrQUEUE_SIZE then [.put rb]
      else [.drop ccon.queue.get.1, .put rb] := rfl
  rw [hhappens]
  by_cases hroom : ccon.queue.size < CtrDrvrQUEUE_SIZE
  · rw [if_pos hroom, queuePut_room hroom]
    refine ⟨⟨h.read, ?_, hroom⟩, ?_⟩
    · show (ccon.queue.wrPntr + 1) % CtrDrvrQUEUE_SIZE =
        (ccon.queue.rdPntr + (ccon.queue.size + 1)) % CtrDrvrQUEUE_SIZE
      rw [h.write, Nat.mod_add_mod, Nat.add_assoc]
    · show some (ccon.queue.pending ++ [rb]) = some (held CtrDrvrQUEUE_SIZE
        (Function.update ccon.queue.entries ccon.queue.wrPntr rb)
        ccon.queue.rdPntr (ccon.queue.size + 1))
      rw [h.write, held_push _ _ _ hroom]
      rfl
  · have hsize : ccon.queue.size = CtrDrvrQUEUE_SIZE := by omega
    have hwrite : ccon.queue.wrPntr = ccon.queue.rdPntr := by
      rw [h.write, hsize, Nat.add_mod_right, Nat.mod_eq_of_lt h.read]
    have hne : ccon.queue.size ≠ 0 := by
      rw [hsize]
      decide
    obtain ⟨-, hpending⟩ := h.get hne
    rw [if_neg hroom, queuePut_full hroom]
    refine ⟨⟨Nat.mod_lt _ (by decide), ?_, h.bounded⟩, ?_⟩
    · show (ccon.queue.wrPntr + 1) % CtrDrvrQUEUE_SIZE =
        ((ccon.queue.rdPntr + 1) % CtrDrvrQUEUE_SIZE + ccon.queue.size) %
          CtrDrvrQUEUE_SIZE
      rw [hwrite, hsize, Nat.add_mod_right, Nat.mod_mod]
    · have hover := @held_overwrite _ CtrDrvrQUEUE_SIZE ccon.queue.rdPntr
        ccon.queue.entries rb h.read
      have htail : ccon.queue.pending.tail = ccon.queue.get.2.pending := by
        rw [hpending]
        rfl
      have hdrop : replay [.drop ccon.queue.get.1, .put rb] ccon.queue.pending =
          some (ccon.queue.get.2.pending ++ [rb]) := by
        rw [hpending]
        exact if_pos rfl
      rw [hdrop]
      show some _ = some (held CtrDrvrQUEUE_SIZE
        (Function.update ccon.queue.entries ccon.queue.wrPntr rb)
        ((ccon.queue.rdPntr + 1) % CtrDrvrQUEUE_SIZE) ccon.queue.size)
      rw [hwrite, hsize, hover, ← htail]
      unfold CtrDrvrQueue.pending
      rw [hsize]

theorem next_ring_same (hputs : ∀ rb, e ≠ .puts rb) (htakes : ∀ r, e ≠ .takes r)
    (hclears : ccon.clears e = false) :
    (ccon.next e).queue.entries = ccon.queue.entries ∧
      (ccon.next e).queue.rdPntr = ccon.queue.rdPntr ∧
      (ccon.next e).queue.wrPntr = ccon.queue.wrPntr ∧
      (ccon.next e).queue.size = ccon.queue.size := by
  cases e with
  | puts rb => exact absurd rfl (hputs rb)
  | takes r => exact absurd rfl (htakes r)
  | enters task =>
    have hoff : ccon.queue.queueOff = false := hclears
    simp [ClientContext.next, hoff]
  | arms task started =>
    simp only [ClientContext.next]
    split
    · exact ⟨rfl, rfl, rfl, rfl⟩
    · split <;> exact ⟨rfl, rfl, rfl, rfl⟩
  | waits task =>
    simp only [ClientContext.next, waitStep]
    split <;> exact ⟨rfl, rfl, rfl, rfl⟩
  | looks r =>
    simp only [ClientContext.next]
    split <;> exact ⟨rfl, rfl, rfl, rfl⟩
  | signalled | aborts | cancels | fires | setsFlag | setsTimeout
  | readsOverflow => exact ⟨rfl, rfl, rfl, rfl⟩

theorem ring_step (h : RingOk ccon.queue) :
    RingOk (ccon.next e).queue ∧ replay (ccon.happens e) ccon.queue.pending =
      some (ccon.next e).queue.pending := by
  by_cases hclears : ccon.clears e = true
  · have hhappens : ccon.happens e = ccon.queue.pending.map .drop := if_pos hclears
    rw [hhappens, replay_drops]
    cases e with
    | enters task =>
      have hoff : ccon.queue.queueOff = true := hclears
      have hqueue : (ccon.next (.enters task)).queue = { ccon.queue with
          size := 0, missed := 0, wrPntr := 0, rdPntr := 0 } := by
        simp [ClientContext.next, hoff, queueReset, ClientContext.sreset]
      rw [hqueue]
      exact ⟨⟨show 0 < CtrDrvrQUEUE_SIZE by decide, rfl, Nat.zero_le _⟩, rfl⟩
    | _ => cases hclears
  have hfalse : ccon.clears e = false := by simpa using hclears
  cases e with
  | puts rb => exact queuePut_ring h
  | takes r =>
    have hhappens : ccon.happens (.takes r) =
        if ccon.queue.size = 0 then [] else [.take ccon.queue.get.1] := rfl
    rw [hhappens]
    by_cases hzero : ccon.queue.size = 0
    · have hnext : (ccon.next (.takes r)).queue = ccon.queue := by
        simp [ClientContext.next, ClientContext.leave, hzero]
      rw [if_pos hzero, hnext]
      exact ⟨h, rfl⟩
    · obtain ⟨hring, hpending⟩ := h.get hzero
      have hnext : (ccon.next (.takes r)).queue = ccon.queue.get.2 := by
        simp [ClientContext.next, ClientContext.leave, hzero]
      rw [if_neg hzero, hnext, hpending]
      exact ⟨hring, if_pos rfl⟩
  | _ =>
    obtain ⟨hentries, hread, hwrite, hsize⟩ := next_ring_same
      (by intro rb heq; cases heq) (by intro r heq; cases heq) hfalse
    refine ⟨⟨?_, ?_, ?_⟩, ?_⟩
    · rw [hread]
      exact h.read
    · rw [hread, hwrite, hsize]
      exact h.write
    · rw [hsize]
      exact h.bounded
    · have hhappens : ccon.happens _ = [] := if_neg hclears
      rw [hhappens]
      unfold CtrDrvrQueue.pending
      rw [hentries, hread, hsize]
      rfl

/-! ## Permits -/

theorem permits_cons {reads : List Read} :
    (r :: reads).countP (·.permit) =
      reads.countP (·.permit) + if r.permit then 1 else 0 := by
  rw [List.countP_cons]

theorem permits_leave (h : r ∈ ccon.reads) :
    (ccon.leave r).permits + (if r.permit then 1 else 0) = ccon.permits := by
  have hcount := (List.perm_cons_erase h).countP_eq (·.permit)
  rw [List.countP_cons] at hcount
  exact hcount.symm

theorem permits_move {place : Section} (h : r ∈ ccon.reads) :
    (ccon.move r place).permits = ccon.permits := by
  rw [← permits_leave h]
  exact permits_cons

theorem permits_woken (tasks : List Nat) (permit : Bool) :
    (tasks.map fun task => (⟨task, .awake, permit⟩ : Read)).countP (·.permit) =
      if permit then tasks.length else 0 := by
  induction tasks with
  | nil => cases permit <;> rfl
  | cons task tasks ih =>
    rw [List.map_cons, List.countP_cons, ih]
    cases permit <;> simp

theorem ssignal_permits : ccon.ssignal.semaphore.count + ccon.ssignal.permits =
    ccon.semaphore.count + ccon.permits + 1 := by
  have hup := cdcmUp_permits ccon.semaphore
  have hwoken := permits_woken (cdcmUp ccon.semaphore).1 true
  show (cdcmUp ccon.semaphore).2.count + (ccon.reads ++ _).countP _ = _
  rw [List.countP_append, hwoken, if_pos rfl]
  show _ = ccon.semaphore.count + ccon.reads.countP (·.permit) + 1
  omega

theorem sreset_permits : ccon.sreset.permits = ccon.permits := by
  have hwoken := permits_woken (Cdcm.sreset ccon.semaphore).1 false
  unfold ClientContext.permits ClientContext.sreset
  rw [List.countP_append, hwoken]
  rfl

theorem sreset_count : ccon.sreset.semaphore.count = 0 := by
  show (Cdcm.sreset ccon.semaphore).2.count = 0
  unfold Cdcm.sreset
  split
  · assumption
  · rfl

theorem sound_woken {tasks : List Nat} {permit : Bool}
    (h : ∀ r ∈ ccon.reads, r.Sound) :
    ∀ r ∈ ccon.reads ++ tasks.map fun task => (⟨task, .awake, permit⟩ : Read),
      r.Sound := by
  intro r hr
  rcases List.mem_append.mp hr with hold | hnew
  · exact h r hold
  · obtain ⟨task, -, heq⟩ := List.mem_map.mp hnew
    rw [← heq]
    trivial

theorem sound_leave (h : ∀ r ∈ ccon.reads, r.Sound) :
    ∀ r' ∈ (ccon.leave r).reads, r'.Sound :=
  fun r' hr' => h r' (List.mem_of_mem_erase hr')

theorem sound_move {place : Section} (h : ∀ r ∈ ccon.reads, r.Sound)
    (hnew : Read.Sound { r with place := place }) :
    ∀ r' ∈ (ccon.move r place).reads, r'.Sound := by
  intro r' hr'
  rcases List.mem_cons.mp hr' with heq | hold
  · rw [heq]
    exact hnew
  · exact h r' (List.mem_of_mem_erase hold)

theorem queuePut_inStep (h : InStep ccon) : InStep (queuePut rb ccon) := by
  by_cases hroom : ccon.queue.size < CtrDrvrQUEUE_SIZE
  · rw [queuePut_room hroom]
    exact ⟨ssignal_permits.trans (congrArg (· + 1) h.balanced), cdcmUp_tight h.tight,
      sound_woken h.sound⟩
  · rw [queuePut_full hroom]
    exact ⟨h.balanced, h.tight, h.sound⟩

theorem sreset_inStep (htight : ccon.semaphore.Tight)
    (hsound : ∀ r ∈ ccon.reads, r.Sound) (h : ccon.permits = ccon.queue.size) :
    InStep ccon.sreset where
  balanced := by
    show ccon.sreset.semaphore.count + ccon.sreset.permits = ccon.queue.size
    rw [sreset_count, sreset_permits, h, Nat.zero_add]
  tight := sreset_tight htight
  sound := sound_woken hsound

theorem waitStep_inStep {task : Nat} (h : InStep ccon)
    (hready : ⟨task, .armed, false⟩ ∈ ccon.reads) : InStep (waitStep task ccon) := by
  have hbal : ccon.semaphore.count + ccon.permits = ccon.queue.size := h.balanced
  have hleave := permits_leave hready
  have hleft : (ccon.leave ⟨task, .armed, false⟩).permits = ccon.permits := hleave
  have htight := cdcmDown_tight task h.tight
  have hsound := @sound_leave ccon ⟨task, .armed, false⟩ h.sound
  unfold waitStep
  dsimp only
  split
  · next sem hdown =>
    have hcount := cdcmDown_true hdown
    rw [hdown] at htight
    refine ⟨?_, htight, fun r hr => ?_⟩
    · show sem.count + (_ :: _).countP _ = ccon.queue.size
      rw [permits_cons, if_pos rfl]
      show sem.count + ((ccon.leave ⟨task, .armed, false⟩).permits + 1) = _
      omega
    · rcases List.mem_cons.mp hr with heq | hold
      · rw [heq]
        trivial
      · exact hsound r hold
  · next sem hdown =>
    have hcount := cdcmDown_false hdown
    rw [hdown] at htight
    refine ⟨?_, htight, hsound⟩
    show sem.count + (ccon.leave ⟨task, .armed, false⟩).permits = ccon.queue.size
    omega

theorem InStep.move {place : Section} (h : InStep ccon) (hr : r ∈ ccon.reads)
    (hnew : Read.Sound { r with place := place }) : InStep (ccon.move r place) where
  balanced := by
    show ccon.semaphore.count + (ccon.move r place).permits = ccon.queue.size
    rw [permits_move hr]
    exact h.balanced
  tight := h.tight
  sound := sound_move h.sound hnew

theorem InStep.leave (h : InStep ccon) (hr : r ∈ ccon.reads)
    (hnone : r.permit = false) : InStep (ccon.leave r) where
  balanced := by
    have hleave := permits_leave hr
    rw [hnone] at hleave
    show ccon.semaphore.count + (ccon.leave r).permits = ccon.queue.size
    exact (congrArg _ hleave).trans h.balanced
  tight := h.tight
  sound := sound_leave h.sound

theorem InStep.arrive {task : Nat} {place : Section} (h : InStep ccon)
    (hnew : Read.Sound ⟨task, place, false⟩) :
    InStep { ccon with reads := ⟨task, place, false⟩ :: ccon.reads } where
  balanced := h.balanced
  tight := h.tight
  sound r hr := by
    rcases List.mem_cons.mp hr with heq | hold
    · rw [heq]
      exact hnew
    · exact h.sound r hold

theorem InStep.takes (h : InStep ccon) (hr : r ∈ ccon.reads)
    (hplace : r.place = .taking) : r.permit = true ∧ ccon.queue.size ≠ 0 := by
  have hbal : ccon.semaphore.count + ccon.permits = ccon.queue.size := h.balanced
  have hsound := h.sound r hr
  unfold Read.Sound at hsound
  rw [hplace] at hsound
  have hpermit : r.permit = true := hsound
  have hleave := permits_leave hr
  rw [hpermit, if_pos rfl] at hleave
  exact ⟨hpermit, by omega⟩

theorem inStep_step (h : InStep ccon) (hready : ccon.ready e)
    (hcalm : ccon.calm e) : InStep (ccon.next e) := by
  cases e with
  | puts rb => exact queuePut_inStep h
  | enters task =>
    simp only [ClientContext.next]
    split
    · next hoff =>
      exact (@sreset_inStep { ccon with queue := { ccon.queue with
        size := 0, missed := 0, wrPntr := 0, rdPntr := 0 } }
        h.tight h.sound (hcalm hoff)).arrive rfl
    · exact h.arrive rfl
  | arms task started =>
    have hmove := @InStep.move ccon _ .armed h hready rfl
    simp only [ClientContext.next]
    split
    · exact hmove
    · split
      · exact ⟨hmove.balanced, hmove.tight, hmove.sound⟩
      · exact ⟨hmove.balanced, hmove.tight, hmove.sound⟩
  | waits task => exact waitStep_inStep h hready
  | signalled task =>
    exact @InStep.arrive { ccon with semaphore := downFails task ccon.semaphore }
      task .aborted ⟨h.balanced, downFails_tight h.tight, h.sound⟩ rfl
  | aborts task =>
    have hleave := h.leave hready rfl
    exact ⟨hleave.balanced, hleave.tight, hleave.sound⟩
  | looks r =>
    have hpermit : r.permit = ccon.goesOn := hcalm
    simp only [ClientContext.next]
    split
    · next hon =>
      refine h.move hready.1 ?_
      unfold Read.Sound
      split
      · next heq => split at heq <;> cases heq
      · next heq => split at heq <;> cases heq
      · next heq => split at heq <;> cases heq
      · trivial
      · exact hpermit.trans hon
      · exact hpermit.trans hon
    · next hout => exact h.leave hready.1 (hpermit.trans (by simpa using hout))
  | cancels r =>
    have hsound := h.sound r hready.1
    unfold Read.Sound at hsound
    rw [hready.2] at hsound
    have hmove := @InStep.move ccon r .taking h hready.1 hsound
    exact ⟨hmove.balanced, hmove.tight, hmove.sound⟩
  | takes r =>
    obtain ⟨hpermit, hsize⟩ := h.takes hready.1 hready.2
    have hbal : ccon.semaphore.count + ccon.permits = ccon.queue.size := h.balanced
    have hleave := permits_leave hready.1
    rw [hpermit, if_pos rfl] at hleave
    have hne : ¬ (ccon.leave r).queue.size = 0 := hsize
    simp only [ClientContext.next]
    rw [if_neg hne]
    refine ⟨?_, h.tight, sound_leave h.sound⟩
    show ccon.semaphore.count + (ccon.leave r).permits = ccon.queue.size - 1
    omega
  | fires =>
    have hbal : ccon.semaphore.count + ccon.permits = ccon.queue.size := h.balanced
    have hzero : ccon.semaphore.count = 0 := hcalm
    refine sreset_inStep h.tight h.sound ?_
    show ccon.permits = ccon.queue.size
    omega
  | setsFlag | setsTimeout | readsOverflow =>
    exact ⟨h.balanced, h.tight, h.sound⟩

end Steps

end Coht.Ctr
