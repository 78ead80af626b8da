import Coht.XmemDrvr.Segments
import Coht.Lib.System
import Coht.Lib.Fifo
import Coht.Cdcm.Semaphore
import Mathlib.Data.Fintype.Pi

/-!
# The queue of a client (`xmemDrvr.c`)

Interrupts put entries on the queue of a client, a ring of
`XmemDrvrQUEUE_SIZE`, and signal its semaphore; `XmemDrvrRead()` waits on the
semaphore and takes an entry. A read is a row of critical sections, and each is
a step: it resets a queue that is off, starts a timer, waits, looks at
`ccon->Timer`, cancels the timer, and takes. Only the task that opened the file
may read, so there is one read at a time.

`__q_reset()` clears the entries and the free permits together, but not the
permit of a read that is past the semaphore, and it wakes a read that waits
without one. `permit` says whether the read has a permit that no reset has
taken back. A read that has none and finds an entry leaves the semaphore one
ahead of the queue; `Calm` is the condition that this does not happen.

`QueueRun` adds what happened to the entries: `history` is the list of what was
put, taken and discarded, and `turnedAway` counts the puts without room.
-/

namespace Coht.XmemDrvr

open Coht.Lib Coht.Cdcm

def XmemDrvrQUEUE_SIZE : Nat := 128

inductive XmemDrvrIntIdx
  | int1 | int2 | segmentUpdate | pendingInit | softwakeup
  deriving DecidableEq

instance : Fintype XmemDrvrIntIdx where
  elems := {.int1, .int2, .segmentUpdate, .pendingInit, .softwakeup}
  complete idx := by cases idx <;> decide

structure XmemDrvrReadBuf where
  module : U32 := 0
  ndData : XmemDrvrIntIdx → U32 := fun _ => 0
  nodeId : XmemDrvrIntIdx → U32 := fun _ => 0
  mask : U32 := 0
  deriving DecidableEq

structure XmemDrvrQueue where
  queueOff : Bool := false
  missed : BitVec 16 := 0
  elems : Nat := 0
  inIdx : Nat := 0
  outIdx : Nat := 0
  entries : Nat → XmemDrvrReadBuf := fun _ => {}

/-- How far the read has come: past the reset, about to wait, on the
semaphore, interrupted there, past it, and after the look at `ccon->Timer`
about to cancel the timer, to give up or to take. -/
inductive ReadPhase
  | idle | entered | started | waiting | aborted | awake | cancelling | expired
  | taking
  deriving DecidableEq

/-- The fields of `XmemDrvrClientContext` that a read works on, its read, and
the timers that were started for it and have not run. -/
structure Client where
  queue : XmemDrvrQueue := {}
  semaphore : CdcmSem Unit := {}
  timeout : U32 := 0
  /-- `ccon->Timer` is not 0 -/
  timer : Bool := false
  timers : Nat := 0
  phase : ReadPhase := .idle
  permit : Bool := false

def Client.ssignal (ccon : Client) : Client :=
  match cdcmUp ccon.semaphore with
  | ([], sem) => { ccon with semaphore := sem }
  | (_ :: _, sem) =>
    { ccon with semaphore := sem, phase := .awake, permit := true }

/-- A read that is woken goes on without a permit. -/
def Client.sreset (ccon : Client) : Client :=
  match Cdcm.sreset ccon.semaphore with
  | ([], sem) => { ccon with semaphore := sem }
  | (_ :: _, sem) => { ccon with semaphore := sem, phase := .awake }

/-- `__q_put()` -/
def qPut (rb : XmemDrvrReadBuf) (ccon : Client) : Client :=
  let fifo := ccon.queue
  if XmemDrvrQUEUE_SIZE ≤ fifo.elems then
    { ccon with queue := { fifo with missed := fifo.missed + 1 } }
  else
    Client.ssignal { ccon with queue := { fifo with
      entries := Function.update fifo.entries fifo.inIdx rb
      inIdx := (fifo.inIdx + 1) % XmemDrvrQUEUE_SIZE
      elems := fifo.elems + 1 } }

/-- `__q_get()` -/
def qGet (fifo : XmemDrvrQueue) : Option (XmemDrvrReadBuf × XmemDrvrQueue) :=
  if fifo.elems = 0 then none
  else some (fifo.entries fifo.outIdx,
    { fifo with
      outIdx := (fifo.outIdx + 1) % XmemDrvrQUEUE_SIZE
      elems := fifo.elems - 1 })

/-- `__q_reset()` -/
def qReset (ccon : Client) : Client :=
  Client.sreset { ccon with
    queue := { ccon.queue with missed := 0, elems := 0, outIdx := 0, inIdx := 0 }
    permit := false }

def readTimeout (ccon : Client) : Client := { qReset ccon with timer := false }

/-- `CancelTimeout(&ccon->Timer)`: the timer that was started last. -/
def cancelTimeout (ccon : Client) : Client :=
  if ccon.timer then { ccon with timer := false, timers := ccon.timers - 1 }
  else ccon

/-! ## Steps -/

inductive ClientEvent
  | puts (rb : XmemDrvrReadBuf)
  | enters
  | starts
  /-- no timers available -/
  | startsNot
  | waits
  /-- a signal to the process ends its wait -/
  | signalled
  | aborts
  | looks
  | cancels
  | expires
  | takes
  | fires
  | setsFlag (value : Bool)
  /-- the reset that follows it -/
  | resets
  | setsTimeout (value : U32)
  /-- `XmemDrvrGET_QUEUE_OVERFLOW` -/
  | readsOverflow

/-- `swait()` up to where the task would sleep. -/
def waitStep (ccon : Client) : Client :=
  match cdcmDown () ccon.semaphore with
  | (true, sem) =>
    { ccon with semaphore := sem, phase := .awake, permit := true }
  | (false, sem) => { ccon with semaphore := sem, phase := .waiting }

/-- The take, or a reset when the queue is empty. -/
def takeStep (ccon : Client) : Client :=
  match qGet ccon.queue with
  | some (_, fifo) =>
    { ccon with queue := fifo, permit := false, phase := .idle }
  | none => { qReset ccon with phase := .idle }

/-- The step is the next one of the read, or one that may come at any time. -/
def Client.ready (ccon : Client) : ClientEvent → Prop
  | .enters => ccon.phase = .idle
  | .starts => ccon.phase = .entered
  | .startsNot => ccon.phase = .entered ∧ ccon.timeout ≠ 0
  | .waits => ccon.phase = .started
  | .signalled => ccon.phase = .waiting
  | .aborts => ccon.phase = .aborted
  | .looks => ccon.phase = .awake
  | .cancels => ccon.phase = .cancelling
  | .expires => ccon.phase = .expired
  | .takes => ccon.phase = .taking
  | .fires => 0 < ccon.timers
  | .puts _ | .setsFlag _ | .resets | .setsTimeout _ | .readsOverflow => True

def Client.next (ccon : Client) : ClientEvent → Client
  | .puts rb => qPut rb ccon
  | .enters =>
    { (if ccon.queue.queueOff then qReset ccon else ccon) with phase := .entered }
  | .starts =>
    if ccon.timeout = 0 then { ccon with phase := .started }
    else
      { ccon with timer := true, timers := ccon.timers + 1, phase := .started }
  | .startsNot => { qReset ccon with timer := false, phase := .idle }
  | .waits => waitStep ccon
  | .signalled =>
    { ccon with semaphore := downFails () ccon.semaphore, phase := .aborted }
  | .aborts | .expires => { qReset ccon with phase := .idle }
  | .looks =>
    { ccon with phase :=
        if ccon.timeout = 0 then .taking
        else if ccon.timer then .cancelling else .expired }
  | .cancels => { cancelTimeout ccon with phase := .taking }
  | .takes => takeStep ccon
  | .fires => readTimeout { ccon with timers := ccon.timers - 1 }
  | .setsFlag value => { ccon with queue := { ccon.queue with queueOff := value } }
  | .resets => qReset ccon
  | .setsTimeout value => { ccon with timeout := value }
  | .readsOverflow => { ccon with queue := { ccon.queue with missed := 0 } }

/-- The step resets the queue. -/
def Client.clears (ccon : Client) : ClientEvent → Bool
  | .enters => ccon.queue.queueOff
  | .takes => ccon.queue.elems = 0
  | .startsNot | .aborts | .expires | .fires | .resets => true
  | .puts _ | .starts | .waits | .signalled | .looks | .cancels | .setsFlag _
  | .setsTimeout _ | .readsOverflow => false

/-- The entries in the ring, oldest first. -/
def XmemDrvrQueue.pending (fifo : XmemDrvrQueue) : List XmemDrvrReadBuf :=
  held XmemDrvrQUEUE_SIZE fifo.entries fifo.outIdx fifo.elems

/-- What a step does to the entries: a put of one that finds room, a take of the
one that `__q_get()` returns, or the discard of all. -/
def Client.happens (ccon : Client) (e : ClientEvent) :
    List (FifoEvent XmemDrvrReadBuf) :=
  if ccon.clears e then ccon.queue.pending.map .drop
  else
    match e with
    | .puts rb =>
      if XmemDrvrQUEUE_SIZE ≤ ccon.queue.elems then [] else [.put rb]
    | .takes =>
      match qGet ccon.queue with
      | some (rb, _) => [.take rb]
      | none => []
    | _ => []

structure QueueRun where
  client : Client := {}
  history : List (FifoEvent XmemDrvrReadBuf) := []
  /-- since the count was last cleared -/
  turnedAway : Nat := 0

def QueueRun.next (s : QueueRun) (e : ClientEvent) : QueueRun where
  client := s.client.next e
  history := s.history ++ s.client.happens e
  turnedAway :=
    match e with
    | .puts _ =>
      if XmemDrvrQUEUE_SIZE ≤ s.client.queue.elems then s.turnedAway + 1
      else s.turnedAway
    | .readsOverflow => 0
    | e => if s.client.clears e then 0 else s.turnedAway

/-- A client that has been opened, with any timeout, under any order of
steps. -/
def clientSystem : System QueueRun ClientEvent where
  init s := ∃ timeout, s = { client := { timeout := timeout } }
  step s e s' := s.client.ready e ∧ s' = s.next e

/-- A read that takes an entry has a permit for it. -/
def Calm (s : QueueRun) : ClientEvent → Prop
  | .takes => s.client.permit = true ∨ s.client.queue.elems = 0
  | _ => True

/-! ## What the functions do -/

section Functions

variable {ccon : Client} {fifo fifo' : XmemDrvrQueue} {rb : XmemDrvrReadBuf}

structure RingOk (fifo : XmemDrvrQueue) : Prop where
  out : fifo.outIdx < XmemDrvrQUEUE_SIZE
  pointers : fifo.inIdx = (fifo.outIdx + fifo.elems) % XmemDrvrQUEUE_SIZE
  bounded : fifo.elems ≤ XmemDrvrQUEUE_SIZE

/-- The phases in which the read may have a permit. -/
def ReadPhase.past : ReadPhase → Bool
  | .awake | .cancelling | .expired | .taking => true
  | .idle | .entered | .started | .waiting | .aborted => false

/-- The read is on the wait list when it waits, and it waits only while no
permit is free. -/
structure SemOk (ccon : Client) : Prop where
  waits : ccon.semaphore.waitList = if ccon.phase = .waiting then [()] else []
  tight : ccon.phase = .waiting → ccon.semaphore.count = 0
  holds : ccon.permit = true → ccon.phase.past = true

def Client.permits (ccon : Client) : Nat := if ccon.permit then 1 else 0

theorem RingOk.cleared {off : Bool} {missed : BitVec 16}
    {entries : Nat → XmemDrvrReadBuf} :
    RingOk ⟨off, missed, 0, 0, 0, entries⟩ :=
  ⟨show 0 < XmemDrvrQUEUE_SIZE by decide, rfl, Nat.zero_le _⟩

theorem ssignal_waiting (h : SemOk ccon) (hw : ccon.phase = .waiting) :
    ccon.ssignal = { ccon with
      semaphore := { ccon.semaphore with waitList := [] }
      phase := .awake, permit := true } := by
  have hlist := h.waits
  rw [if_pos hw] at hlist
  unfold Client.ssignal cdcmUp
  rw [hlist]

theorem ssignal_free (h : SemOk ccon) (hw : ccon.phase ≠ .waiting) :
    ccon.ssignal = { ccon with semaphore :=
      { ccon.semaphore with count := ccon.semaphore.count + 1 } } := by
  have hlist := h.waits
  rw [if_neg hw] at hlist
  unfold Client.ssignal cdcmUp
  dsimp only
  rw [hlist]

theorem qReset_eq (h : SemOk ccon) : qReset ccon = { ccon with
    queue := { ccon.queue with missed := 0, elems := 0, outIdx := 0, inIdx := 0 }
    semaphore := {}
    phase := if ccon.phase = .waiting then .awake else ccon.phase
    permit := false } := by
  have hlist := h.waits
  unfold qReset Client.sreset Cdcm.sreset
  dsimp only
  by_cases hw : ccon.phase = .waiting
  · rw [if_pos hw] at hlist ⊢
    rw [if_pos (h.tight hw), hlist, h.tight hw]
  · rw [if_neg hw] at hlist ⊢
    rw [hlist]
    by_cases hzero : ccon.semaphore.count = 0
    · rw [if_pos hzero, hzero]
    · rw [if_neg hzero]

theorem qReset_semOk (h : SemOk ccon) : SemOk (qReset ccon) := by
  have hphase : (if ccon.phase = .waiting then ReadPhase.awake else ccon.phase) ≠
      .waiting := by
    split
    · decide
    · assumption
  rw [qReset_eq h]
  exact ⟨(if_neg hphase).symm, fun hw => absurd hw hphase, fun hp => by cases hp⟩

theorem SemOk.atPhase {phase : ReadPhase} (h : SemOk ccon)
    (hnow : ccon.phase ≠ .waiting) (hw : phase ≠ .waiting)
    (hpast : ccon.permit = true → phase.past = true) :
    SemOk { ccon with phase := phase } where
  waits := by
    have hlist := h.waits
    rw [if_neg hnow] at hlist
    exact hlist.trans (if_neg hw).symm
  tight hphase := absurd hphase hw
  holds := hpast

theorem ssignal_queue : ccon.ssignal.queue = ccon.queue := by
  unfold Client.ssignal
  split <;> rfl

theorem qPut_full (h : XmemDrvrQUEUE_SIZE ≤ ccon.queue.elems) :
    qPut rb ccon = { ccon with queue :=
      { ccon.queue with missed := ccon.queue.missed + 1 } } :=
  if_pos h

theorem qPut_room (h : ¬ XmemDrvrQUEUE_SIZE ≤ ccon.queue.elems) :
    qPut rb ccon = Client.ssignal { ccon with queue := { ccon.queue with
      entries := Function.update ccon.queue.entries ccon.queue.inIdx rb
      inIdx := (ccon.queue.inIdx + 1) % XmemDrvrQUEUE_SIZE
      elems := ccon.queue.elems + 1 } } :=
  if_neg h

theorem RingOk.put (h : RingOk fifo) (hroom : ¬ XmemDrvrQUEUE_SIZE ≤ fifo.elems) :
    let fifo' := { fifo with
      entries := Function.update fifo.entries fifo.inIdx rb
      inIdx := (fifo.inIdx + 1) % XmemDrvrQUEUE_SIZE
      elems := fifo.elems + 1 }
    RingOk fifo' ∧ fifo'.pending = fifo.pending ++ [rb] := by
  refine ⟨⟨h.out, ?_, Nat.lt_of_not_le hroom⟩, ?_⟩
  · show (fifo.inIdx + 1) % XmemDrvrQUEUE_SIZE =
      (fifo.outIdx + (fifo.elems + 1)) % XmemDrvrQUEUE_SIZE
    rw [h.pointers, Nat.mod_add_mod, Nat.add_assoc]
  · show held XmemDrvrQUEUE_SIZE (Function.update fifo.entries fifo.inIdx rb)
      fifo.outIdx (fifo.elems + 1) = _
    rw [h.pointers, held_push _ _ _ (Nat.lt_of_not_le hroom)]
    rfl

theorem RingOk.get (h : RingOk fifo) (hget : qGet fifo = some (rb, fifo')) :
    RingOk fifo' ∧ fifo.pending = rb :: fifo'.pending := by
  unfold qGet at hget
  split at hget
  · cases hget
  · next hne =>
    cases hget
    obtain ⟨n, hn⟩ := Nat.exists_eq_succ_of_ne_zero hne
    have hbounded := h.bounded
    refine ⟨⟨Nat.mod_lt _ (by decide), ?_, ?_⟩, ?_⟩
    · show fifo.inIdx = ((fifo.outIdx + 1) % XmemDrvrQUEUE_SIZE +
        (fifo.elems - 1)) % XmemDrvrQUEUE_SIZE
      rw [h.pointers, Nat.mod_add_mod, hn]
      congr 1
      omega
    · show fifo.elems - 1 ≤ XmemDrvrQUEUE_SIZE
      omega
    · unfold XmemDrvrQueue.pending
      dsimp only
      rw [hn]
      exact held_pop _ _ h.out

end Functions

/-! ## One step -/

section Steps

variable {ccon : Client} {e : ClientEvent}

structure Cleared (ccon ccon' : Client) : Prop where
  queue : ccon'.queue =
    { ccon.queue with missed := 0, elems := 0, outIdx := 0, inIdx := 0 }
  semaphore : ccon'.semaphore = {}
  permit : ccon'.permit = false

theorem SemOk.congr {ccon' : Client} (h : SemOk ccon)
    (hsem : ccon'.semaphore = ccon.semaphore) (hphase : ccon'.phase = ccon.phase)
    (hpermit : ccon'.permit = ccon.permit) : SemOk ccon' where
  waits := by rw [hsem, hphase]; exact h.waits
  tight := by rw [hsem, hphase]; exact h.tight
  holds := by rw [hpermit, hphase]; exact h.holds

theorem qReset_cleared (h : SemOk ccon) : Cleared ccon (qReset ccon) := by
  rw [qReset_eq h]
  exact ⟨rfl, rfl, rfl⟩

theorem takeStep_empty (h : ccon.queue.elems = 0) :
    takeStep ccon = { qReset ccon with phase := .idle } := by
  unfold takeStep qGet
  rw [if_pos h]

theorem next_cleared (h : SemOk ccon) (hclears : ccon.clears e = true) :
    Cleared ccon (ccon.next e) := by
  have hreset := qReset_cleared h
  cases e with
  | enters =>
    have hoff : ccon.queue.queueOff = true := hclears
    unfold Client.next
    dsimp only
    rw [if_pos hoff]
    exact ⟨hreset.queue, hreset.semaphore, hreset.permit⟩
  | takes =>
    have hempty : ccon.queue.elems = 0 := of_decide_eq_true hclears
    show Cleared ccon (takeStep ccon)
    rw [takeStep_empty hempty]
    exact ⟨hreset.queue, hreset.semaphore, hreset.permit⟩
  | fires =>
    have hfired : SemOk { ccon with timers := ccon.timers - 1 } :=
      h.congr rfl rfl rfl
    have hrun := qReset_cleared hfired
    exact ⟨hrun.queue, hrun.semaphore, hrun.permit⟩
  | startsNot | aborts | expires | resets =>
    exact ⟨hreset.queue, hreset.semaphore, hreset.permit⟩
  | puts | starts | waits | signalled | looks | cancels | setsFlag | setsTimeout
  | readsOverflow => cases hclears

theorem ring_step (hr : RingOk ccon.queue) (hs : SemOk ccon) :
    RingOk (ccon.next e).queue ∧ replay (ccon.happens e) ccon.queue.pending =
      some (ccon.next e).queue.pending := by
  unfold Client.happens
  by_cases hclears : ccon.clears e = true
  · rw [if_pos hclears, (next_cleared hs hclears).queue]
    exact ⟨.cleared, replay_drops⟩
  rw [if_neg hclears]
  cases e with
  | puts rb =>
    dsimp only [Client.next]
    by_cases hfull : XmemDrvrQUEUE_SIZE ≤ ccon.queue.elems
    · rw [if_pos hfull, qPut_full hfull]
      exact ⟨⟨hr.out, hr.pointers, hr.bounded⟩, rfl⟩
    · rw [if_neg hfull, qPut_room hfull, ssignal_queue]
      obtain ⟨hring, hpending⟩ := @RingOk.put ccon.queue rb hr hfull
      exact ⟨hring, congrArg some hpending.symm⟩
  | takes =>
    have hne : ¬ ccon.queue.elems = 0 := fun hzero =>
      hclears (decide_eq_true hzero)
    obtain ⟨rb, fifo, hget⟩ : ∃ rb fifo, qGet ccon.queue = some (rb, fifo) :=
      ⟨_, _, if_neg hne⟩
    obtain ⟨hring, hpending⟩ := hr.get hget
    dsimp only [Client.next, takeStep]
    rw [hget, hpending]
    exact ⟨hring, if_pos rfl⟩
  | enters =>
    have hon : ¬ ccon.queue.queueOff = true := hclears
    dsimp only [Client.next]
    rw [if_neg hon]
    exact ⟨hr, rfl⟩
  | starts =>
    dsimp only [Client.next]
    split <;> exact ⟨hr, rfl⟩
  | waits =>
    dsimp only [Client.next, waitStep]
    split <;> exact ⟨hr, rfl⟩
  | cancels =>
    dsimp only [Client.next, cancelTimeout]
    split <;> exact ⟨hr, rfl⟩
  | setsFlag | readsOverflow => exact ⟨⟨hr.out, hr.pointers, hr.bounded⟩, rfl⟩
  | signalled | looks | setsTimeout => exact ⟨hr, rfl⟩
  | startsNot | aborts | expires | fires | resets => exact absurd rfl hclears

theorem SemOk.no_permit (h : SemOk ccon) (hpast : ccon.phase.past = false) :
    ccon.permit = false :=
  Bool.eq_false_iff.mpr fun hp => by
    have htrue := h.holds hp
    rw [hpast] at htrue
    cases htrue

theorem qReset_atPhase {phase : ReadPhase} (h : SemOk ccon)
    (hw : phase ≠ .waiting) : SemOk { qReset ccon with phase := phase } := by
  have hreset := qReset_cleared h
  refine ⟨?_, fun hphase => absurd hphase hw, fun hp => ?_⟩
  · show (qReset ccon).semaphore.waitList = _
    rw [hreset.semaphore]
    exact (if_neg hw).symm
  · have hfalse := hreset.permit
    change (qReset ccon).permit = true at hp
    rw [hfalse] at hp
    cases hp

theorem qPut_semOk {rb : XmemDrvrReadBuf} (h : SemOk ccon) :
    SemOk (qPut rb ccon) := by
  by_cases hfull : XmemDrvrQUEUE_SIZE ≤ ccon.queue.elems
  · rw [qPut_full hfull]
    exact h.congr rfl rfl rfl
  · rw [qPut_room hfull]
    generalize hput : { ccon with queue := _ } = c
    have hc : SemOk c := by
      subst hput
      exact h.congr rfl rfl rfl
    by_cases hw : c.phase = .waiting
    · rw [ssignal_waiting hc hw]
      exact ⟨rfl, fun h => (by cases h), fun _ => rfl⟩
    · rw [ssignal_free hc hw]
      exact ⟨hc.waits, fun hwait => absurd hwait hw, hc.holds⟩

theorem waitStep_semOk (h : SemOk ccon) (hphase : ccon.phase = .started) :
    SemOk (waitStep ccon) := by
  have hlist := h.waits
  rw [if_neg (by rw [hphase]; decide)] at hlist
  unfold waitStep cdcmDown
  by_cases hpos : 0 < ccon.semaphore.count
  · rw [if_pos hpos]
    exact ⟨hlist, fun h => (by cases h), fun _ => rfl⟩
  · rw [if_neg hpos]
    refine ⟨?_, fun _ => Nat.eq_zero_of_not_pos hpos, fun hp => ?_⟩
    · show ccon.semaphore.waitList ++ [()] = [()]
      rw [hlist]
      rfl
    · have hnone := h.no_permit (by rw [hphase]; rfl)
      change ccon.permit = true at hp
      rw [hnone] at hp
      cases hp

theorem semOk_step (h : SemOk ccon) (hready : ccon.ready e) :
    SemOk (ccon.next e) := by
  cases e with
  | puts rb => exact qPut_semOk h
  | enters =>
    have hphase : ccon.phase = .idle := hready
    dsimp only [Client.next]
    split
    · exact qReset_atPhase h (by decide)
    · refine h.atPhase (by rw [hphase]; decide) (by decide) fun hp => ?_
      rw [h.no_permit (by rw [hphase]; rfl)] at hp
      cases hp
  | starts =>
    have hphase : ccon.phase = .entered := hready
    have hstart : SemOk { ccon with phase := .started } := by
      refine h.atPhase (by rw [hphase]; decide) (by decide) fun hp => ?_
      rw [h.no_permit (by rw [hphase]; rfl)] at hp
      cases hp
    dsimp only [Client.next]
    split
    · exact hstart
    · exact hstart.congr rfl rfl rfl
  | startsNot =>
    have hreset : SemOk { qReset ccon with phase := .idle } :=
      qReset_atPhase h (by decide)
    exact hreset.congr rfl rfl rfl
  | waits => exact waitStep_semOk h hready
  | signalled =>
    have hphase : ccon.phase = .waiting := hready
    have hlist := h.waits
    rw [if_pos hphase] at hlist
    refine ⟨?_, fun h => (by cases h), fun hp => ?_⟩
    · show ccon.semaphore.waitList.erase () = []
      rw [hlist]
      rfl
    · change ccon.permit = true at hp
      rw [h.no_permit (by rw [hphase]; rfl)] at hp
      cases hp
  | aborts | expires => exact qReset_atPhase h (by decide)
  | looks =>
    have hphase : ccon.phase = .awake := hready
    have hnow : ccon.phase ≠ .waiting := by rw [hphase]; decide
    dsimp only [Client.next]
    split
    · exact h.atPhase hnow (by decide) fun _ => rfl
    split
    · exact h.atPhase hnow (by decide) fun _ => rfl
    · exact h.atPhase hnow (by decide) fun _ => rfl
  | cancels =>
    have hphase : ccon.phase = .cancelling := hready
    have htaking : SemOk { ccon with phase := .taking } :=
      h.atPhase (by rw [hphase]; decide) (by decide) fun _ => rfl
    dsimp only [Client.next, cancelTimeout]
    split
    · exact htaking.congr rfl rfl rfl
    · exact htaking
  | takes =>
    have hphase : ccon.phase = .taking := hready
    have hlist := h.waits
    rw [if_neg (by rw [hphase]; decide)] at hlist
    dsimp only [Client.next, takeStep]
    split
    · exact ⟨hlist, fun h => (by cases h), fun hp => by cases hp⟩
    · exact qReset_atPhase h (by decide)
  | fires =>
    have hfired : SemOk { ccon with timers := ccon.timers - 1 } :=
      h.congr rfl rfl rfl
    exact (qReset_semOk hfired).congr rfl rfl rfl
  | resets => exact qReset_semOk h
  | setsFlag | setsTimeout | readsOverflow => exact h.congr rfl rfl rfl

def TimerOk (ccon : Client) : Prop := ccon.timer = true → 0 < ccon.timers

theorem timer_step (h : TimerOk ccon) (hs : SemOk ccon) :
    TimerOk (ccon.next e) := by
  have hreset : TimerOk (qReset ccon) := by
    rw [qReset_eq hs]
    exact h
  cases e with
  | puts rb =>
    by_cases hfull : XmemDrvrQUEUE_SIZE ≤ ccon.queue.elems
    · dsimp only [Client.next]
      rw [qPut_full hfull]
      exact h
    · dsimp only [Client.next]
      rw [qPut_room hfull]
      unfold Client.ssignal
      split <;> exact h
  | enters =>
    dsimp only [Client.next]
    split
    · exact hreset
    · exact h
  | starts =>
    dsimp only [Client.next]
    split
    · exact h
    · exact fun _ => Nat.succ_pos _
  | waits =>
    dsimp only [Client.next, waitStep]
    split <;> exact h
  | cancels =>
    dsimp only [Client.next, cancelTimeout]
    split
    · exact fun ht => by cases ht
    · exact h
  | takes =>
    dsimp only [Client.next, takeStep]
    split
    · exact h
    · exact hreset
  | startsNot | fires => exact fun ht => by cases ht
  | aborts | expires | resets => exact hreset
  | signalled | looks | setsFlag | setsTimeout | readsOverflow => exact h

/-- The free permits are the entries, less the one of the read. -/
def Balanced (ccon : Client) : Prop :=
  ccon.semaphore.count + ccon.permits = ccon.queue.elems

theorem qPut_balanced {rb : XmemDrvrReadBuf} (h : Balanced ccon)
    (hs : SemOk ccon) : Balanced (qPut rb ccon) := by
  by_cases hfull : XmemDrvrQUEUE_SIZE ≤ ccon.queue.elems
  · rw [qPut_full hfull]
    exact h
  · rw [qPut_room hfull]
    generalize hput : { ccon with queue := _ } = c
    have hc : SemOk c := by
      subst hput
      exact hs.congr rfl rfl rfl
    have hcount : c.semaphore.count + c.permits + 1 = c.queue.elems := by
      subst hput
      exact congrArg (· + 1) h
    by_cases hw : c.phase = .waiting
    · have hnone : c.permits = 0 := by
        unfold Client.permits
        rw [hc.no_permit (by rw [hw]; rfl)]
        rfl
      rw [hnone] at hcount
      rw [ssignal_waiting hc hw]
      exact hcount
    · rw [ssignal_free hc hw]
      show c.semaphore.count + 1 + c.permits = c.queue.elems
      omega

theorem waitStep_balanced (h : Balanced ccon) (hs : SemOk ccon)
    (hphase : ccon.phase = .started) : Balanced (waitStep ccon) := by
  have hnone : ccon.permits = 0 := by
    unfold Client.permits
    rw [hs.no_permit (by rw [hphase]; rfl)]
    rfl
  unfold Balanced at h
  rw [hnone] at h
  unfold waitStep cdcmDown
  by_cases hpos : 0 < ccon.semaphore.count
  · rw [if_pos hpos]
    show ccon.semaphore.count - 1 + 1 = ccon.queue.elems
    omega
  · rw [if_neg hpos]
    show ccon.semaphore.count + ccon.permits = ccon.queue.elems
    omega

theorem balanced_step (h : Balanced ccon) (hs : SemOk ccon)
    (hready : ccon.ready e)
    (hcalm : e = .takes → ccon.permit = true ∨ ccon.queue.elems = 0) :
    Balanced (ccon.next e) := by
  by_cases hclears : ccon.clears e = true
  · have hcleared := next_cleared hs hclears
    unfold Balanced Client.permits
    rw [hcleared.semaphore, hcleared.permit, hcleared.queue]
    rfl
  cases e with
  | puts rb => exact qPut_balanced h hs
  | enters =>
    have hon : ¬ ccon.queue.queueOff = true := hclears
    dsimp only [Client.next]
    rw [if_neg hon]
    exact h
  | starts =>
    dsimp only [Client.next]
    split <;> exact h
  | waits => exact waitStep_balanced h hs hready
  | cancels =>
    dsimp only [Client.next, cancelTimeout]
    split <;> exact h
  | takes =>
    have hne : ¬ ccon.queue.elems = 0 := fun hzero =>
      hclears (decide_eq_true hzero)
    have hone : ccon.permits = 1 := by
      unfold Client.permits
      rw [(hcalm rfl).resolve_right hne]
      rfl
    unfold Balanced at h
    dsimp only [Client.next, takeStep, qGet]
    rw [if_neg hne]
    show ccon.semaphore.count + 0 = ccon.queue.elems - 1
    omega
  | signalled | looks | setsFlag | setsTimeout | readsOverflow => exact h
  | startsNot | aborts | expires | fires | resets => exact absurd rfl hclears

theorem takes_balanced_iff (h : Balanced ccon) (hs : SemOk ccon)
    (hready : ccon.ready .takes) : Balanced (ccon.next .takes) ↔
      ccon.permit = true ∨ ccon.queue.elems = 0 := by
  refine ⟨fun hafter => ?_, fun hcalm => balanced_step h hs hready fun _ => hcalm⟩
  by_contra hnot
  obtain ⟨hpermit, hne⟩ := not_or.mp hnot
  have hnone : ccon.permits = 0 := if_neg hpermit
  unfold Balanced at h
  dsimp only [Client.next, takeStep, qGet] at hafter
  rw [if_neg hne] at hafter
  change ccon.semaphore.count + 0 = ccon.queue.elems - 1 at hafter
  omega

end Steps

/-! ## Runs -/

section Runs

variable {s s' : QueueRun} {e : ClientEvent}

structure Tracks (s : QueueRun) : Prop where
  ring : RingOk s.client.queue
  sem : SemOk s.client
  timer : TimerOk s.client
  fifo : replay s.history [] = some s.client.queue.pending
  missed : s.client.queue.missed = BitVec.ofNat 16 s.turnedAway

theorem missed_step (h : s.client.queue.missed = BitVec.ofNat 16 s.turnedAway)
    (hs : SemOk s.client) :
    (s.next e).client.queue.missed = BitVec.ofNat 16 (s.next e).turnedAway := by
  unfold QueueRun.next
  dsimp only
  by_cases hclears : s.client.clears e = true
  · rw [(next_cleared hs hclears).queue]
    cases e with
    | puts | readsOverflow => cases hclears
    | _ => exact (congrArg (BitVec.ofNat 16) (if_pos hclears)).symm
  cases e with
  | puts rb =>
    dsimp only [Client.next]
    by_cases hfull : XmemDrvrQUEUE_SIZE ≤ s.client.queue.elems
    · rw [if_pos hfull, qPut_full hfull, BitVec.ofNat_add, ← h]
      rfl
    · rw [if_neg hfull, qPut_room hfull, ssignal_queue]
      exact h
  | readsOverflow => rfl
  | enters =>
    have hon : ¬ s.client.queue.queueOff = true := hclears
    dsimp only [Client.next]
    rw [if_neg hclears, if_neg hon]
    exact h
  | starts =>
    dsimp only [Client.next]
    rw [if_neg hclears]
    split <;> exact h
  | waits =>
    dsimp only [Client.next, waitStep]
    rw [if_neg hclears]
    split <;> exact h
  | cancels =>
    dsimp only [Client.next, cancelTimeout]
    rw [if_neg hclears]
    split <;> exact h
  | takes =>
    have hne : ¬ s.client.queue.elems = 0 := fun hzero =>
      hclears (decide_eq_true hzero)
    dsimp only [Client.next, takeStep, qGet]
    rw [if_neg hclears, if_neg hne]
    exact h
  | signalled | looks | setsFlag | setsTimeout =>
    dsimp only [Client.next]
    rw [if_neg hclears]
    exact h
  | startsNot | aborts | expires | fires | resets => exact absurd rfl hclears

theorem Tracks.step (h : Tracks s) (hready : s.client.ready e) :
    Tracks (s.next e) := by
  obtain ⟨hring, hreplay⟩ := @ring_step s.client e h.ring h.sem
  refine ⟨hring, semOk_step h.sem hready, timer_step h.timer h.sem, ?_,
    missed_step h.missed h.sem⟩
  show replay (s.history ++ s.client.happens e) [] = _
  rw [replay_append, h.fifo]
  exact hreplay

theorem clientSystem_tracks : clientSystem.Invariant Tracks where
  init hinit := by
    obtain ⟨timeout, rfl⟩ := hinit
    exact ⟨.cleared, ⟨rfl, fun h => (by cases h), fun h => by cases h⟩,
      fun h => (by cases h), rfl, rfl⟩
  step h hstep := by
    obtain ⟨hready, rfl⟩ := hstep
    exact h.step hready

theorem clientSystem_balanced : (clientSystem.guarded Calm).Invariant fun s =>
    Tracks s ∧ Balanced s.client where
  init hinit := by
    refine ⟨clientSystem_tracks.init hinit, ?_⟩
    obtain ⟨timeout, rfl⟩ := hinit
    rfl
  step {s s' e} h hstep := by
    obtain ⟨hcalm, hstep⟩ := hstep
    refine ⟨clientSystem_tracks.step h.1 hstep, ?_⟩
    obtain ⟨hready, rfl⟩ := hstep
    refine balanced_step h.2 h.1.sem hready fun he => ?_
    subst he
    exact hcalm

/-- In a state of a run the ring is in order, its entries and those taken and
discarded before are the ones put, in their order, `missed` counts the others,
the permits are in step, and a timer wakes a read that waits. -/
structure InStep (s : QueueRun) : Prop where
  bounded : s.client.queue.elems ≤ XmemDrvrQUEUE_SIZE
  pointers : s.client.queue.inIdx =
    (s.client.queue.outIdx + s.client.queue.elems) % XmemDrvrQUEUE_SIZE
  permits : s.client.semaphore.count + s.client.permits = s.client.queue.elems
  fifo : replay s.history [] = some s.client.queue.pending
  missed : s.client.queue.missed = BitVec.ofNat 16 s.turnedAway
  armed : s.client.timer = true → 0 < s.client.timers
  woken : s.client.phase = .waiting → (s.client.next .fires).phase = .awake

/-- In every run in which each read that takes an entry has a permit. -/
theorem client_in_step (hs : (clientSystem.guarded Calm).Reachable s) :
    InStep s := by
  obtain ⟨htracks, hbalanced⟩ := clientSystem_balanced.reachable hs
  refine ⟨htracks.ring.bounded, htracks.ring.pointers, hbalanced, htracks.fifo,
    htracks.missed, htracks.timer, fun hw => ?_⟩
  have hfired : SemOk { s.client with timers := s.client.timers - 1 } :=
    htracks.sem.congr rfl rfl rfl
  show (qReset { s.client with timers := s.client.timers - 1 }).phase = .awake
  rw [qReset_eq hfired]
  exact if_pos hw

def Possible (s : QueueRun) : List ClientEvent → Prop
  | [] => True
  | e :: es => s.client.ready e ∧ Possible (s.next e) es

theorem Possible.reachable {es : List ClientEvent}
    (hs : clientSystem.Reachable s) (h : Possible s es) :
    clientSystem.Reachable (es.foldl QueueRun.next s) := by
  induction es generalizing s with
  | nil => exact hs
  | cons e es ih => exact ih (hs.step ⟨h.1, rfl⟩) h.2

end Runs

/-! ## Two short runs -/

def openedClient : QueueRun := { client := { timeout := 1000 } }

/-- An entry is put while a read waits for it. -/
theorem client_in_step_put : InStep
    ((((openedClient.next .enters).next .starts).next .waits).next (.puts {})) := by
  have hinit : (clientSystem.guarded Calm).Reachable openedClient :=
    .init ⟨1000, rfl⟩
  have hentered := hinit.step (e := ClientEvent.enters) ⟨trivial, rfl, rfl⟩
  have hstarted := hentered.step (e := ClientEvent.starts) ⟨trivial, rfl, rfl⟩
  have hwaits := hstarted.step (e := ClientEvent.waits) ⟨trivial, rfl, rfl⟩
  exact client_in_step (hwaits.step (e := ClientEvent.puts {}) ⟨trivial, trivial, rfl⟩)

/-- A read is interrupted, and its timer runs while the next read is about to
take. The entry that is put after that is taken without a permit. -/
def lateTimer : List ClientEvent :=
  [.enters, .starts, .waits, .signalled, .aborts, .enters, .starts, .puts {},
    .waits, .looks, .cancels, .fires, .puts {}, .takes]

theorem not_client_in_step :
    ¬ ∀ s, clientSystem.Reachable s → InStep s := by
  intro hall
  have hgoes : Possible openedClient lateTimer :=
    ⟨rfl, rfl, rfl, rfl, rfl, rfl, rfl, trivial, rfl, rfl, rfl, Nat.one_pos, trivial,
      rfl, trivial⟩
  have hafter := (hall _ (hgoes.reachable (.init ⟨1000, rfl⟩))).permits
  exact absurd hafter (by decide)

end Coht.XmemDrvr
