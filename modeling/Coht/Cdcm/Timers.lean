import Coht.Lib.System
import Mathlib.Logic.Function.Basic

/-!
# The timers of the CDCM layer (`cdcmTime.c`)

`timeout()` looks for an entry of the timer table whose `ct_on` is 0, fills it
and adds the timer; the number of the entry plus one is the id it returns. The
callback of an expired timer clears `ct_on` and then calls the function that the
entry names, and `cancel_timeout()` stops the timer of the entry and clears
`ct_on`. None of this is under a lock: a step is one read or write of the table
or one call into the kernel's timers, and any caller may take the next one.

Calls of `timeout()` are numbered, and `ct_uf` and `ct_arg` hold the number of
the call that set them. A callback has the number of the call whose timer has
expired. `user`, `status`, `gone`, `called` and `stopped` are not in the code:
they say who wrote `ct_on` last, what became of a timeout, of which timeouts a
cancel has returned, which functions were called with which arguments (and
whether a cancel had returned before), and which cancel stopped whose timer.
-/

namespace Coht.Cdcm

open Coht.Lib

def MAX_CDCM_TIMERS : Nat := 16

/-- `struct _cdcmTimer` -/
structure CdcmTimer where
  ctOn : Int := 0
  ctUf : Nat := 0
  ctArg : Nat := 0
  /-- the timer is pending, and which call added it -/
  pending : Option Nat := none
  user : Nat := 0
  deriving DecidableEq

/-- How far a call of `timeout()` has come: it is about to read `ct_on` of the
entry or, with the entry found free, to write it, then to write `ct_uf` and
`ct_arg`, to call `init_timer()` and `add_timer()`. -/
inductive TimeoutPhase
  | idle
  | scans (tid : Nat)
  | claims (tid : Nat)
  | writesUf (tid : Nat)
  | writesArg (tid : Nat)
  | inits (tid : Nat)
  | adds (tid : Nat)
  | returned (tid : Option Nat)
  deriving DecidableEq

/-- How far a callback has come: it is about to call `del_timer()`, to clear
`ct_on`, to read `ct_uf`, to read `ct_arg` and call; then the function runs. -/
inductive CallbackPhase
  | idle
  | deletes (tid : Nat)
  | clears (tid : Nat)
  | readsUf (tid : Nat)
  | calls (tid uf : Nat)
  | runs (tid : Nat)
  | done
  deriving DecidableEq

/-- How far a `cancel_timeout()` has come, and for which timeout its caller has
made it: it is about to read `ct_on`, to call `del_timer_sync()`, to clear
`ct_on`. -/
inductive CancelPhase
  | idle
  | reads (k tid : Nat)
  | deletes (k tid : Nat)
  | clears (k tid : Nat)
  | returned
  deriving DecidableEq

inductive Status
  | unstarted | started (tid : Nat) | expired | cancelled
  deriving DecidableEq

structure Timers where
  table : Nat → CdcmTimer := fun _ => {}
  timeouts : Nat → TimeoutPhase := fun _ => .idle
  callbacks : Nat → CallbackPhase := fun _ => .idle
  cancels : Nat → CancelPhase := fun _ => .idle
  status : Nat → Status := fun _ => .unstarted
  gone : Nat → Bool := fun _ => false
  called : List (Nat × Nat × Bool) := []
  stopped : List (Nat × Nat) := []

inductive TimerEvent
  /-- the call `k` of `timeout()` begins, or goes on -/
  | timeout (k : Nat)
  | scans (k : Nat)
  | claims (k : Nat) (pid : Int)
  | writesUf (k : Nat)
  | writesArg (k : Nat)
  | inits (k : Nat)
  | adds (k : Nat)
  /-- the timer that call `k` has added to the entry expires -/
  | expires (k tid : Nat)
  | callbackDeletes (k : Nat)
  | callbackClears (k : Nat)
  | readsUf (k : Nat)
  | calls (k : Nat)
  | ends (k : Nat)
  /-- the cancel `c` of the timeout `k` begins, or goes on -/
  | cancels (c k : Nat)
  | cancelReads (c : Nat)
  | cancelDeletes (c : Nat)
  | cancelClears (c : Nat)

namespace Timers

variable (timers : Timers)

def setEntry (tid : Nat) (entry : CdcmTimer) : Timers :=
  { timers with table := Function.update timers.table tid entry }

def setTimeout (k : Nat) (phase : TimeoutPhase) : Timers :=
  { timers with timeouts := Function.update timers.timeouts k phase }

def setCallback (k : Nat) (phase : CallbackPhase) : Timers :=
  { timers with callbacks := Function.update timers.callbacks k phase }

def setCancel (c : Nat) (phase : CancelPhase) : Timers :=
  { timers with cancels := Function.update timers.cancels c phase }

def setStatus (k : Nat) (status : Status) : Timers :=
  { timers with status := Function.update timers.status k status }

/-- The cancel of timeout `k` returns. -/
def cancelReturns (c k : Nat) : Timers :=
  { timers.setCancel c .returned with gone := Function.update timers.gone k true }

/-- `if (ct_on) continue;` in the loop of `timeout()` -/
def scan (k tid : Nat) : Timers :=
  if MAX_CDCM_TIMERS ≤ tid then timers.setTimeout k (.returned none)
  else if (timers.table tid).ctOn ≠ 0 then timers.setTimeout k (.scans (tid + 1))
  else timers.setTimeout k (.claims tid)

/-- `del_timer_sync()` -/
def delTimerSync (c k tid : Nat) : Timers :=
  let timers := timers.setCancel c (.clears k tid)
  match (timers.table tid).pending with
  | none => timers
  | some k' =>
    { (timers.setEntry tid { timers.table tid with pending := none }).setStatus k'
      .cancelled with stopped := timers.stopped ++ [(k, k')] }

/-- The steps; `none` where the event cannot come. -/
def next (timers : Timers) : TimerEvent → Option Timers
  | .timeout k =>
    if timers.timeouts k = .idle then some (timers.setTimeout k (.scans 0)) else none
  | .scans k =>
    match timers.timeouts k with
    | .scans tid => some (timers.scan k tid)
    | _ => none
  | .claims k pid =>
    match timers.timeouts k with
    | .claims tid =>
      some ((timers.setEntry tid { timers.table tid with ctOn := pid, user := k }).setTimeout
        k (.writesUf tid))
    | _ => none
  | .writesUf k =>
    match timers.timeouts k with
    | .writesUf tid =>
      some ((timers.setEntry tid { timers.table tid with ctUf := k }).setTimeout
        k (.writesArg tid))
    | _ => none
  | .writesArg k =>
    match timers.timeouts k with
    | .writesArg tid =>
      some ((timers.setEntry tid { timers.table tid with ctArg := k }).setTimeout
        k (.inits tid))
    | _ => none
  | .inits k =>
    match timers.timeouts k with
    | .inits tid =>
      some ((timers.setEntry tid { timers.table tid with pending := none }).setTimeout
        k (.adds tid))
    | _ => none
  | .adds k =>
    match timers.timeouts k with
    | .adds tid =>
      some (((timers.setEntry tid { timers.table tid with pending := some k }).setTimeout
        k (.returned (some tid))).setStatus k (.started tid))
    | _ => none
  | .expires k tid =>
    if (timers.table tid).pending = some k then
      some (((timers.setEntry tid { timers.table tid with pending := none }).setCallback
        k (.deletes tid)).setStatus k .expired)
    else none
  | .callbackDeletes k =>
    match timers.callbacks k with
    | .deletes tid =>
      some ((timers.setEntry tid { timers.table tid with pending := none }).setCallback
        k (.clears tid))
    | _ => none
  | .callbackClears k =>
    match timers.callbacks k with
    | .clears tid =>
      some ((timers.setEntry tid { timers.table tid with ctOn := 0 }).setCallback
        k (.readsUf tid))
    | _ => none
  | .readsUf k =>
    match timers.callbacks k with
    | .readsUf tid => some (timers.setCallback k (.calls tid (timers.table tid).ctUf))
    | _ => none
  | .calls k =>
    match timers.callbacks k with
    | .calls tid uf =>
      some { timers.setCallback k (.runs tid) with
        called := timers.called ++ [(uf, (timers.table tid).ctArg, timers.gone uf)] }
    | _ => none
  | .ends k =>
    match timers.callbacks k with
    | .runs _ => some (timers.setCallback k .done)
    | _ => none
  | .cancels c k =>
    match timers.cancels c, timers.timeouts k with
    | .idle, .returned (some tid) => some (timers.setCancel c (.reads k tid))
    | _, _ => none
  | .cancelReads c =>
    match timers.cancels c with
    | .reads k tid =>
      some (if (timers.table tid).ctOn = 0 then timers.cancelReturns c k
        else timers.setCancel c (.deletes k tid))
    | _ => none
  | .cancelDeletes c =>
    match timers.cancels c with
    | .deletes k tid => some (timers.delTimerSync c k tid)
    | _ => none
  | .cancelClears c =>
    match timers.cancels c with
    | .clears k tid =>
      some ((timers.setEntry tid { timers.table tid with ctOn := 0 }).cancelReturns c k)
    | _ => none

end Timers

/-- A callback of the entry that has not ended. -/
def CallbackPhase.On (tid : Nat) : CallbackPhase → Prop
  | .deletes tid' | .clears tid' | .readsUf tid' | .calls tid' _ | .runs tid' => tid' = tid
  | .idle | .done => False

/-- A callback that has cleared `ct_on` of the entry and has yet to call. -/
def CallbackPhase.AboutToCall (tid : Nat) : CallbackPhase → Prop
  | .readsUf tid' | .calls tid' _ => tid' = tid
  | .idle | .deletes _ | .clears _ | .runs _ | .done => False

/-- A cancel that has found the entry in use. -/
def CancelPhase.On (tid : Nat) : CancelPhase → Prop
  | .deletes _ tid' | .clears _ tid' => tid' = tid
  | .idle | .reads .. | .returned => False

/-- `del_timer_sync()` waits for the callbacks of the timer. -/
def Timers.ready (timers : Timers) : TimerEvent → Prop
  | .cancelDeletes c => ∀ k tid, timers.cancels c = .deletes k tid →
      ∀ j, ¬ (timers.callbacks j).On tid
  | _ => True

/-- The table of timers after the module was loaded. -/
def cdcmTimers : System Timers TimerEvent where
  init timers := timers = {}
  step timers e timers' := timers.ready e ∧ timers.next e = some timers'

/-- An entry is taken only if it is free still, by a caller with a process id, while
no callback is about to call what is in the entry and no cancel is on its way there.
And a cancel comes neither when the entry is in use by another timeout nor when the
function is about to be called. -/
def Orderly (timers : Timers) : TimerEvent → Prop
  | .claims k pid => ∀ tid, timers.timeouts k = .claims tid →
      pid ≠ 0 ∧ (timers.table tid).ctOn = 0 ∧
        (∀ j, ¬ (timers.callbacks j).AboutToCall tid) ∧ ∀ c, ¬ (timers.cancels c).On tid
  | .cancelReads c => ∀ k tid, timers.cancels c = .reads k tid →
      ((timers.table tid).ctOn ≠ 0 → (timers.table tid).user = k) ∧
        ¬ (timers.callbacks k).AboutToCall tid
  | _ => True

/-- What is asked of the timers. -/
structure TimersOk (timers : Timers) : Prop where
  /-- timeouts that are started and neither expired nor cancelled have ids of
  their own -/
  ids : ∀ k k' tid, timers.status k = .started tid → timers.status k' = .started tid →
    k = k'
  /-- a function is called with its own argument, and not after a cancel -/
  own : ∀ uf arg late, (uf, arg, late) ∈ timers.called → arg = uf ∧ late = false
  once : (timers.called.map (·.1)).Nodup
  /-- a cancel stops the timer of its own timeout -/
  spared : ∀ k k', (k, k') ∈ timers.stopped → k' = k

/-!
## Runs of the timers

In an orderly run an entry of the table belongs to one timeout at a time, from
the write of `ct_on` until its callback or its cancel clears it (`Held`). All
that happens to the entry in between is done by this timeout, and nobody takes
the entry before the callback has read the function and its argument. So the
ids are distinct, each function is called once and as it was asked for, and a
cancel meets its own timer (`timers_ok`).

Runs that are not orderly go wrong in each of these points: two callers that scan
at the same time or one without a process id share an entry, a callback calls the
function of a newcomer, a cancel that finds the entry free returns before the
function is called, and a late cancel stops the timer of another client.
-/

def TimeoutPhase.Filling (tid : Nat) : TimeoutPhase → Prop
  | .writesUf tid' | .writesArg tid' | .inits tid' | .adds tid' => tid' = tid
  | .idle | .scans _ | .claims _ | .returned _ => False

def CallbackPhase.Waiting : CallbackPhase → Prop
  | .deletes _ | .clears _ | .readsUf _ | .calls .. => True
  | .idle | .runs _ | .done => False

def CdcmTimer.InUse (entry : CdcmTimer) (k : Nat) : Prop := entry.ctOn ≠ 0 ∧ entry.user = k

def CdcmTimer.Names (entry : CdcmTimer) (k : Nat) : Prop := entry.ctUf = k ∧ entry.ctArg = k

structure Held (timers : Timers) : Prop where
  filling : ∀ k tid, (timers.timeouts k).Filling tid →
    (timers.table tid).InUse k ∧ (timers.table tid).pending = none ∧
      ∀ j, ¬ (timers.callbacks j).AboutToCall tid
  uf : ∀ k tid, timers.timeouts k = .writesArg tid ∨ timers.timeouts k = .inits tid ∨
    timers.timeouts k = .adds tid → (timers.table tid).ctUf = k
  arg : ∀ k tid, timers.timeouts k = .inits tid ∨ timers.timeouts k = .adds tid →
    (timers.table tid).ctArg = k
  early : ∀ k, (∀ tid, timers.timeouts k ≠ .returned (some tid)) →
    timers.status k = .unstarted ∧ timers.callbacks k = .idle ∧ timers.gone k = false
  pending : ∀ k tid, (timers.table tid).pending = some k →
    (timers.table tid).InUse k ∧ (timers.table tid).Names k ∧
      timers.timeouts k = .returned (some tid) ∧ timers.status k = .started tid ∧
      timers.callbacks k = .idle
  started : ∀ k tid, timers.status k = .started tid → (timers.table tid).pending = some k
  before : ∀ k tid, timers.callbacks k = .deletes tid ∨ timers.callbacks k = .clears tid →
    (timers.table tid).InUse k ∧ (timers.table tid).Names k ∧
      timers.timeouts k = .returned (some tid) ∧ (timers.table tid).pending = none
  after : ∀ k tid, (timers.callbacks k).AboutToCall tid →
    (timers.table tid).Names k ∧ timers.timeouts k = .returned (some tid)
  read : ∀ k tid uf, timers.callbacks k = .calls tid uf → uf = k
  called : ∀ uf arg late, (uf, arg, late) ∈ timers.called → arg = uf ∧ late = false ∧
    (timers.callbacks uf = .done ∨ ∃ tid, timers.callbacks uf = .runs tid)
  once : (timers.called.map (·.1)).Nodup
  spared : ∀ k k', (k, k') ∈ timers.stopped → k' = k
  reads : ∀ c k tid, timers.cancels c = .reads k tid →
    timers.timeouts k = .returned (some tid)
  cancel : ∀ c k tid, timers.cancels c = .deletes k tid ∨ timers.cancels c = .clears k tid →
    timers.timeouts k = .returned (some tid) ∧ (timers.table tid).user = k
  clears : ∀ c k tid, timers.cancels c = .clears k tid →
    (timers.table tid).pending = none ∧ ¬ (timers.callbacks k).Waiting
  gone : ∀ k, timers.gone k = true →
    (∀ tid, timers.status k ≠ .started tid) ∧ ¬ (timers.callbacks k).Waiting

attribute [grind →] Held.pending Held.started Held.read Held.called Held.once Held.spared
  Held.reads Held.clears Held.gone
grind_pattern Held.filling => Held timers, timers.timeouts k, timers.table tid
grind_pattern Held.uf => Held timers, timers.timeouts k, timers.table tid
grind_pattern Held.arg => Held timers, timers.timeouts k, timers.table tid
grind_pattern Held.early => Held timers, timers.timeouts k
grind_pattern Held.early => Held timers, timers.callbacks k
grind_pattern Held.early => Held timers, timers.status k
grind_pattern Held.before => Held timers, timers.callbacks k, timers.table tid
grind_pattern Held.after => Held timers, timers.callbacks k, timers.table tid
grind_pattern Held.cancel => Held timers, timers.cancels c, timers.timeouts k, timers.table tid
attribute [grind] TimeoutPhase.Filling CallbackPhase.Waiting CallbackPhase.AboutToCall
  CallbackPhase.On CancelPhase.On CdcmTimer.InUse CdcmTimer.Names

variable {timers timers' : Timers} {c k tid uf : Nat}

theorem Held.no_timer (h : Held timers) (hfree : (timers.table tid).ctOn = 0) :
    (timers.table tid).pending = none := by
  cases hp : (timers.table tid).pending with
  | none => rfl
  | some k' => exact absurd hfree (h.pending k' tid hp).1.1

/-! ### Timeouts -/

theorem held_looks {phase : TimeoutPhase} (h : Held timers)
    (hk : ∀ tid, timers.timeouts k ≠ .returned (some tid))
    (hphase : phase = .scans tid ∨ phase = .claims tid ∨ phase = .returned none) :
    Held (timers.setTimeout k phase) := by
  constructor <;> simp only [Timers.setTimeout, Function.update_apply] <;> grind

theorem held_scan (h : Held timers) (hk : timers.timeouts k = .scans tid) :
    Held (timers.scan k tid) := by
  have hnone : ∀ tid', timers.timeouts k ≠ .returned (some tid') := by simp [hk]
  simp only [Timers.scan]
  split
  · exact @held_looks timers k tid _ h hnone (.inr (.inr rfl))
  · split
    · exact held_looks h hnone (.inl rfl)
    · exact held_looks h hnone (.inr (.inl rfl))

theorem held_claims {pid : Int} (h : Held timers) (hk : timers.timeouts k = .claims tid)
    (hpid : pid ≠ 0) (hfree : (timers.table tid).ctOn = 0)
    (hcall : ∀ j, ¬ (timers.callbacks j).AboutToCall tid)
    (hcancel : ∀ c, ¬ (timers.cancels c).On tid) :
    Held ((timers.setEntry tid { timers.table tid with ctOn := pid, user := k }).setTimeout
      k (.writesUf tid)) := by
  have hnone := h.no_timer hfree
  constructor <;>
    simp only [Timers.setEntry, Timers.setTimeout, Function.update_apply] <;> grind

theorem Held.alone (h : Held timers) (hk : (timers.timeouts k).Filling tid) (j : Nat) :
    timers.callbacks j ≠ .deletes tid ∧ timers.callbacks j ≠ .clears tid := by
  obtain ⟨⟨-, huser⟩, -⟩ := h.filling k tid hk
  constructor
  · intro hj
    obtain ⟨⟨-, huser'⟩, -, hret, -⟩ := h.before j tid (.inl hj)
    obtain rfl : k = j := huser.symm.trans huser'
    rw [hret] at hk
    exact hk
  · intro hj
    obtain ⟨⟨-, huser'⟩, -, hret, -⟩ := h.before j tid (.inr hj)
    obtain rfl : k = j := huser.symm.trans huser'
    rw [hret] at hk
    exact hk

theorem held_writesUf (h : Held timers) (hk : timers.timeouts k = .writesUf tid) :
    Held ((timers.setEntry tid { timers.table tid with ctUf := k }).setTimeout
      k (.writesArg tid)) := by
  have hfills : (timers.timeouts k).Filling tid := by simp [hk, TimeoutPhase.Filling]
  have hwaits := h.alone hfills
  constructor <;>
    simp only [Timers.setEntry, Timers.setTimeout, Function.update_apply] <;> grind

theorem held_writesArg (h : Held timers) (hk : timers.timeouts k = .writesArg tid) :
    Held ((timers.setEntry tid { timers.table tid with ctArg := k }).setTimeout
      k (.inits tid)) := by
  have hfills : (timers.timeouts k).Filling tid := by simp [hk, TimeoutPhase.Filling]
  have hwaits := h.alone hfills
  constructor <;>
    simp only [Timers.setEntry, Timers.setTimeout, Function.update_apply] <;> grind

theorem held_inits (h : Held timers) (hk : timers.timeouts k = .inits tid) :
    Held ((timers.setEntry tid { timers.table tid with pending := none }).setTimeout
      k (.adds tid)) := by
  have hfills : (timers.timeouts k).Filling tid := by simp [hk, TimeoutPhase.Filling]
  have hwaits := h.alone hfills
  constructor <;>
    simp only [Timers.setEntry, Timers.setTimeout, Function.update_apply] <;> grind

theorem held_adds (h : Held timers) (hk : timers.timeouts k = .adds tid) :
    Held (((timers.setEntry tid { timers.table tid with pending := some k }).setTimeout
      k (.returned (some tid))).setStatus k (.started tid)) := by
  have hfills : (timers.timeouts k).Filling tid := by simp [hk, TimeoutPhase.Filling]
  have hwaits := h.alone hfills
  constructor <;>
    simp only [Timers.setEntry, Timers.setTimeout, Timers.setStatus, Function.update_apply] <;>
    grind

/-! ### Callbacks -/

theorem held_expires (h : Held timers) (hk : (timers.table tid).pending = some k) :
    Held (((timers.setEntry tid { timers.table tid with pending := none }).setCallback
      k (.deletes tid)).setStatus k .expired) := by
  constructor <;>
    simp only [Timers.setEntry, Timers.setCallback, Timers.setStatus, Function.update_apply] <;>
    grind

theorem held_callbackDeletes (h : Held timers) (hk : timers.callbacks k = .deletes tid) :
    Held ((timers.setEntry tid { timers.table tid with pending := none }).setCallback
      k (.clears tid)) := by
  constructor <;>
    simp only [Timers.setEntry, Timers.setCallback, Function.update_apply] <;> grind

theorem held_callbackClears (h : Held timers) (hk : timers.callbacks k = .clears tid) :
    Held ((timers.setEntry tid { timers.table tid with ctOn := 0 }).setCallback
      k (.readsUf tid)) := by
  constructor <;>
    simp only [Timers.setEntry, Timers.setCallback, Function.update_apply] <;> grind

theorem held_readsUf (h : Held timers) (hk : timers.callbacks k = .readsUf tid) :
    Held (timers.setCallback k (.calls tid (timers.table tid).ctUf)) := by
  constructor <;> simp only [Timers.setCallback, Function.update_apply] <;> grind

theorem held_calls (h : Held timers) (hk : timers.callbacks k = .calls tid uf) :
    Held { timers.setCallback k (.runs tid) with
      called := timers.called ++ [(uf, (timers.table tid).ctArg, timers.gone uf)] } := by
  constructor <;> simp only [Timers.setCallback, Function.update_apply] <;> grind

theorem held_ends (h : Held timers) (hk : timers.callbacks k = .runs tid) :
    Held (timers.setCallback k .done) := by
  constructor <;> simp only [Timers.setCallback, Function.update_apply] <;> grind

/-! ### Cancels -/

theorem held_setCancel {phase : CancelPhase} (h : Held timers)
    (hreads : ∀ k tid, phase = .reads k tid → timers.timeouts k = .returned (some tid))
    (hcancel : ∀ k tid, phase = .deletes k tid ∨ phase = .clears k tid →
      timers.timeouts k = .returned (some tid) ∧ (timers.table tid).user = k)
    (hclears : ∀ k tid, phase = .clears k tid →
      (timers.table tid).pending = none ∧ ¬ (timers.callbacks k).Waiting) :
    Held (timers.setCancel c phase) :=
  { h with
    reads := by
      intro c' k tid hk
      simp only [Timers.setCancel, Function.update_apply] at hk
      split at hk
      · exact hreads k tid hk
      · exact h.reads c' k tid hk
    cancel := by
      intro c' k tid hk
      simp only [Timers.setCancel, Function.update_apply] at hk
      split at hk
      · exact hcancel k tid hk
      · exact h.cancel c' k tid hk
    clears := by
      intro c' k tid hk
      simp only [Timers.setCancel, Function.update_apply] at hk
      split at hk
      · exact hclears k tid hk
      · exact h.clears c' k tid hk }

theorem held_cancels (h : Held timers) (hk : timers.timeouts k = .returned (some tid)) :
    Held (timers.setCancel c (.reads k tid)) := by
  refine held_setCancel h ?_ (by simp) (by simp)
  intro k' tid' heq
  cases heq
  exact hk

theorem Held.waiting_on (h : Held timers) (hk : timers.timeouts k = .returned (some tid))
    (hwait : (timers.callbacks k).Waiting) : (timers.callbacks k).On tid := by
  cases hj : timers.callbacks k with
  | idle | runs _ | done =>
    rw [hj] at hwait
    exact hwait.elim
  | deletes tid' | clears tid' =>
    obtain ⟨-, -, hret, -⟩ := h.before k tid' (by simp [hj])
    simp_all [CallbackPhase.On]
  | readsUf tid' | calls tid' _ =>
    obtain ⟨-, hret⟩ := h.after k tid' (by simp [hj, CallbackPhase.AboutToCall])
    simp_all [CallbackPhase.On]

theorem held_cancelReads (h : Held timers) (hc : timers.cancels c = .reads k tid)
    (huser : (timers.table tid).ctOn ≠ 0 → (timers.table tid).user = k)
    (hcall : ¬ (timers.callbacks k).AboutToCall tid) :
    Held (if (timers.table tid).ctOn = 0 then timers.cancelReturns c k
      else timers.setCancel c (.deletes k tid)) := by
  split
  · have hover : ¬ (timers.callbacks k).Waiting := by
      intro hwait
      have hon := h.waiting_on (h.reads c k tid hc) hwait
      have hbefore := h.before k tid
      cases hj : timers.callbacks k <;>
        grind
    constructor <;>
      simp only [Timers.cancelReturns, Timers.setCancel, Function.update_apply] <;> grind
  · next hon =>
    refine held_setCancel h (by simp) ?_ (by simp)
    rintro k' tid' (heq | heq) <;> cases heq
    exact ⟨h.reads c k tid hc, huser hon⟩

theorem held_stops (h : Held timers) (hpending : (timers.table tid).pending = some k) :
    Held { (timers.setEntry tid { timers.table tid with pending := none }).setStatus k
      .cancelled with stopped := timers.stopped ++ [(k, k)] } := by
  have hpend := h.pending k tid hpending
  constructor <;>
    simp only [Timers.setEntry, Timers.setStatus, Function.update_apply] <;>
    grind

theorem held_deleted (h : Held timers) (hc : timers.cancels c = .deletes k tid)
    (hnone : (timers.table tid).pending = none) (hover : ¬ (timers.callbacks k).Waiting) :
    Held (timers.setCancel c (.clears k tid)) := by
  refine held_setCancel h (by simp) ?_ ?_
  · rintro k' tid' (heq | heq) <;> cases heq
    exact h.cancel c k tid (.inl hc)
  · intro k' tid' heq
    cases heq
    exact ⟨hnone, hover⟩

theorem held_delTimerSync (h : Held timers) (hc : timers.cancels c = .deletes k tid)
    (hwait : ∀ j, ¬ (timers.callbacks j).On tid) : Held (timers.delTimerSync c k tid) := by
  have hover : ¬ (timers.callbacks k).Waiting := by
    intro hwaits
    exact hwait k (h.waiting_on (h.cancel c k tid (.inl hc)).1 hwaits)
  unfold Timers.delTimerSync
  dsimp only
  split
  · next hnone => exact held_deleted h hc hnone hover
  · next k' hpending =>
    have hsame : k' = k :=
      (h.pending k' tid hpending).1.2.symm.trans (h.cancel c k tid (.inl hc)).2
    subst hsame
    refine held_deleted (held_stops h hpending) hc ?_ hover
    simp only [Timers.setEntry, Timers.setStatus, Function.update_self]

theorem held_cancelClears (h : Held timers) (hc : timers.cancels c = .clears k tid) :
    Held ((timers.setEntry tid { timers.table tid with ctOn := 0 }).cancelReturns c k) := by
  constructor <;>
    simp only [Timers.setEntry, Timers.cancelReturns, Timers.setCancel, Function.update_apply] <;>
    grind

/-! ### Runs -/

theorem held_init : Held {} := by
  constructor <;> simp [TimeoutPhase.Filling, CallbackPhase.AboutToCall]

theorem held_step {e : TimerEvent} (h : Held timers)
    (hs : (cdcmTimers.guarded Orderly).step timers e timers') : Held timers' := by
  obtain ⟨horderly, hready, hnext⟩ := hs
  cases e with
  | timeout k =>
    simp only [Timers.next] at hnext
    split at hnext <;> cases hnext
    next hk => exact held_looks h (by simp [hk]) (.inl rfl)
  | scans k =>
    simp only [Timers.next] at hnext
    split at hnext <;> cases hnext
    next hk => exact held_scan h hk
  | claims k pid =>
    simp only [Timers.next] at hnext
    split at hnext <;> cases hnext
    next hk =>
      obtain ⟨hpid, hfree, hcall, hcancel⟩ := horderly _ hk
      exact held_claims h hk hpid hfree hcall hcancel
  | writesUf k =>
    simp only [Timers.next] at hnext
    split at hnext <;> cases hnext
    next hk => exact held_writesUf h hk
  | writesArg k =>
    simp only [Timers.next] at hnext
    split at hnext <;> cases hnext
    next hk => exact held_writesArg h hk
  | inits k =>
    simp only [Timers.next] at hnext
    split at hnext <;> cases hnext
    next hk => exact held_inits h hk
  | adds k =>
    simp only [Timers.next] at hnext
    split at hnext <;> cases hnext
    next hk => exact held_adds h hk
  | expires k tid =>
    simp only [Timers.next] at hnext
    split at hnext <;> cases hnext
    next hk => exact held_expires h hk
  | callbackDeletes k =>
    simp only [Timers.next] at hnext
    split at hnext <;> cases hnext
    next hk => exact held_callbackDeletes h hk
  | callbackClears k =>
    simp only [Timers.next] at hnext
    split at hnext <;> cases hnext
    next hk => exact held_callbackClears h hk
  | readsUf k =>
    simp only [Timers.next] at hnext
    split at hnext <;> cases hnext
    next hk => exact held_readsUf h hk
  | calls k =>
    simp only [Timers.next] at hnext
    split at hnext <;> cases hnext
    next hk => exact held_calls h hk
  | ends k =>
    simp only [Timers.next] at hnext
    split at hnext <;> cases hnext
    next hk => exact held_ends h hk
  | cancels c k =>
    simp only [Timers.next] at hnext
    split at hnext <;> cases hnext
    next hk => exact held_cancels h hk
  | cancelReads c =>
    simp only [Timers.next] at hnext
    split at hnext <;> cases hnext
    next hc =>
      obtain ⟨huser, hcall⟩ := horderly _ _ hc
      exact held_cancelReads h hc huser hcall
  | cancelDeletes c =>
    simp only [Timers.next] at hnext
    split at hnext <;> cases hnext
    next hc => exact held_delTimerSync h hc (hready _ _ hc)
  | cancelClears c =>
    simp only [Timers.next] at hnext
    split at hnext <;> cases hnext
    next hc => exact held_cancelClears h hc

theorem held_invariant : (cdcmTimers.guarded Orderly).Invariant Held where
  init h := by
    cases h
    exact held_init
  step := held_step

def bothScan : List TimerEvent :=
  [.timeout 0, .timeout 1, .scans 0, .scans 1,
    .claims 0 5, .writesUf 0, .writesArg 0, .inits 0, .adds 0,
    .claims 1 6, .writesUf 1, .writesArg 1, .inits 1, .adds 1]

def TimerEvent.isCancelDeletes : TimerEvent → Bool
  | .cancelDeletes _ => true
  | _ => false

theorem events_reachable {events : List TimerEvent} (h : cdcmTimers.Reachable timers)
    (hnone : ∀ e ∈ events, e.isCancelDeletes = false)
    (hrun : events.foldlM Timers.next timers = some timers') :
    cdcmTimers.Reachable timers' := by
  induction events generalizing timers with
  | nil =>
    cases hrun
    exact h
  | cons e events ih =>
    simp only [List.foldlM_cons, Option.bind_eq_bind, Option.bind_eq_some_iff] at hrun
    obtain ⟨next, hnext, hrest⟩ := hrun
    have hready : timers.ready e := by
      have hwait := hnone e (by simp)
      cases e with
      | cancelDeletes c => cases hwait
      | _ => trivial
    exact ih (h.step ⟨hready, hnext⟩) (fun e he => hnone e (by simp [he])) hrest

theorem bothScan_started :
    ((bothScan.foldlM Timers.next {}).map fun timers => (timers.status 0, timers.status 1)) =
      some (.started 0, .started 0) := by
  decide

end Coht.Cdcm
