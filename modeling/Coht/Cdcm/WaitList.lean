import Coht.Cdcm.Semaphore
import Coht.Lib.System
import Mathlib.Logic.Function.Basic
import Mathlib.Algebra.Group.Nat.Defs
import Mathlib.Algebra.Group.Int.Defs
import Mathlib.Data.List.Nodup

/-!
# Waiting on a semaphore (`cdcmTime.c`)

The functions of `Semaphore` are what the drivers see of a semaphore. Here are
the calls behind them, with their waiter structures: `swait()` and `tswait()`
put a waiter on the list and sleep, and each time the task comes back from
`schedule_timeout()` it looks at the waiter first, then at its signals, then at
the time that is left. A step is what a task does under `sem->lock` without a
break; a signal that is pending and the time that is left are what the step
finds.

Calls are numbered in the order in which they are made. A task makes one call
after the other, and which task makes a call does not matter to the semaphore.
A waiter is known by the number of its call, for it is on the stack of that
call. What was granted, woken and returned so far is kept for the statements.

`count` has 32 bits and wraps.
-/

namespace Coht.Cdcm

open Coht.Lib

def OK : Int := 0
def SYSERR : Int := -1
def TSWAIT_ABORTED : Int := -1
def TSWAIT_TIMEDOUT : Int := 1

def SEM_SIGIGNORE : Int := -1
def SEM_SIGRETRY : Int := 0
def SEM_SIGABORT : Int := 1

def EINTR : Int := 4
def ETIME : Int := 62

def MAX_SCHEDULE_TIMEOUT : Int := 2 ^ 63 - 1

/-- Who called `__cdcm_down_common()`: `cdcm_down()`, `cdcm_down_interruptible()`
or `cdcm_down_timeout()`. -/
inductive Caller
  | down | interruptible | timeout
  deriving DecidableEq

/-- `signal_pending_state()` for the state the caller sleeps in. -/
def Caller.signalPending (caller : Caller) (signalled : Bool) : Bool :=
  caller = .interruptible && signalled

/-- What the call returns, for the value of `__cdcm_down_common()`. The value is
dropped by `__cdcm_down()`. -/
def Caller.result : Caller → Int → Int
  | .down, _ => OK
  | .interruptible, ret => if ret ≠ 0 then SYSERR else OK
  | .timeout, ret =>
    if ret = 0 then OK
    else if ret = -ETIME then TSWAIT_TIMEDOUT
    else if ret = -EINTR then TSWAIT_ABORTED
    else SYSERR

/-- A call inside `__cdcm_down_common()`, with the mark of its waiter. -/
structure Waiter where
  caller : Caller
  timeout : Int
  up : Bool := false
  deriving DecidableEq

/-- `struct cdcm_sem` and the calls on it. -/
structure Sema where
  count : BitVec 32 := 0
  waitList : List Nat := []
  inside : Nat → Option Waiter := fun _ => none
  calls : Nat := 0
  /-- the ups, the wake-ups of `sreset()` among them -/
  ups : Nat := 0
  /-- the permits that `sreset()` took away -/
  discarded : Nat := 0
  /-- the calls that were granted a permit, once for each -/
  granted : List Nat := []
  /-- the calls that began to wait -/
  began : List Nat := []
  woken : List Nat := []
  returned : List (Nat × Int) := []

namespace Sema

variable (sem : Sema)

/-- `__cdcm_up_waiter()` -/
def upWaiter : Sema :=
  match sem.waitList with
  | [] => sem
  | k :: rest =>
    { sem with
      waitList := rest
      inside := Function.update sem.inside k
        ((sem.inside k).map fun waiter => { waiter with up := true })
      ups := sem.ups + 1
      granted := sem.granted ++ [k]
      woken := sem.woken ++ [k] }

/-- `__cdcm_up()` -/
def cdcmUp : Sema :=
  if sem.waitList = [] then { sem with count := sem.count + 1, ups := sem.ups + 1 }
  else sem.upWaiter

/-- The loop of `ssignaln()`. -/
def cdcmUps : Nat → Sema → Sema
  | 0, sem => sem
  | n + 1, sem => cdcmUps n sem.cdcmUp

/-- The loop of `__sreset()`. -/
def upWaiters : Nat → Sema → Sema
  | 0, sem => sem
  | n + 1, sem => upWaiters n sem.upWaiter

/-- `__sreset()` -/
def sreset : Sema :=
  if sem.count = 0 then upWaiters sem.waitList.length sem
  else { sem with count := 0, discarded := sem.discarded + sem.count.toNat }

/-- The call returns. -/
def returns (k : Nat) (ret : Int) : Sema :=
  { sem with
    inside := Function.update sem.inside k none
    returned := sem.returned ++ [(k, ret)] }

/-- `list_del(&waiter.list)` -/
def listDel (k : Nat) : Sema := { sem with waitList := sem.waitList.erase k }

/-- The head of the loop in `__cdcm_down_common()`: two ways out, or to sleep. -/
def downRound (k : Nat) (waiter : Waiter) (signalled : Bool) : Sema :=
  if waiter.caller.signalPending signalled then
    (sem.listDel k).returns k (waiter.caller.result (-EINTR))
  else if waiter.timeout ≤ 0 then
    (sem.listDel k).returns k (waiter.caller.result (-ETIME))
  else { sem with inside := Function.update sem.inside k (some waiter) }

/-- `__cdcm_down_common()` up to the first sleep. -/
def downCommon (k : Nat) (caller : Caller) (timeout : Int) (signalled : Bool) : Sema :=
  { sem with
    waitList := sem.waitList ++ [k]
    began := sem.began ++ [k] }.downRound k { caller, timeout } signalled

/-- The permit goes to the call, which returns. -/
def acquires (k : Nat) (ret : Int) : Sema :=
  { sem with count := sem.count - 1, granted := sem.granted ++ [k] }.returns k ret

/-- `cdcm_down()`, `cdcm_down_interruptible()` and `cdcm_down_timeout()`. -/
def cdcmDown (k : Nat) (caller : Caller) (timeout : Int) (signalled : Bool) : Sema :=
  if 0 < sem.count then sem.acquires k (caller.result 0)
  else sem.downCommon k caller timeout signalled

/-- `cdcm_down_trylock()`. The difference is an `int`. -/
def cdcmDownTrylock (k : Nat) : Sema :=
  if 0 ≤ (sem.count - 1).toInt then sem.acquires k 0 else sem.returns k 1

/-- `swait()`; `found` says that `get_sema()` has found or made the semaphore. -/
def swait (k : Nat) (sig : Int) (found signalled : Bool) : Sema :=
  if found = false then sem.returns k SYSERR
  else if sig = SEM_SIGIGNORE then sem.cdcmDown k .down MAX_SCHEDULE_TIMEOUT signalled
  else if sig = SEM_SIGABORT ∨ sig = SEM_SIGRETRY then
    sem.cdcmDown k .interruptible MAX_SCHEDULE_TIMEOUT signalled
  else sem.returns k SYSERR

/-- `tswait()` on a semaphore. The kernel says how many jiffies an interval is. -/
def tswait (jiffies : Int → Int) (k : Nat) (sig interval : Int)
    (found signalled : Bool) : Sema :=
  if found = false then sem.returns k SYSERR
  else if interval = 0 then sem.cdcmDownTrylock k
  else if interval < 0 then sem.swait k sig true signalled
  else sem.cdcmDown k .timeout (jiffies interval) signalled

/-- `schedule_timeout()`: without a limit none of the time is used up. -/
def scheduleTimeout (timeout left : Int) : Int :=
  if timeout = MAX_SCHEDULE_TIMEOUT then MAX_SCHEDULE_TIMEOUT else left

/-- The call comes back from `schedule_timeout()`. -/
def wakes (k : Nat) (waiter : Waiter) (left : Int) (signalled : Bool) : Sema :=
  if waiter.up then sem.returns k (waiter.caller.result 0)
  else
    sem.downRound k { waiter with timeout := scheduleTimeout waiter.timeout left }
      signalled

end Sema

inductive SemEvent
  | swait (sig : Int) (found signalled : Bool)
  | tswait (sig interval : Int) (found signalled : Bool)
  | wakes (k : Nat) (left : Int) (signalled : Bool)
  | ssignal (found : Bool)
  | ssignaln (count : Int) (found : Bool)
  | sreset (found : Bool)

/-- A call gets the next number. -/
def Sema.begins (sem : Sema) : Sema := { sem with calls := sem.calls + 1 }

def Sema.next (jiffies : Int → Int) (sem : Sema) : SemEvent → Option Sema
  | .swait sig found signalled => some (sem.begins.swait sem.calls sig found signalled)
  | .tswait sig interval found signalled =>
    some (sem.begins.tswait jiffies sem.calls sig interval found signalled)
  | .wakes k left signalled =>
    match sem.inside k with
    | some waiter => some (sem.wakes k waiter left signalled)
    | none => none
  | .ssignal found => some (if found then sem.cdcmUp else sem)
  | .ssignaln count found => some (if found then sem.cdcmUps count.toNat else sem)
  | .sreset found => some (if found then sem.sreset else sem)

/-- A user semaphore with its initial value. -/
def semaphore (jiffies : Int → Int) (initial : BitVec 32) : System Sema SemEvent where
  init sem := sem = { count := initial }
  step sem e sem' := sem.next jiffies e = some sem'

/-! ## The books of a semaphore -/

structure Sound (sem : Sema) : Prop where
  /-- no call waits while a permit is free -/
  tight : sem.count ≠ 0 → sem.waitList = []
  /-- on the list are the calls that sleep without a mark -/
  listed : ∀ k, k ∈ sem.waitList ↔ ∃ waiter, sem.inside k = some waiter ∧ waiter.up = false
  order : (sem.woken ++ sem.waitList).Sublist sem.began
  once : sem.began.Nodup
  begun : ∀ k ∈ sem.began, k < sem.calls
  /-- a call that is not interruptible has all the time -/
  patient : ∀ k waiter, sem.inside k = some waiter → waiter.caller = .down →
    waiter.timeout = MAX_SCHEDULE_TIMEOUT
  inside : ∀ k waiter, sem.inside k = some waiter →
    k < sem.calls ∧ sem.granted.count k = if waiter.up then 1 else 0
  fresh : ∀ k, sem.calls ≤ k → k ∉ sem.granted
  returned : ∀ k ret, (k, ret) ∈ sem.returned →
    k < sem.calls ∧ sem.inside k = none ∧ sem.granted.count k = if ret = OK then 1 else 0

structure Entering (sem : Sema) (k : Nat) : Prop where
  begun : k < sem.calls
  asleep : sem.inside k = none
  permit : k ∉ sem.granted
  waited : k ∉ sem.began
  back : ∀ ret, (k, ret) ∉ sem.returned

variable {sem : Sema} {k : Nat} {ret : Int}

theorem Sound.waits_once (h : Sound sem) : sem.waitList.Nodup :=
  List.Nodup.of_append_right (List.Nodup.sublist h.order h.once)

theorem Sound.not_listed (h : Sound sem) (hk : sem.inside k = none) :
    k ∉ sem.waitList := by
  intro hmem
  obtain ⟨waiter, hin, -⟩ := (h.listed k).mp hmem
  rw [hk] at hin
  cases hin

theorem sound_begins (h : Sound sem) : Sound sem.begins where
  tight := h.tight
  listed := h.listed
  order := h.order
  once := h.once
  begun k hk := Nat.lt_succ_of_lt (h.begun k hk)
  patient := h.patient
  inside k waiter hk :=
    ⟨Nat.lt_succ_of_lt (h.inside k waiter hk).1, (h.inside k waiter hk).2⟩
  fresh k hk := h.fresh k (Nat.le_of_succ_le hk)
  returned k ret hk :=
    ⟨Nat.lt_succ_of_lt (h.returned k ret hk).1, (h.returned k ret hk).2⟩

theorem entering_begins (h : Sound sem) : Entering sem.begins sem.calls where
  begun := Nat.lt_succ_self _
  asleep := by
    cases hin : sem.inside sem.calls with
    | none => exact hin
    | some waiter => exact absurd (h.inside _ _ hin).1 (Nat.lt_irrefl _)
  permit := h.fresh _ (Nat.le_refl _)
  waited := fun hk => absurd (h.begun _ hk) (Nat.lt_irrefl _)
  back := fun _ hk => absurd (h.returned _ _ hk).1 (Nat.lt_irrefl _)

theorem sound_returns (h : Sound sem) (hk : k < sem.calls) (hlist : k ∉ sem.waitList)
    (hcount : sem.granted.count k = if ret = OK then 1 else 0) :
    Sound (sem.returns k ret) where
  tight := h.tight
  listed k' := by
    show k' ∈ sem.waitList ↔ _
    rw [h.listed k']
    by_cases hkk : k' = k
    · subst hkk
      simp only [Sema.returns, Function.update_self]
      exact iff_of_false (fun hin => hlist ((h.listed k').mpr hin)) (by simp)
    · simp [Sema.returns, Function.update_of_ne hkk]
  order := h.order
  once := h.once
  begun := h.begun
  patient k' waiter hin hcaller := by
    by_cases hkk : k' = k
    · simp [Sema.returns, hkk] at hin
    · exact h.patient k' waiter (by simpa [Sema.returns, hkk] using hin) hcaller
  inside k' waiter hin := by
    by_cases hkk : k' = k
    · simp [Sema.returns, hkk] at hin
    · exact h.inside k' waiter (by simpa [Sema.returns, hkk] using hin)
  fresh := h.fresh
  returned k' ret' hmem := by
    simp only [Sema.returns, List.mem_append, List.mem_singleton, Prod.mk.injEq] at hmem
    rcases hmem with hold | ⟨rfl, rfl⟩
    · obtain ⟨hlt, hin, hc⟩ := h.returned k' ret' hold
      refine ⟨hlt, ?_, hc⟩
      by_cases hkk : k' = k
      · simp [Sema.returns, hkk]
      · simpa [Sema.returns, hkk] using hin
    · exact ⟨hk, by simp [Sema.returns], hcount⟩

theorem sound_acquires (h : Sound sem) (hnew : Entering sem k) (hpos : sem.count ≠ 0) :
    Sound (sem.acquires k OK) := by
  have hcount : ∀ k', k' ≠ k → (sem.granted ++ [k]).count k' = sem.granted.count k' := by
    intro k' hne
    simp [List.count_append, hne.symm]
  have hmid : Sound { sem with count := sem.count - 1, granted := sem.granted ++ [k] } := by
    refine ⟨fun _ => h.tight hpos, h.listed, h.order, h.once, h.begun, h.patient, ?_, ?_, ?_⟩
    · intro k' waiter hin
      have hne : k' ≠ k := by
        rintro rfl
        rw [hnew.asleep] at hin
        cases hin
      exact ⟨(h.inside k' waiter hin).1, (hcount k' hne).trans (h.inside k' waiter hin).2⟩
    · intro k' hk' hmem
      rcases List.mem_append.mp hmem with hold | hlast
      · exact h.fresh k' hk' hold
      · rw [List.mem_singleton.mp hlast] at hk'
        exact absurd hnew.begun (Nat.not_lt.mpr hk')
    · intro k' ret' hmem
      have hne : k' ≠ k := by
        rintro rfl
        exact hnew.back ret' hmem
      obtain ⟨hlt, hin, hc⟩ := h.returned k' ret' hmem
      exact ⟨hlt, hin, (hcount k' hne).trans hc⟩
  refine sound_returns hmid hnew.begun ?_ ?_
  · exact h.not_listed hnew.asleep
  · simp [List.count_append, List.count_eq_zero.mpr hnew.permit]

theorem sound_upWaiter (h : Sound sem) : Sound sem.upWaiter := by
  cases hlist : sem.waitList with
  | nil => simpa only [Sema.upWaiter, hlist] using h
  | cons k rest =>
    obtain ⟨waiter, hin, hup⟩ := (h.listed k).mp (by simp [hlist])
    have hzero : sem.count = 0 := by
      by_contra hne
      simpa [hlist] using h.tight hne
    have hk : k ∉ rest := by
      have honce := h.waits_once
      rw [hlist] at honce
      exact (List.nodup_cons.mp honce).1
    have hnone : sem.granted.count k = 0 := by simpa [hup] using (h.inside k waiter hin).2
    have hcount : ∀ k', k' ≠ k → (sem.granted ++ [k]).count k' = sem.granted.count k' := by
      intro k' hne
      simp [List.count_append, hne.symm]
    have hnext : sem.upWaiter = { sem with
        waitList := rest
        inside := Function.update sem.inside k (some { waiter with up := true })
        ups := sem.ups + 1
        granted := sem.granted ++ [k]
        woken := sem.woken ++ [k] } := by
      simp [Sema.upWaiter, hlist, hin]
    rw [hnext]
    refine ⟨fun hne => absurd hzero hne, ?_, ?_, h.once, h.begun, ?_, ?_, ?_, ?_⟩
    · intro k'
      by_cases hkk : k' = k
      · subst hkk
        exact iff_of_false hk (by simp)
      · simpa [hlist, hkk] using h.listed k'
    · simpa [hlist] using h.order
    · intro k' waiter' hin' hcaller
      by_cases hkk : k' = k
      · subst hkk
        simp only [Function.update_self, Option.some.injEq] at hin'
        subst hin'
        exact h.patient k' waiter hin hcaller
      · exact h.patient k' waiter' (by simpa [hkk] using hin') hcaller
    · intro k' waiter' hin'
      by_cases hkk : k' = k
      · subst hkk
        simp only [Function.update_self, Option.some.injEq] at hin'
        subst hin'
        exact ⟨(h.inside k' waiter hin).1, by simp [List.count_append, hnone]⟩
      · have hold := h.inside k' waiter' (by simpa [hkk] using hin')
        exact ⟨hold.1, (hcount k' hkk).trans hold.2⟩
    · intro k' hk' hmem
      rcases List.mem_append.mp hmem with hold | hlast
      · exact h.fresh k' hk' hold
      · rw [List.mem_singleton.mp hlast] at hk'
        exact absurd (h.inside k waiter hin).1 (Nat.not_lt.mpr hk')
    · intro k' ret' hmem
      obtain ⟨hlt, hgone, hc⟩ := h.returned k' ret' hmem
      have hne : k' ≠ k := by
        rintro rfl
        rw [hin] at hgone
        cases hgone
      exact ⟨hlt, by simpa [hne] using hgone, (hcount k' hne).trans hc⟩

theorem sound_cdcmUp (h : Sound sem) : Sound sem.cdcmUp := by
  unfold Sema.cdcmUp
  split
  · next hnil =>
    exact { h with tight := fun _ => hnil }
  · exact sound_upWaiter h

theorem sound_cdcmUps (h : Sound sem) (n : Nat) : Sound (Sema.cdcmUps n sem) := by
  induction n generalizing sem with
  | zero => exact h
  | succ n ih => exact ih (sound_cdcmUp h)

theorem sound_upWaiters (h : Sound sem) (n : Nat) : Sound (Sema.upWaiters n sem) := by
  induction n generalizing sem with
  | zero => exact h
  | succ n ih => exact ih (sound_upWaiter h)

theorem sound_sreset (h : Sound sem) : Sound sem.sreset := by
  unfold Sema.sreset
  split
  · exact sound_upWaiters h _
  · next hne =>
    exact { h with tight := fun _ => h.tight hne }

theorem sound_fails (h : Sound sem) (hk : k < sem.calls) (hnone : k ∉ sem.granted)
    (hret : ret ≠ OK) : Sound ((sem.listDel k).returns k ret) := by
  have hout : ∀ k', k' ∈ sem.waitList.erase k ↔ k' ≠ k ∧ k' ∈ sem.waitList :=
    fun k' => h.waits_once.mem_erase_iff
  have hkeep : ∀ {k' : Nat} {waiter : Waiter},
      Function.update sem.inside k none k' = some waiter → sem.inside k' = some waiter := by
    intro k' waiter hin
    by_cases hkk : k' = k
    · simp [hkk] at hin
    · simpa [hkk] using hin
  refine ⟨?_, ?_, ?_, h.once, h.begun, ?_, ?_, h.fresh, ?_⟩
  · intro hne
    show sem.waitList.erase k = []
    rw [h.tight hne]
    rfl
  · intro k'
    show k' ∈ sem.waitList.erase k ↔ _
    rw [hout k', h.listed k']
    by_cases hkk : k' = k
    · simp [Sema.returns, hkk]
    · simp [Sema.returns, Sema.listDel, hkk]
  · exact (List.Sublist.append_left (List.erase_sublist) _).trans h.order
  · exact fun k' waiter hin => h.patient k' waiter (hkeep hin)
  · exact fun k' waiter hin => h.inside k' waiter (hkeep hin)
  · intro k' ret' hmem
    simp only [Sema.returns, Sema.listDel, List.mem_append, List.mem_singleton,
      Prod.mk.injEq] at hmem
    rcases hmem with hold | ⟨rfl, rfl⟩
    · obtain ⟨hlt, hin, hc⟩ := h.returned k' ret' hold
      refine ⟨hlt, ?_, hc⟩
      by_cases hkk : k' = k
      · simp [Sema.returns, hkk]
      · simpa [Sema.returns, Sema.listDel, hkk] using hin
    · exact ⟨hk, by simp [Sema.returns], by
        simpa [Sema.returns, Sema.listDel, hret] using List.count_eq_zero.mpr hnone⟩

/-! ## Going to sleep -/

variable {waiter waiter' : Waiter} {signalled : Bool} {caller : Caller} {timeout : Int}

theorem sound_sleeps (h : Sound sem) (hin : sem.inside k = some waiter)
    (hup : waiter.up = false) (hup' : waiter'.up = false)
    (hpatient : waiter'.caller = .down → waiter'.timeout = MAX_SCHEDULE_TIMEOUT) :
    Sound { sem with inside := Function.update sem.inside k (some waiter') } where
  tight := h.tight
  listed k' := by
    show k' ∈ sem.waitList ↔ _
    rw [h.listed k']
    by_cases hkk : k' = k
    · subst hkk
      simp [hin, hup, hup']
    · simp [hkk]
  order := h.order
  once := h.once
  begun := h.begun
  patient k' waiter'' hin' hcaller := by
    by_cases hkk : k' = k
    · subst hkk
      simp only [Function.update_self, Option.some.injEq] at hin'
      subst hin'
      exact hpatient hcaller
    · exact h.patient k' waiter'' (by simpa [hkk] using hin') hcaller
  inside k' waiter'' hin' := by
    by_cases hkk : k' = k
    · subst hkk
      simp only [Function.update_self, Option.some.injEq] at hin'
      subst hin'
      simpa [hup, hup'] using h.inside k' waiter hin
    · exact h.inside k' waiter'' (by simpa [hkk] using hin')
  fresh := h.fresh
  returned k' ret' hmem := by
    obtain ⟨hlt, hgone, hc⟩ := h.returned k' ret' hmem
    have hne : k' ≠ k := by
      rintro rfl
      rw [hin] at hgone
      cases hgone
    exact ⟨hlt, by simpa [hne] using hgone, hc⟩

theorem sound_enters (h : Sound sem) (hnew : Entering sem k) (hzero : sem.count = 0)
    (hup : waiter.up = false)
    (hpatient : waiter.caller = .down → waiter.timeout = MAX_SCHEDULE_TIMEOUT) :
    Sound { sem with
      waitList := sem.waitList ++ [k]
      began := sem.began ++ [k]
      inside := Function.update sem.inside k (some waiter) } where
  tight hne := absurd hzero hne
  listed k' := by
    by_cases hkk : k' = k
    · subst hkk
      simp [hup]
    · simpa [hkk] using h.listed k'
  order := by
    show (sem.woken ++ (sem.waitList ++ [k])).Sublist (sem.began ++ [k])
    rw [← List.append_assoc]
    exact h.order.append (List.Sublist.refl [k])
  once := by
    simpa [List.nodup_append] using ⟨h.once, fun k' hk' => fun heq => hnew.waited (heq ▸ hk')⟩
  begun k' hk' := by
    rcases List.mem_append.mp hk' with hold | hlast
    · exact h.begun k' hold
    · rw [List.mem_singleton.mp hlast]
      exact hnew.begun
  patient k' waiter' hin hcaller := by
    by_cases hkk : k' = k
    · subst hkk
      simp only [Function.update_self, Option.some.injEq] at hin
      subst hin
      exact hpatient hcaller
    · exact h.patient k' waiter' (by simpa [hkk] using hin) hcaller
  inside k' waiter' hin := by
    by_cases hkk : k' = k
    · subst hkk
      simp only [Function.update_self, Option.some.injEq] at hin
      subst hin
      simpa [hup] using ⟨hnew.begun, List.count_eq_zero.mpr hnew.permit⟩
    · exact h.inside k' waiter' (by simpa [hkk] using hin)
  fresh := h.fresh
  returned k' ret' hmem := by
    obtain ⟨hlt, hgone, hc⟩ := h.returned k' ret' hmem
    have hne : k' ≠ k := by
      rintro rfl
      exact hnew.back ret' hmem
    exact ⟨hlt, by simpa [hne] using hgone, hc⟩

theorem downRound_inside (x : Option Waiter) :
    { sem with inside := Function.update sem.inside k x }.downRound k waiter signalled =
      sem.downRound k waiter signalled := by
  simp [Sema.downRound, Sema.returns, Sema.listDel]

theorem result_interrupted (h : caller.signalPending signalled = true) :
    caller.result (-EINTR) ≠ OK := by
  cases caller <;> simp_all [Caller.signalPending, Caller.result, EINTR, OK, SYSERR]

theorem result_timedOut (h : caller ≠ .down) : caller.result (-ETIME) ≠ OK := by
  cases caller <;>
    simp_all [Caller.result, ETIME, OK, SYSERR, TSWAIT_TIMEDOUT]

theorem sound_downRound (h : Sound sem) (hin : sem.inside k = some waiter)
    (hup : waiter.up = false) (hup' : waiter'.up = false)
    (hpatient : waiter'.caller = .down → waiter'.timeout = MAX_SCHEDULE_TIMEOUT) :
    Sound (sem.downRound k waiter' signalled) := by
  have hold := h.inside k waiter hin
  have hnone : k ∉ sem.granted := List.count_eq_zero.mp (by simpa [hup] using hold.2)
  unfold Sema.downRound
  split
  · next hsignal => exact sound_fails h hold.1 hnone (result_interrupted hsignal)
  · split
    · next htime =>
      refine sound_fails h hold.1 hnone (result_timedOut ?_)
      intro hdown
      rw [hpatient hdown] at htime
      exact absurd htime (by decide)
    · exact sound_sleeps h hin hup hup' hpatient

theorem sound_cdcmDown (h : Sound sem) (hnew : Entering sem k)
    (hpatient : caller = .down → timeout = MAX_SCHEDULE_TIMEOUT) :
    Sound (sem.cdcmDown k caller timeout signalled) := by
  unfold Sema.cdcmDown
  split
  · next hpos =>
    have hret : caller.result 0 = OK := by cases caller <;> rfl
    rw [hret]
    exact sound_acquires h hnew ((BitVec.pos_iff_ne_zero _).mp hpos)
  · next hzero =>
    have hcount : sem.count = 0 := by
      by_contra hne
      exact hzero ((BitVec.pos_iff_ne_zero _).mpr hne)
    have hsleep := @sound_enters sem k { caller, timeout } h hnew hcount rfl hpatient
    have hround := @sound_downRound _ k { caller, timeout } { caller, timeout } signalled
      hsleep (Function.update_self ..) rfl rfl hpatient
    have heq := @downRound_inside { sem with
      waitList := sem.waitList ++ [k]
      began := sem.began ++ [k] } k { caller, timeout } signalled (some { caller, timeout })
    exact (congrArg Sound heq).mp hround

theorem sound_refused (h : Sound sem) (hnew : Entering sem k) (hret : ret ≠ OK) :
    Sound (sem.returns k ret) := by
  refine sound_returns h hnew.begun (h.not_listed hnew.asleep) ?_
  rw [if_neg hret]
  exact List.count_eq_zero.mpr hnew.permit

theorem sound_cdcmDownTrylock (h : Sound sem) (hnew : Entering sem k) :
    Sound (sem.cdcmDownTrylock k) := by
  unfold Sema.cdcmDownTrylock
  split
  · next hpos =>
    refine sound_acquires h hnew ?_
    intro hzero
    rw [hzero] at hpos
    exact absurd hpos (by decide)
  · exact sound_refused h hnew (by decide)

theorem sound_swait {sig : Int} {found : Bool} (h : Sound sem) (hnew : Entering sem k) :
    Sound (sem.swait k sig found signalled) := by
  unfold Sema.swait
  split
  · exact sound_refused h hnew (by decide)
  · split
    · exact sound_cdcmDown h hnew fun _ => rfl
    · split
      · exact sound_cdcmDown h hnew fun _ => rfl
      · exact sound_refused h hnew (by decide)

theorem sound_tswait {jiffies : Int → Int} {sig interval : Int} {found : Bool}
    (h : Sound sem) (hnew : Entering sem k) :
    Sound (sem.tswait jiffies k sig interval found signalled) := by
  unfold Sema.tswait
  split
  · exact sound_refused h hnew (by decide)
  · split
    · exact sound_cdcmDownTrylock h hnew
    · split
      · exact sound_swait h hnew
      · exact sound_cdcmDown h hnew (fun hcaller => by cases hcaller)

theorem sound_wakes {left : Int} (h : Sound sem) (hin : sem.inside k = some waiter) :
    Sound (sem.wakes k waiter left signalled) := by
  have hold := h.inside k waiter hin
  unfold Sema.wakes
  split
  · next hup =>
    refine sound_returns h hold.1 ?_ ?_
    · intro hmem
      obtain ⟨waiter', hin', hup'⟩ := (h.listed k).mp hmem
      rw [hin, Option.some.injEq] at hin'
      subst hin'
      rw [hup] at hup'
      cases hup'
    · have hret : waiter.caller.result 0 = OK := by cases waiter.caller <;> rfl
      rw [hret, hold.2, hup]
      rfl
  · next hup =>
    have hup' : waiter.up = false := by simpa using hup
    refine sound_downRound h hin hup' hup' ?_
    intro hcaller
    have htime := h.patient k waiter hin hcaller
    simp [Sema.scheduleTimeout, htime]

theorem sound_next {jiffies : Int → Int} {sem' : Sema} {e : SemEvent} (h : Sound sem)
    (hnext : sem.next jiffies e = some sem') : Sound sem' := by
  cases e with
  | swait sig found signalled =>
    cases hnext
    exact sound_swait (sound_begins h) (entering_begins h)
  | tswait sig interval found signalled =>
    cases hnext
    exact sound_tswait (sound_begins h) (entering_begins h)
  | wakes k left signalled =>
    cases hin : sem.inside k with
    | none => simp [Sema.next, hin] at hnext
    | some waiter =>
      simp only [Sema.next, hin, Option.some.injEq] at hnext
      subst hnext
      exact sound_wakes h hin
  | ssignal found =>
    cases hnext
    cases found
    · exact h
    · exact sound_cdcmUp h
  | ssignaln count found =>
    cases hnext
    cases found
    · exact h
    · exact sound_cdcmUps h _
  | sreset found =>
    cases hnext
    cases found
    · exact h
    · exact sound_sreset h

theorem sound_invariant {jiffies : Int → Int} {initial : BitVec 32} :
    (semaphore jiffies initial).Invariant Sound where
  init hinit := by
    cases hinit
    constructor <;> simp
  step h hs := sound_next h hs

end Coht.Cdcm
