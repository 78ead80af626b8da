/-!
# The semaphores of the CDCM layer (`cdcmTime.c`)

LynxOs drivers run on Linux over a layer that rebuilds `swait`, `tswait`,
`ssignal` and `sreset` from a count and a queue of waiting tasks. A signal
that finds a task waiting does not touch the count: it takes the first task
off the queue and marks it, and the marked task returns from its wait with
success. `sreset` does the same to every waiting task, so a task it wakes
cannot be told from one that was given a permit.

The functions here are the critical sections of the layer. A function that
lets tasks go returns them, and the driver models say where they go on.
-/

namespace Coht.Cdcm

variable {τ : Type}

/-- `struct cdcm_sem`: the permits that are free and the tasks that wait, the
first to be woken at the head. -/
structure CdcmSem (τ : Type) where
  count : Nat := 0
  waitList : List τ := []
  deriving DecidableEq, Repr

/-- `cdcm_down` and its variants up to the point where the task would sleep:
`true` when it has its permit, `false` when it is on the wait list. -/
def cdcmDown (task : τ) (sem : CdcmSem τ) : Bool × CdcmSem τ :=
  if 0 < sem.count then
    (true, { sem with count := sem.count - 1 })
  else
    (false, { sem with waitList := sem.waitList ++ [task] })

/-- `__cdcm_up()`, with the task it wakes. -/
def cdcmUp (sem : CdcmSem τ) : List τ × CdcmSem τ :=
  match sem.waitList with
  | [] => ([], { sem with count := sem.count + 1 })
  | waiter :: rest => ([waiter], { sem with waitList := rest })

/-- `__sreset()`, with the tasks it wakes. -/
def sreset (sem : CdcmSem τ) : List τ × CdcmSem τ :=
  if sem.count = 0 then
    (sem.waitList, { sem with waitList := [] })
  else
    ([], { sem with count := 0 })

/-- The ends `timed_out` and `interrupted` of `__cdcm_down_common()`. -/
def downFails [DecidableEq τ] (task : τ) (sem : CdcmSem τ) : CdcmSem τ :=
  { sem with waitList := sem.waitList.erase task }

def CdcmSem.Tight (sem : CdcmSem τ) : Prop :=
  0 < sem.count → sem.waitList = []

theorem cdcmDown_tight (task : τ) {sem : CdcmSem τ} (h : sem.Tight) :
    (cdcmDown task sem).2.Tight := by
  unfold cdcmDown
  split
  · next hpos =>
    intro _
    exact h hpos
  · next hzero =>
    intro hpos
    exact absurd hpos hzero

theorem cdcmUp_tight {sem : CdcmSem τ} (h : sem.Tight) :
    (cdcmUp sem).2.Tight := by
  unfold cdcmUp
  split
  · next hnil =>
    intro _
    exact hnil
  · next hcons =>
    intro hpos
    rw [h hpos] at hcons
    cases hcons

theorem sreset_tight {sem : CdcmSem τ} (h : sem.Tight) :
    (sreset sem).2.Tight := by
  unfold sreset
  split
  · intro _
    rfl
  · next hne =>
    intro _
    exact h (Nat.pos_of_ne_zero hne)

theorem downFails_tight [DecidableEq τ] {task : τ} {sem : CdcmSem τ}
    (h : sem.Tight) : (downFails task sem).Tight := by
  intro hpos
  have hnil : sem.waitList = [] := h hpos
  simp [downFails, hnil]

theorem cdcmUp_permits (sem : CdcmSem τ) :
    (cdcmUp sem).2.count + (cdcmUp sem).1.length = sem.count + 1 := by
  unfold cdcmUp
  split <;> simp

theorem cdcmDown_true {task : τ} {sem sem' : CdcmSem τ}
    (h : cdcmDown task sem = (true, sem')) : sem'.count + 1 = sem.count := by
  unfold cdcmDown at h
  split at h
  · next hpos =>
    cases h
    show sem.count - 1 + 1 = sem.count
    omega
  · cases h

theorem cdcmDown_false {task : τ} {sem sem' : CdcmSem τ}
    (h : cdcmDown task sem = (false, sem')) : sem'.count = sem.count := by
  unfold cdcmDown at h
  split at h
  · cases h
  · cases h
    rfl

theorem sreset_idle {sem : CdcmSem τ} (h : sem.waitList = []) :
    sreset sem = ([], { count := 0, waitList := [] }) := by
  obtain ⟨count, waitList⟩ := sem
  cases h
  unfold sreset
  split
  · next hzero =>
    cases hzero
    rfl
  · rfl

end Coht.Cdcm
