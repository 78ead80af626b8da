import Coht.Lib.System
import Coht.Cdcm.Semaphore

/-!
# The module lock (`skeldrvr.c`)

A client that programs the flash memory of a module takes the semaphore of the
module with `SkelDrvrIoctlJTAG_OPEN` and gives it back with
`SkelDrvrIoctlJTAG_CLOSE`. The semaphore starts with one permit. `Reset()`
sets it to that state again, by an `sreset()` and an `ssignal()`, whoever holds
it; it is run by `SkelDrvrIoctlRESET` and, before the permit is given back, by
`SkelDrvrIoctlJTAG_CLOSE`.

Each operation on the semaphore is a step of its own, so the ioctls of any
number of clients interleave between an `sreset()` and the `ssignal()` that
follows it. `module_lock_exclusive` is about the runs in which no module is
closed and none is reset while a client has it open or is resetting it;
`not_module_lock_exclusive` opens a module and closes it again.
-/

namespace Coht.Skel

open Coht.Lib Coht.Cdcm

/-- The fields of `SkelDrvrModuleContext` that the ioctls work on, and the
clients by where they are: between a successful JTAG_OPEN and the next
JTAG_CLOSE, between the `sreset()` and the `ssignal()` of a RESET, and before
the first and before the second `ssignal()` of a JTAG_CLOSE. -/
structure ModuleLock (κ : Type) where
  semaphore : CdcmSem κ := { count := 1 }
  flashOpen : Bool := false
  holders : List κ := []
  resetting : List κ := []
  closing : List κ := []
  unlocking : List κ := []

inductive LockEvent (κ : Type)
  | opens (c : κ)
  /-- A signal ends the wait of a JTAG_OPEN. -/
  | interrupted (c : κ)
  | resets (c : κ)
  | resetSignals (c : κ)
  | closes (c : κ)
  | closeSignals (c : κ)
  | unlocks (c : κ)

section Steps

variable {κ : Type} [DecidableEq κ]

/-- Tasks woken from `LockModule()` have the module open. -/
def ModuleLock.woken (r : List κ × CdcmSem κ) (s : ModuleLock κ) :
    ModuleLock κ :=
  { s with
    semaphore := r.2
    holders := r.1 ++ s.holders
    flashOpen := s.flashOpen || !r.1.isEmpty }

/-- One operation on the semaphore of the module. -/
inductive LockStep : ModuleLock κ → LockEvent κ → ModuleLock κ → Prop
  | opens {s : ModuleLock κ} (c : κ) {sem : CdcmSem κ} :
      cdcmDown c s.semaphore = (true, sem) →
      LockStep s (.opens c)
        { s with semaphore := sem, holders := c :: s.holders, flashOpen := true }
  | waits {s : ModuleLock κ} (c : κ) {sem : CdcmSem κ} :
      cdcmDown c s.semaphore = (false, sem) →
      LockStep s (.opens c) { s with semaphore := sem }
  | interrupted {s : ModuleLock κ} (c : κ) :
      c ∈ s.semaphore.waitList →
      LockStep s (.interrupted c) { s with semaphore := downFails c s.semaphore }
  | resets {s : ModuleLock κ} (c : κ) :
      LockStep s (.resets c)
        { s.woken (sreset s.semaphore) with resetting := c :: s.resetting }
  | resetSignals {s : ModuleLock κ} (c : κ) :
      c ∈ s.resetting →
      LockStep s (.resetSignals c)
        { s.woken (cdcmUp s.semaphore) with resetting := s.resetting.erase c }
  | closes {s : ModuleLock κ} (c : κ) :
      LockStep s (.closes c)
        { ModuleLock.woken (sreset s.semaphore)
            { s with holders := s.holders.erase c, flashOpen := false } with
          closing := c :: s.closing }
  | closeSignals {s : ModuleLock κ} (c : κ) :
      c ∈ s.closing →
      LockStep s (.closeSignals c)
        { s.woken (cdcmUp s.semaphore) with
          closing := s.closing.erase c
          unlocking := c :: s.unlocking }
  | unlocks {s : ModuleLock κ} (c : κ) :
      c ∈ s.unlocking →
      LockStep s (.unlocks c)
        { s.woken (cdcmUp s.semaphore) with
          unlocking := s.unlocking.erase c }

/-- A module after `set_mcon_defaults()`. -/
def lockSystem (κ : Type) [DecidableEq κ] :
    System (ModuleLock κ) (LockEvent κ) where
  init s := s = {}
  step := LockStep

/-- No JTAG_CLOSE, and no RESET while a client has the module open or is
resetting it. -/
def Undisturbing (s : ModuleLock κ) : LockEvent κ → Prop
  | .closes _ => False
  | .resets _ => s.holders = [] ∧ s.resetting = []
  | .opens _ | .interrupted _ | .resetSignals _ | .closeSignals _
  | .unlocks _ => True

/-- At most one permit, at most one client with the module open, and no permit
left for a JTAG_OPEN while there is one. -/
structure Exclusive (s : ModuleLock κ) : Prop where
  permits : s.semaphore.count ≤ 1
  holders : s.holders.length ≤ 1
  locked : s.holders ≠ [] → s.semaphore.count = 0

/-- The one permit is free, with the client that has the module open, or with
the client that resets it. -/
structure OnePermit (s : ModuleLock κ) : Prop where
  one : s.semaphore.count + s.holders.length + s.resetting.length = 1
  tight : s.semaphore.Tight
  closing : s.closing = []
  unlocking : s.unlocking = []

variable {s s' : ModuleLock κ} {e : LockEvent κ}

omit [DecidableEq κ] in
theorem OnePermit.exclusive (h : OnePermit s) : Exclusive s := by
  have hone := h.one
  refine ⟨by omega, by omega, ?_⟩
  intro hheld
  have hpos := List.length_pos_iff.mpr hheld
  omega

theorem OnePermit.step (h : OnePermit s) (hok : Undisturbing s e)
    (hstep : LockStep s e s') : OnePermit s' := by
  have hone := h.one
  cases hstep with
  | @opens c sem hdown =>
    have htrue := cdcmDown_true hdown
    have htight := cdcmDown_tight c h.tight
    rw [hdown] at htight
    refine ⟨?_, htight, h.closing, h.unlocking⟩
    show sem.count + (s.holders.length + 1) + s.resetting.length = 1
    omega
  | @waits c sem hdown =>
    have htight := cdcmDown_tight c h.tight
    rw [hdown] at htight
    refine ⟨?_, htight, h.closing, h.unlocking⟩
    show sem.count + s.holders.length + s.resetting.length = 1
    rw [cdcmDown_false hdown]
    exact hone
  | interrupted c hc =>
    exact ⟨hone, downFails_tight h.tight, h.closing, h.unlocking⟩
  | resets c =>
    obtain ⟨hheld, hreset⟩ := hok
    rw [hheld, hreset] at hone
    have hpos : 0 < s.semaphore.count := by
      simp only [List.length_nil] at hone
      omega
    have hidle := sreset_idle (h.tight hpos)
    refine ⟨?_, sreset_tight h.tight, h.closing, h.unlocking⟩
    show (sreset s.semaphore).2.count +
      ((sreset s.semaphore).1 ++ s.holders).length +
        (s.resetting.length + 1) = 1
    rw [hidle, hheld, hreset]
    rfl
  | resetSignals c hc =>
    have hup := cdcmUp_permits s.semaphore
    have hlen := List.length_erase_of_mem hc
    have hpos := List.length_pos_of_mem hc
    refine ⟨?_, cdcmUp_tight h.tight, h.closing, h.unlocking⟩
    show (cdcmUp s.semaphore).2.count +
      ((cdcmUp s.semaphore).1 ++ s.holders).length +
        (s.resetting.erase c).length = 1
    rw [List.length_append]
    omega
  | closes c => exact hok.elim
  | closeSignals c hc =>
    rw [h.closing] at hc
    cases hc
  | unlocks c hc =>
    rw [h.unlocking] at hc
    cases hc

theorem lockSystem_invariant :
    ((lockSystem κ).guarded Undisturbing).Invariant OnePermit where
  init {s} hs := by
    rw [hs]
    exact ⟨rfl, fun _ => rfl, rfl, rfl⟩
  step h hstep := h.step hstep.1 hstep.2

/-- In every run without JTAG_CLOSE in which a module is reset only while
nobody has it open or resets it, the lock is exclusive. -/
theorem module_lock_exclusive
    (hs : ((lockSystem κ).guarded Undisturbing).Reachable s) : Exclusive s :=
  (lockSystem_invariant.reachable hs).exclusive

end Steps

/-! ## A module that is opened and closed -/

def openedLock : ModuleLock Bool :=
  { semaphore := { count := 0 }, holders := [false], flashOpen := true }

theorem module_lock_exclusive_openedLock : Exclusive openedLock := by
  have hinit : ((lockSystem Bool).guarded Undisturbing).Reachable {} :=
    .init rfl
  have hok : Undisturbing ({} : ModuleLock Bool) (.opens false) := trivial
  exact module_lock_exclusive
    (hinit.step ⟨hok, LockStep.opens false rfl⟩)

theorem not_module_lock_exclusive :
    ¬ ∀ s, (lockSystem Bool).Reachable s → Exclusive s := by
  intro hall
  have hinit : (lockSystem Bool).Reachable {} := .init rfl
  have hopen := hinit.step (LockStep.opens false rfl)
  have hclose := hopen.step (LockStep.closes false)
  have hsignal := hclose.step (LockStep.closeSignals false (.head _))
  have hunlock := hsignal.step (LockStep.unlocks false (.head _))
  exact absurd (hall _ hunlock).permits (by decide)

end Coht.Skel
