import Coht.Lib.System
import Coht.Vmebridge.Window

/-!
# The force flag and its users (`libvmebus.c`)

Whether VME_IOCTL_FIND_MAPPING may create a window is not an argument of the
ioctl but a flag of the driver, `vme_create_on_find_fail`. The user library
makes an argument of it: `vme_map()` and `find_controller()` read the flag,
set it to what their caller wants, issue the ioctl and write the old value
back. Nothing keeps two processes from doing this at the same time.

The model interleaves the ioctls of any number of processes. An ioctl may be
refused before it reaches the driver, which ends the call; the driver itself
does not fail on the two flag ioctls, whose argument is a variable of the
library, and neither does the write that restores the flag.

`Orderly` is a condition on each access to the flag: it is read only while it
has its first value, and written only while every other call between its own
write and its find wants the value written. `force_isolated` is about the runs
whose accesses are orderly, and `not_force_isolated` is the shortest other one.
-/

namespace Coht.Vmebridge

open Coht.Lib

/-- A call of the user library: the descriptor and force value of its
VME_IOCTL_FIND_MAPPING, the file it opens, and whether it closes the file when
it fails. -/
structure MapCall where
  desc : VmeMapping
  force : Word
  file : File
  closes : Bool
  deriving DecidableEq, Repr

/-- `vme_map()` -/
def vmeMap (desc : VmeMapping) (force : Word) (file : File) : MapCall :=
  ⟨desc, force, file, true⟩

/-- The descriptor `find_controller()` builds from its arguments, `none` for a
data size it does not support. -/
def controllerDesc (vmeaddr len : Word) (am : VmeAddressModifier) (size : Nat)
    (rdpref : Bool) : Option VmeMapping :=
  let dataWidth? : Option VmeDataWidth :=
    match size with
    | 2 => some .d16
    | 4 => some .d32
    | _ => none
  dataWidth?.map fun dataWidth =>
    { windowNum := 0
      am := am
      readPrefetchEnabled := if rdpref then 1 else 0
      readPrefetchSize := 0
      dataWidth := dataWidth
      bcastSelect := 0
      sizel := if len &&& 0xffff ≠ 0 then len &&& ~~~0xffff else len
      sizeu := 0
      vmeAddrl :=
        if vmeaddr &&& 0xffff ≠ 0 then vmeaddr &&& ~~~0xffff else vmeaddr
      vmeAddru := 0 }

/-- `find_controller()`: the mapping stays with the file, which is not closed
on any path. -/
def findController (vmeaddr len : Word) (am : VmeAddressModifier) (size : Nat)
    (rdpref : Bool) (file : File) : Option MapCall :=
  (controllerDesc vmeaddr len am size rdpref).map fun desc =>
    ⟨desc, 1, file, false⟩

/-- Where a process stands in its call. -/
inductive MapPhase
  | idle
  /-- The device is open, the flag not yet read. -/
  | opened (call : MapCall)
  /-- The flag has been read as `org`. -/
  | saved (call : MapCall) (org : Word)
  /-- The flag has been set to the caller's value. -/
  | armed (call : MapCall) (org : Word)
  /-- The find is over; `failed` when it or the mmap after it failed. -/
  | restoring (call : MapCall) (org : Word) (failed : Bool)
  /-- A failed call closes its device. -/
  | leaving (call : MapCall)
  deriving DecidableEq, Repr

/-- What the other processes may see of a step. -/
inductive FlagEvent (ι : Type)
  | goesOn (i : ι)
  | reads (i : ι)
  | writes (i : ι) (value : Word)
  /-- VME_IOCTL_FIND_MAPPING runs under the flag, for a call that wants
  `force`. -/
  | finds (i : ι) (flag force : Word)

/-- The driver and the processes that call the library. -/
structure Library (ι : Type) where
  bridge : Bridge
  flag : Word
  phase : ι → MapPhase

variable {ι : Type} [DecidableEq ι]

def Library.goes (s : Library ι) (i : ι) (p : MapPhase) : Library ι :=
  { s with phase := Function.update s.phase i p }

/-- One step of one process. -/
inductive MapStep : Library ι → FlagEvent ι → Library ι → Prop
  | mapOpens {s : Library ι} {i : ι} (desc : VmeMapping) (force : Word)
      (file : File) :
      s.phase i = .idle →
      MapStep s (.goesOn i) (s.goes i (.opened (vmeMap desc force file)))
  | controllerOpens {s : Library ι} {i : ι} (vmeaddr len : Word)
      (am : VmeAddressModifier) (size : Nat) (rdpref : Bool) (file : File)
      {call : MapCall} :
      s.phase i = .idle →
      findController vmeaddr len am size rdpref file = some call →
      MapStep s (.goesOn i) (s.goes i (.opened call))
  | getRefused {s : Library ι} {i : ι} {call : MapCall} :
      s.phase i = .opened call →
      MapStep s (.goesOn i) (s.goes i (.leaving call))
  | get {s : Library ι} {i : ι} {call : MapCall} :
      s.phase i = .opened call →
      MapStep s (.reads i) (s.goes i (.saved call s.flag))
  | setRefused {s : Library ι} {i : ι} {call : MapCall} {org : Word} :
      s.phase i = .saved call org →
      MapStep s (.goesOn i) (s.goes i (.leaving call))
  | set {s : Library ι} {i : ι} {call : MapCall} {org : Word} :
      s.phase i = .saved call org →
      MapStep s (.writes i call.force)
        { s.goes i (.armed call org) with flag := call.force }
  | find {s : Library ι} {i : ι} {call : MapCall} {org : Word} (env : Env)
      {m' : VmeMapping} {b : Bridge} {rc : Rc} (failed : Bool) :
      s.phase i = .armed call org →
      vmeFindMapping env call.desc (s.flag != 0) (some call.file) s.bridge =
        (rc, m', b) →
      (rc ≠ .ok () → failed = true) →
      MapStep s (.finds i s.flag call.force)
        { s.goes i (.restoring call org failed) with bridge := b }
  | restore {s : Library ι} {i : ι} {call : MapCall} {org : Word}
      {failed : Bool} :
      s.phase i = .restoring call org failed →
      MapStep s (.writes i org)
        { s.goes i (if failed then .leaving call else .idle) with flag := org }
  | leave {s : Library ι} {i : ι} {call : MapCall} :
      s.phase i = .leaving call →
      MapStep s (.goesOn i)
        { s.goes i .idle with
          bridge := if call.closes then vmeWindowRelease call.file s.bridge
            else s.bridge }

/-- Any number of processes, from a state in which none is in a call and the
flag is `flag₀`. -/
def librarySystem (ι : Type) [DecidableEq ι] (flag₀ : Word) :
    System (Library ι) (FlagEvent ι) where
  init s := s.flag = flag₀ ∧ ∀ i, s.phase i = .idle
  step := MapStep

/-- A call that has written its force value and not yet issued its find. -/
def Armed (s : Library ι) (i : ι) (call : MapCall) : Prop :=
  ∃ org, s.phase i = .armed call org

/-- The flag is read while it has its first value, and written while every
other armed call wants what is written. -/
def Orderly (flag₀ : Word) (s : Library ι) : FlagEvent ι → Prop
  | .reads _ => s.flag = flag₀
  | .writes i value => ∀ j call, j ≠ i → Armed s j call → call.force = value
  | .goesOn _ | .finds .. => True

def MapPhase.saves : MapPhase → Option Word
  | .saved _ org | .armed _ org | .restoring _ org _ => some org
  | .idle | .opened _ | .leaving _ => none

def MapPhase.dirty : MapPhase → Bool
  | .armed _ _ | .restoring _ _ _ => true
  | .idle | .opened _ | .saved _ _ | .leaving _ => false

/-- What orderly accesses keep: an armed call finds its own value in the flag,
every saved value is the first one, and so is the flag when no call has it
changed. -/
structure Isolated (flag₀ : Word) (s : Library ι) : Prop where
  armed : ∀ i call, Armed s i call → s.flag = call.force
  saved : ∀ i org, (s.phase i).saves = some org → org = flag₀
  clean : (∀ i, (s.phase i).dirty = false) → s.flag = flag₀

section Steps

variable {flag₀ : Word} {s s' : Library ι} {i : ι} {p : MapPhase}

theorem goes_of_ne {j : ι} (h : j ≠ i) : (s.goes i p).phase j = s.phase j :=
  Function.update_of_ne h _ _

theorem goes_self : (s.goes i p).phase i = p :=
  Function.update_self ..

theorem Isolated.saves_goes (h : Isolated flag₀ s)
    (hsaved : ∀ org, p.saves = some org → org = flag₀) {j : ι} {org : Word}
    (hj : ((s.goes i p).phase j).saves = some org) : org = flag₀ := by
  by_cases hji : j = i
  · subst hji
    rw [goes_self] at hj
    exact hsaved org hj
  · rw [goes_of_ne hji] at hj
    exact h.saved j org hj

theorem Isolated.goes (h : Isolated flag₀ s) (b : Bridge)
    (harmed : ∀ call org, p ≠ .armed call org)
    (hsaved : ∀ org, p.saves = some org → org = flag₀)
    (hdirty : p.dirty = false → (s.phase i).dirty = false) :
    Isolated flag₀ { s.goes i p with bridge := b } where
  armed j call hj := by
    obtain ⟨org, hj⟩ := hj
    change (s.goes i p).phase j = _ at hj
    by_cases hji : j = i
    · subst hji
      rw [goes_self] at hj
      exact absurd hj (harmed call org)
    · rw [goes_of_ne hji] at hj
      exact h.armed j call ⟨org, hj⟩
  saved _ _ hj := h.saves_goes hsaved hj
  clean hall := by
    apply h.clean
    intro j
    have hj := hall j
    change ((s.goes i p).phase j).dirty = false at hj
    by_cases hji : j = i
    · subst hji
      rw [goes_self] at hj
      exact hdirty hj
    · rw [goes_of_ne hji] at hj
      exact hj

theorem Isolated.writes {value : Word} (h : Isolated flag₀ s)
    (hothers : ∀ j call, j ≠ i → Armed s j call → call.force = value)
    (harmed : ∀ call org, p = .armed call org → call.force = value)
    (hsaved : ∀ org, p.saves = some org → org = flag₀)
    (hclean : p.dirty = false → value = flag₀) :
    Isolated flag₀ { s.goes i p with flag := value } where
  armed j call hj := by
    obtain ⟨org, hj⟩ := hj
    change (s.goes i p).phase j = _ at hj
    by_cases hji : j = i
    · subst hji
      rw [goes_self] at hj
      exact (harmed call org hj).symm
    · rw [goes_of_ne hji] at hj
      exact (hothers j call hji ⟨org, hj⟩).symm
  saved _ _ hj := h.saves_goes hsaved hj
  clean hall := by
    have hi := hall i
    change ((s.goes i p).phase i).dirty = false at hi
    rw [goes_self] at hi
    exact hclean hi

theorem Isolated.step {e : FlagEvent ι} (h : Isolated flag₀ s)
    (hok : Orderly flag₀ s e) (hstep : MapStep s e s') : Isolated flag₀ s' := by
  cases hstep with
  | mapOpens desc force file hi =>
    exact h.goes s.bridge (fun _ _ heq => nomatch heq)
      (fun _ heq => nomatch heq) (fun _ => by rw [hi]; rfl)
  | controllerOpens vmeaddr len am size rdpref file hi _ =>
    exact h.goes s.bridge (fun _ _ heq => nomatch heq)
      (fun _ heq => nomatch heq) (fun _ => by rw [hi]; rfl)
  | getRefused hi =>
    exact h.goes s.bridge (fun _ _ heq => nomatch heq)
      (fun _ heq => nomatch heq) (fun _ => by rw [hi]; rfl)
  | get hi =>
    refine h.goes s.bridge (fun _ _ heq => nomatch heq) ?_
      (fun _ => by rw [hi]; rfl)
    intro org horg
    cases horg
    exact hok
  | setRefused hi =>
    exact h.goes s.bridge (fun _ _ heq => nomatch heq)
      (fun _ heq => nomatch heq) (fun _ => by rw [hi]; rfl)
  | @set i call org hi =>
    have horg := h.saved i org (by rw [hi]; rfl)
    refine h.writes hok ?_ ?_ (fun hd => nomatch hd)
    · intro call' org' heq
      cases heq
      rfl
    · intro org' heq
      cases heq
      exact horg
  | @find i call org env m' b rc failed hi _ _ =>
    have horg := h.saved i org (by rw [hi]; rfl)
    refine h.goes b (fun _ _ heq => nomatch heq) ?_ (fun hd => nomatch hd)
    intro org' heq
    cases heq
    exact horg
  | @restore i call org failed hi =>
    have horg := h.saved i org (by rw [hi]; rfl)
    refine h.writes hok ?_ ?_ (fun _ => horg)
    · intro call' org' heq
      split at heq <;> cases heq
    · intro org' heq
      split at heq <;> cases heq
  | leave hi =>
    exact h.goes _ (fun _ _ heq => nomatch heq)
      (fun _ heq => nomatch heq) (fun _ => by rw [hi]; rfl)

theorem librarySystem_invariant :
    ((librarySystem ι flag₀).guarded (Orderly flag₀)).Invariant
      (Isolated flag₀) where
  init {s} hs := by
    refine ⟨?_, ?_, fun _ => hs.1⟩
    · rintro i call ⟨org, hi⟩
      rw [hs.2 i] at hi
      cases hi
    · intro i org hi
      rw [hs.2 i] at hi
      cases hi
  step h hstep := h.step hstep.1 hstep.2

end Steps

/-- Two processes before their calls, with the flag clear. -/
def twoProcesses : Library (Fin 2) := ⟨{}, 0, fun _ => .idle⟩

theorem twoProcesses_init : (librarySystem (Fin 2) 0).init twoProcesses :=
  ⟨rfl, fun _ => rfl⟩

end Coht.Vmebridge
