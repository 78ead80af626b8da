import Coht.Lib.Count
import Coht.Lib.System

/-!
# Readers of a VMOD-TTL device (`vmodttldrvr.c`)

A read waits for an interrupt and returns the channel and the value of it. All reads that
wait are to get the same interrupt: `nr_readers` counts them, and the last one to copy the
message clears `irq`. The others wait for it up to a millisecond, so that none of them comes
back and reads the same message again.

The interrupt stores its message under the lock that a read copies under. The counter is
atomic and not under the lock: a read is counted when it starts, and it is taken out again
when a signal ends its wait or its copy has failed. A signal only ends a wait that does not
find `irq` set.

`event` has the messages of all interrupts by their number, and `received` says of what
numbers a process has got the message. A read knows the number of interrupts when it was
counted (`since`) and when its wait ended (`upto`).
-/

namespace Coht.Vmod

open Coht.Lib

inductive Chan
  | A
  | B
  deriving DecidableEq, Repr

structure Message where
  dev : Chan := .A
  val : BitVec 8 := 0
  deriving DecidableEq

structure Receipt where
  since : Nat
  upto : Nat
  number : Nat
  message : Message
  deriving DecidableEq

/-- Where a process is in `vmodttl_read()`. -/
inductive Phase
  | idle
  | waiting (since : Nat)
  /-- a signal has ended the wait -/
  | leaving (since upto : Nat)
  | woken (since upto : Nat)
  /-- the message has been copied, or `copy_to_user()` has failed -/
  | copied (ok : Bool)
  /-- it has counted down to zero -/
  | last
  /-- it has set the counter to zero -/
  | zeroed
  /-- it waits for the other readers -/
  | lingering
  deriving DecidableEq

def Phase.counted : Phase → Bool
  | .waiting _ | .leaving _ _ | .woken _ _ | .copied _ => true
  | _ => false

def Phase.locks : Phase → Bool
  | .copied _ | .last | .zeroed => true
  | _ => false

structure Device (ι : Type) where
  irq : Bool := false
  nrReaders : Int := 0
  messages : Message := {}
  holder : Option ι := none
  phase : ι → Phase := fun _ => .idle
  interrupts : Nat := 0
  event : Nat → Message := fun _ => {}
  received : ι → List Receipt := fun _ => []

/-- An interrupt, with its message if its source is found, or what a process does next. -/
inductive Event (ι : Type)
  | interrupt (msg : Option Message)
  | start (i : ι)
  | wake (i : ι)
  | signal (i : ι)
  | uncount (i : ι)
  | copy (i : ι) (ok : Bool)
  | test (i : ι)
  | reset (i : ι)
  | clear (i : ι)
  | finish (i : ι)

namespace Device

variable {ι : Type} [DecidableEq ι] (pd : Device ι)

def setPhase (i : ι) (phase : Phase) : Device ι :=
  { pd with phase := Function.update pd.phase i phase }

/-- `vmodttl_interrupt()` -/
def interrupt (msg : Message) : Device ι :=
  { pd with
    irq := true
    messages := msg
    interrupts := pd.interrupts + 1
    event := Function.update pd.event (pd.interrupts + 1) msg }

def receive (i : ι) (since upto : Nat) : Device ι :=
  { pd with
    received := Function.update pd.received i
      ({ since := since, upto := upto, number := pd.interrupts, message := pd.messages } ::
        pd.received i) }

def next : Event ι → Option (Device ι)
  | .interrupt none => some pd
  | .interrupt (some msg) => if pd.holder = none then some (pd.interrupt msg) else none
  | .start i =>
    match pd.phase i with
    | .idle =>
      some ({ pd with nrReaders := pd.nrReaders + 1 }.setPhase i (.waiting pd.interrupts))
    | _ => none
  | .wake i =>
    match pd.phase i with
    | .waiting since =>
      if pd.irq then some (pd.setPhase i (.woken since pd.interrupts)) else none
    | _ => none
  | .signal i =>
    match pd.phase i with
    | .waiting since =>
      if pd.irq then none else some (pd.setPhase i (.leaving since pd.interrupts))
    | _ => none
  | .uncount i =>
    match pd.phase i with
    | .leaving _ _ =>
      some ({ pd with nrReaders := pd.nrReaders - 1 }.setPhase i .idle)
    | _ => none
  | .copy i ok =>
    match pd.phase i with
    | .woken since upto =>
      if pd.holder = none then
        let pd := if ok then pd.receive i since upto else pd
        some ({ pd with holder := some i }.setPhase i (.copied ok))
      else none
    | _ => none
  | .test i =>
    match pd.phase i with
    | .copied true =>
      let left := pd.nrReaders - 1
      if left = 0 then some ({ pd with nrReaders := left }.setPhase i .last)
      else some ({ pd with nrReaders := left, holder := none }.setPhase i .lingering)
    | .copied false =>
      some ({ pd with nrReaders := pd.nrReaders - 1, holder := none }.setPhase i .idle)
    | _ => none
  | .reset i =>
    match pd.phase i with
    | .last => some ({ pd with nrReaders := 0 }.setPhase i .zeroed)
    | _ => none
  | .clear i =>
    match pd.phase i with
    | .zeroed => some ({ pd with irq := false, holder := none }.setPhase i .idle)
    | _ => none
  | .finish i =>
    match pd.phase i with
    | .lingering => some (pd.setPhase i .idle)
    | _ => none

theorem setPhase_self (i : ι) (phase : Phase) : (pd.setPhase i phase).phase i = phase :=
  Function.update_self ..

theorem setPhase_of_ne {i j : ι} (phase : Phase) (h : j ≠ i) :
    (pd.setPhase i phase).phase j = pd.phase j := Function.update_of_ne h ..

variable {pd} in
theorem phase_cases {i j : ι} {phase phase' : Phase}
    (h : (pd.setPhase i phase).phase j = phase') :
    j = i ∧ phase = phase' ∨ j ≠ i ∧ pd.phase j = phase' := update_cases h

end Device

/-- The process has got the message of the last interrupt. -/
def Device.Has {ι : Type} (pd : Device ι) (i : ι) : Prop :=
  pd.interrupts ∈ (pd.received i).map (·.number)

/-- The device after its initialisation, and the processes that read it. -/
def vmodttl (ι : Type) [DecidableEq ι] : System (Device ι) (Event ι) where
  init pd := ∃ msg, pd = { messages := msg, event := fun _ => msg }
  step pd e pd' := pd.next e = some pd'

/-! ## What should hold, and when it does -/

section

variable {ι : Type}

structure Sound [Fintype ι] (pd : Device ι) : Prop where
  counted : pd.nrReaders = count Phase.counted pd.phase
  once : ∀ i, ((pd.received i).map (·.number)).Nodup
  /-- What a read returns is the message of an interrupt, of none that came before the end
  of its wait if one came while it waited. -/
  genuine : ∀ i, ∀ r ∈ pd.received i, r.upto ≤ r.number ∧ r.message = pd.event r.number
  /-- A read that waits when an interrupt comes finds `irq` set. -/
  woken : ∀ i since, pd.phase i = .waiting since → since < pd.interrupts → pd.irq = true
  /-- No interrupt had come when a signal ended the wait. -/
  signalled : ∀ i since upto, pd.phase i = .leaving since upto → upto = since
  clear : (∀ i, pd.phase i = .idle) → (∃ i, pd.Has i) → pd.irq = false

/-- The last count is not taken out while the message of the last interrupt has been got
and `irq` is still to be cleared. -/
def Device.Leaves (pd : Device ι) : Prop :=
  pd.nrReaders = 1 → pd.irq = true → (∀ i, pd.phase i ≠ .zeroed) → ∀ i, ¬ pd.Has i

/-- A process starts to read when it has not got what `irq` announces, and no other one
is between counting down to zero and setting the counter. -/
def Orderly (pd : Device ι) : Event ι → Prop
  | .start i => (pd.irq = true → ¬ pd.Has i) ∧ ∀ j, pd.phase j ≠ .last
  | .uncount _ => pd.Leaves
  | .test i => pd.phase i = .copied false → pd.Leaves
  | _ => True

end

end Coht.Vmod
