import Coht.Lib.System
import Coht.Tpci200.Slots

/-!
# The life cycle of a slot (`carrier_tpci200.c`)

Drivers register slots, use them and unregister them while interrupts come in.
`ip_slot_unregister()` is a chain: it calls `ip_slot_free_irq()` and three times
`ip_slot_unmap_space()`, looks at none of their results, and then takes the mutex itself.
Every one of them looks at the slot before it waits for the mutex, and the wait can be
interrupted.

So a signal can leave the handler in place while the I/O space it needs is unmapped or
the record is freed, and the last wait can fail when the slot has been taken apart. Nor
does anything keep a driver from asking for interrupts of a slot with no I/O space, from
unmapping it under the handler, or from going on with a slot that another one is
unregistering. `Ok` is a step where none of this happens, and `slots_safe` is about the
runs of such steps.
-/

namespace Coht.Tpci200

open Coht.Lib

/-- What `ip_slot_unregister()` calls before it frees the record. -/
def unregisterOps : List Op := [.free, .unmap .io, .unmap .id, .unmap .mem]

/-- A driver. A call that has passed `check_slot()` waits for the mutex. Of
`ip_slot_unregister()` it is kept whether its sections have found something to undo and
whether they have changed the slot. -/
inductive Proc
  | idle
  | direct (op : Op) (p : Ptr)
  | unregister (p : Ptr) (todo : List Op) (checked undone changed : Bool)

structure State where
  carrier : Carrier := {}
  procs : Nat → Proc := fun _ => .idle

def State.setProc (s : State) (q : Nat) (proc : Proc) : State :=
  { s with procs := Function.update s.procs q proc }

/-- A step of driver `q`, or an interrupt. `lock` is whether the mutex is taken and not
the wait for it interrupted. -/
inductive Event
  | register (i : Nat) (lock memory : Bool)
  | call (q : Nat) (op : Op) (p : Option Ptr)
  | unregister (q : Nat) (p : Option Ptr)
  | check (q : Nat)
  | enter (q : Nat) (lock memory : Bool) (remapped : Option Nat)
  | interrupt (status : U16)

/-- The `slot_id` that is read in a step. -/
def State.uses (s : State) : Event → Option Ptr
  | .call q _ p | .unregister q p =>
    match s.procs q with
    | .idle => p
    | _ => none
  | .check q | .enter q _ _ _ =>
    match s.procs q with
    | .idle => none
    | .direct _ p | .unregister p _ _ _ _ => some p
  | _ => none

namespace Carrier

/-- All there is of a slot. -/
structure View where
  slotId : Option Ptr
  record : Option SlotId
  irq : Option Ptr
  irqRecord : Option SlotIrq
  control : U16
  maps : List Nat
  deriving DecidableEq

def view (c : Carrier) (i : Nat) : View where
  slotId := c.slotId i
  record := (c.slotId i).bind c.slotIds
  irq := c.irq i
  irqRecord := (c.irq i).bind c.irqs
  control := c.control i
  maps := [.io, .id, .mem].map (c.maps i)

/-- A section of `ip_slot_unregister()` has something to undo. -/
def found (c : Carrier) (r : SlotId) : Op → Bool
  | .free => (c.irq r.position).isSome
  | .unmap space => (r.space space).address.isSome
  | _ => false

end Carrier

section

variable (s : State)

/-- The carrier after a section, if the mutex was taken. -/
def State.served (p : Ptr) (r : SlotId) (lock memory : Bool) (remapped : Option Nat)
    (op : Op) : Carrier :=
  if lock then (s.carrier.serve p r memory remapped op).2 else s.carrier

inductive Step : Event → State → Prop
  | register {i : Nat} {lock memory : Bool} :
      Step (.register i lock memory)
        { s with carrier := if lock then (s.carrier.register i memory).2 else s.carrier }
  | callNull {q : Nat} {op : Op} : s.procs q = .idle → Step (.call q op none) s
  | call {q : Nat} {op : Op} {p : Ptr} {r : SlotId} :
      s.procs q = .idle → s.carrier.slotIds p = some r →
      Step (.call q op (some p))
        (if s.carrier.checkSlot r then s.setProc q (.direct op p) else s)
  | unregisterNull {q : Nat} : s.procs q = .idle → Step (.unregister q none) s
  | unregister {q : Nat} {p : Ptr} {r : SlotId} :
      s.procs q = .idle → s.carrier.slotIds p = some r →
      Step (.unregister q (some p))
        (if s.carrier.checkSlot r then
          s.setProc q (.unregister p unregisterOps false false false)
        else s)
  | check {q : Nat} {p : Ptr} {r : SlotId} {op : Op} {todo : List Op}
      {undone changed : Bool} :
      s.procs q = .unregister p (op :: todo) false undone changed →
      s.carrier.slotIds p = some r →
      Step (.check q)
        (s.setProc q
          (if s.carrier.checkSlot r then .unregister p (op :: todo) true undone changed
          else .unregister p todo false undone changed))
  | direct {q : Nat} {p : Ptr} {r : SlotId} {op : Op} {lock memory : Bool}
      {remapped : Option Nat} :
      s.procs q = .direct op p → s.carrier.slotIds p = some r →
      Step (.enter q lock memory remapped)
        ({ s with carrier := s.served p r lock memory remapped op }.setProc q .idle)
  | inner {q : Nat} {p : Ptr} {r : SlotId} {op : Op} {todo : List Op}
      {undone changed lock memory : Bool} {remapped : Option Nat} :
      s.procs q = .unregister p (op :: todo) true undone changed →
      s.carrier.slotIds p = some r →
      Step (.enter q lock memory remapped)
        ({ s with carrier := s.served p r lock memory remapped op }.setProc q
          (.unregister p todo false (undone || lock && s.carrier.found r op)
            (changed || decide ((s.served p r lock memory remapped op).view r.position ≠
              s.carrier.view r.position))))
  | last {q : Nat} {p : Ptr} {r : SlotId} {checked undone changed lock memory : Bool}
      {remapped : Option Nat} :
      s.procs q = .unregister p [] checked undone changed →
      s.carrier.slotIds p = some r →
      Step (.enter q lock memory remapped)
        ({ s with carrier := if lock then s.carrier.remove p r else s.carrier }.setProc q .idle)
  | interrupt {status : U16} :
      Step (.interrupt status) { s with carrier := s.carrier.interrupt status }
  /-- The record has been freed. -/
  | freed {e : Event} {p : Ptr} {s' : State} :
      s.uses e = some p → s.carrier.slotIds p = none → Step e s'

end

/-- The carrier and its drivers. -/
def slots : System State Event where
  init s := ∃ control, s = { carrier := { control := control } }
  step s e s' := Step s e s'

/-! ## What a step should do, and when it does -/

/-- What a step should do with the slots. -/
structure Safe (s : State) (e : Event) (s' : State) : Prop where
  /-- The handlers that an interrupt calls, and what it reads with them, are there. -/
  ready : ∀ status i, e = .interrupt status → s.carrier.interrupted status i →
    s.carrier.Ready i
  /-- `ip_slot_unregister()` returns 0. -/
  cleared : ∀ q memory remapped p r checked undone changed,
    e = .enter q true memory remapped →
    s.procs q = .unregister p [] checked undone changed → s.carrier.slotIds p = some r →
    s'.carrier.Cleared r.position
  /-- It returns `-ERESTARTSYS`, and no section of the call has changed the slot. -/
  kept : ∀ q memory remapped p checked undone changed,
    e = .enter q false memory remapped →
    s.procs q = .unregister p [] checked undone changed →
    changed = false ∧ s'.carrier = s.carrier
  /-- It starts, or it returns `-EINVAL`. -/
  refused : ∀ q p, e = .unregister q p → s'.carrier = s.carrier

/-- No `ip_slot_unregister()` of the slot is past a part of its chain. -/
def State.Ahead (s : State) (p : Ptr) (op : Op) : Prop :=
  ∀ q todo checked undone changed,
    s.procs q = .unregister p todo checked undone changed → op ∈ todo

/-- A driver asks for the interrupts of a slot when its I/O space is mapped, unmaps it when
there is no handler, and puts nothing back that is being taken away. -/
def State.Harmless (s : State) (p : Ptr) (r : SlotId) (memory : Bool) (remapped : Option Nat) :
    Op → Prop
  | .request _ => s.carrier.irq r.position = none → memory = true →
      r.io.address ≠ none ∧ s.Ahead p .free
  | .map space memorySize => (r.space space).address = none →
      ¬ (space = .mem ∧ TPCI200_MEM8_SIZE < memorySize) → remapped ≠ none →
      s.Ahead p (.unmap space)
  | .unmap space => space = .io → s.carrier.irq r.position = none
  | .free => True

/-- In a call to `ip_slot_unregister()` a wait is interrupted only where its section would
have had nothing to do, and the last one only if no section has. -/
def State.Calm (s : State) (r : SlotId) (todo : List Op) (undone : Bool) : Prop :=
  match todo with
  | [] => undone = false
  | op :: _ => s.carrier.found r op = false

def Ok (s : State) (e : Event) : Prop :=
  (∀ p, s.uses e = some p → s.carrier.slotIds p ≠ none) ∧
  ∀ q lock memory remapped, e = .enter q lock memory remapped →
    (∀ op p r, s.procs q = .direct op p → s.carrier.slotIds p = some r → lock = true →
      s.Harmless p r memory remapped op) ∧
    (∀ p r todo checked undone changed,
      s.procs q = .unregister p todo checked undone changed →
      s.carrier.slotIds p = some r → lock = false → s.Calm r todo undone)

/-! ## The invariant -/

structure Unregistering (c : Carrier) (p : Ptr) (todo : List Op) (undone changed : Bool) :
    Prop where
  chain : todo <:+ unregisterOps
  done : ∀ op ∈ unregisterOps, op ∉ todo → c.Done p op
  changed : undone = false → changed = false

structure Inv (s : State) : Prop where
  wf : s.carrier.Wf
  unregistering : ∀ q p todo checked undone changed,
    s.procs q = .unregister p todo checked undone changed →
    Unregistering s.carrier p todo undone changed

namespace Carrier

variable {c : Carrier} {p p' : Ptr} {r : SlotId} {memory : Bool} {remapped : Option Nat}
  {op : Op}

theorem serve_wf (h : c.Wf) (hp : c.slotIds p = some r)
    (hrequest : ∀ irq, op = .request irq → c.irq r.position = none → memory = true →
      r.io.address ≠ none)
    (hunmap : op = .unmap .io → c.irq r.position = none) :
    (c.serve p r memory remapped op).2.Wf := by
  cases op with
  | map space memorySize =>
    show (c.mapSpace p r space memorySize remapped).2.Wf
    rcases mapSpace_eq h hp memorySize remapped with heq | ⟨hnone, -, heq⟩
    · rw [heq]
      exact h
    · rw [heq]
      refine setSpace_wf h hp ?_
      rintro rfl _
      by_contra hirq
      obtain ⟨p', r', hslot, hr', haddr⟩ := h.served _ hirq
      obtain rfl := Option.some.inj ((h.owner p r hp).symm.trans hslot)
      obtain rfl := Option.some.inj (hp.symm.trans hr')
      exact haddr hnone
  | unmap space =>
    show (c.unmapSpace p r space).2.Wf
    rcases unmapSpace_eq h hp with ⟨heq, -⟩ | heq
    · rw [heq]
      exact h
    · rw [heq]
      exact setSpace_wf h hp fun hspace _ => hunmap (congrArg _ hspace)
  | request irq => exact requestIrq_wf h hp irq memory (hrequest irq rfl)
  | free => exact freeIrq_wf h

theorem serve_done (h : c.Wf) (hp : c.slotIds p = some r) {op' : Op} (hop : c.Done p' op')
    (hrequest : ∀ irq, op = .request irq → c.irq r.position = none → memory = true →
      p' = p → op' ≠ .free)
    (hmap : ∀ space memorySize, op = .map space memorySize →
      (r.space space).address = none → ¬ (space = .mem ∧ TPCI200_MEM8_SIZE < memorySize) →
      remapped ≠ none → p' = p → op' ≠ .unmap space) :
    (c.serve p r memory remapped op).2.Done p' op' := by
  cases op with
  | map space memorySize =>
    show (c.mapSpace p r space memorySize remapped).2.Done p' op'
    rcases mapSpace_eq h hp memorySize remapped with heq | ⟨hnone, hsize, heq⟩
    · rw [heq]
      exact hop
    · rw [heq]
      refine setSpace_done hp hop fun hpp hundo => ?_
      by_contra hsome
      exact hmap space memorySize rfl hnone hsize hsome hpp hundo
  | unmap space =>
    show (c.unmapSpace p r space).2.Done p' op'
    rcases unmapSpace_eq h hp with ⟨heq, -⟩ | heq
    · rw [heq]
      exact hop
    · rw [heq]
      exact setSpace_done hp hop fun _ _ => rfl
  | request irq => exact requestIrq_done h hp irq memory hop (hrequest irq rfl)
  | free => exact freeIrq_done hop

theorem serve_done_self (h : c.Wf) (hp : c.slotIds p = some r) (hop : op ∈ unregisterOps) :
    (c.serve p r memory remapped op).2.Done p op := by
  cases op with
  | map => trivial
  | request => trivial
  | free => exact freeIrq_done_self hp
  | unmap space =>
    intro r' hr'
    change (c.unmapSpace p r space).2.slotIds p = some r' at hr'
    rcases unmapSpace_eq h hp with ⟨heq, hnone⟩ | heq
    · rw [heq] at hr'
      obtain rfl := Option.some.inj (hp.symm.trans hr')
      exact hnone
    · rw [heq] at hr'
      rcases setSpace_slotIds hr' with ⟨-, rfl⟩ | ⟨hne, -⟩
      · rw [r.setSpace_self]
      · exact absurd rfl hne

theorem found_free : c.found r .free = false ↔ c.irq r.position = none := by
  unfold found
  cases c.irq r.position <;> simp

theorem found_unmap {space : Space} :
    c.found r (.unmap space) = false ↔ (r.space space).address = none := by
  unfold found
  cases h : (r.space space).address <;> simp [h]

theorem serve_of_not_found (hop : op ∈ unregisterOps) (hnone : c.found r op = false) :
    (c.serve p r memory remapped op).2 = c := by
  cases op with
  | map => exact absurd hop (by simp [unregisterOps])
  | request => exact absurd hop (by simp [unregisterOps])
  | free =>
    rcases c.freeIrq_eq (r := r) with ⟨-, heq⟩ | ⟨q, hq, -⟩
    · exact heq
    · exact absurd ((found_free.mp hnone).symm.trans hq) nofun
  | unmap space => exact congrArg Prod.snd (if_pos (found_unmap.mp hnone))

theorem done_of_not_found (hp : c.slotIds p = some r) (hnone : c.found r op = false) :
    c.Done p op := by
  cases op with
  | map => trivial
  | request => trivial
  | free =>
    intro r' hr'
    obtain rfl := Option.some.inj (hp.symm.trans hr')
    exact found_free.mp hnone
  | unmap space =>
    intro r' hr'
    obtain rfl := Option.some.inj (hp.symm.trans hr')
    exact found_unmap.mp hnone

theorem Wf.checkSlot (h : c.Wf) (hp : c.slotIds p = some r) : c.checkSlot r := by
  refine ⟨h.bound p r hp, ?_⟩
  rw [h.owner p r hp]
  nofun

end Carrier

/-! ## Steps -/

section

variable {s s' : State} {q : Nat} {p : Ptr} {proc : Proc} {e : Event}

theorem Unregistering.mono {c c' : Carrier} {todo : List Op} {undone changed : Bool}
    (hdone : ∀ op, c.Done p op → c'.Done p op) (h : Unregistering c p todo undone changed) :
    Unregistering c' p todo undone changed :=
  ⟨h.chain, fun op hop hpast => hdone op (h.done op hop hpast), h.changed⟩

theorem Inv.setProc {c : Carrier} (h : Inv s) (hwf : c.Wf)
    (hothers : ∀ q' p todo checked undone changed,
      s.procs q' = .unregister p todo checked undone changed →
      ∀ op, s.carrier.Done p op → op ∉ todo → c.Done p op)
    (hproc : ∀ p todo checked undone changed,
      proc = .unregister p todo checked undone changed →
      Unregistering c p todo undone changed) :
    Inv ({ s with carrier := c }.setProc q proc) := by
  refine ⟨hwf, ?_⟩
  intro q' p todo checked undone changed hq'
  rcases update_cases hq' with ⟨-, hnew⟩ | ⟨-, hq'⟩
  · exact hproc p todo checked undone changed hnew
  · have hq := h.unregistering q' p todo checked undone changed hq'
    exact ⟨hq.chain, fun op hop hpast => hothers q' p todo checked undone changed hq' op
      (hq.done op hop hpast) hpast, hq.changed⟩

theorem Inv.setCarrier {c : Carrier} (h : Inv s) (hwf : c.Wf)
    (hdone : ∀ p op, s.carrier.Done p op → c.Done p op) : Inv { s with carrier := c } :=
  ⟨hwf, fun q p todo checked undone changed hq =>
    (h.unregistering q p todo checked undone changed hq).mono (hdone p)⟩

theorem inv_direct {op : Op} {r : SlotId} {lock memory : Bool} {remapped : Option Nat}
    (h : Inv s) (hp : s.carrier.slotIds p = some r)
    (hok : lock = true → s.Harmless p r memory remapped op) :
    Inv ({ s with carrier := s.served p r lock memory remapped op }.setProc q .idle) := by
  unfold State.served
  cases lock with
  | false => exact h.setProc h.wf (fun _ _ _ _ _ _ _ _ hop _ => hop) nofun
  | true =>
    have hharm := hok rfl
    refine h.setProc ?_ ?_ nofun
    · refine Carrier.serve_wf h.wf hp ?_ ?_
      · rintro irq rfl hnone hmem
        exact (hharm hnone hmem).1
      · rintro rfl
        exact hharm rfl
    · intro q' p' todo checked undone changed hq' op' hop' hpast
      refine Carrier.serve_done h.wf hp hop' ?_ ?_
      · rintro irq rfl hnone hmem rfl rfl
        exact hpast ((hharm hnone hmem).2 q' todo checked undone changed hq')
      · rintro space memorySize rfl hnone hsize hsome rfl rfl
        exact hpast (hharm hnone hsize hsome q' todo checked undone changed hq')

theorem chain_cases {op : Op} {todo : List Op} (h : op :: todo <:+ unregisterOps) :
    op ∈ unregisterOps ∧ todo <:+ unregisterOps ∧ (op = .unmap .io → .free ∉ op :: todo) := by
  refine ⟨h.subset (List.mem_cons_self ..), (List.suffix_cons op todo).trans h, ?_⟩
  rintro rfl hfree
  rcases List.suffix_cons_iff.mp h with heq | hrest
  · cases heq
  · exact absurd (hrest.subset hfree) (by decide)

theorem inv_inner {op : Op} {todo : List Op} {r : SlotId} {undone changed lock memory : Bool}
    {remapped : Option Nat} (h : Inv s)
    (hq : s.procs q = .unregister p (op :: todo) true undone changed)
    (hp : s.carrier.slotIds p = some r)
    (hok : lock = false → s.carrier.found r op = false) :
    Inv ({ s with carrier := s.served p r lock memory remapped op }.setProc q
      (.unregister p todo false (undone || lock && s.carrier.found r op)
        (changed || decide ((s.served p r lock memory remapped op).view r.position ≠
          s.carrier.view r.position)))) := by
  have hun := h.unregistering q p (op :: todo) true undone changed hq
  obtain ⟨hop, htodo, hio⟩ := chain_cases hun.chain
  have hnotRequest (irq : SlotIrq) : op ≠ .request irq := by
    rintro rfl
    simp [unregisterOps] at hop
  have hnotMap (space : Space) (memorySize : Nat) : op ≠ .map space memorySize := by
    rintro rfl
    simp [unregisterOps] at hop
  have hserved {p' : Ptr} {op' : Op} (hdone : s.carrier.Done p' op') :
      (s.served p r lock memory remapped op).Done p' op' := by
    unfold State.served
    split
    · exact Carrier.serve_done h.wf hp hdone (fun irq hirq => absurd hirq (hnotRequest irq))
        (fun space size hmap => absurd hmap (hnotMap space size))
    · exact hdone
  refine h.setProc ?_ (fun _ _ _ _ _ _ _ _ hdone _ => hserved hdone) ?_
  · unfold State.served
    split
    · refine Carrier.serve_wf h.wf hp (fun irq hirq => absurd hirq (hnotRequest irq)) ?_
      intro hunmap
      exact hun.done .free (List.mem_cons_self ..) (hio hunmap) r hp
    · exact h.wf
  · intro p' todo' checked undone' changed' heq
    injection heq with hp' htodo' _ hundone hchanged
    subst hp' htodo'
    refine ⟨htodo, ?_, ?_⟩
    · intro op' hop' hpast
      by_cases hself : op' = op
      · subst hself
        unfold State.served
        split
        · exact Carrier.serve_done_self h.wf hp hop
        · next hlock =>
          exact Carrier.done_of_not_found hp (hok (Bool.eq_false_iff.mpr hlock))
      · refine hserved (hun.done op' hop' fun hmem => ?_)
        exact (List.mem_cons.mp hmem).elim hself hpast
    · rw [← hundone, ← hchanged]
      intro hnothing
      obtain ⟨hundone, hfound⟩ := Bool.or_eq_false_iff.mp hnothing
      have hsame : s.served p r lock memory remapped op = s.carrier := by
        unfold State.served
        split
        · next hlock =>
          rw [hlock, Bool.true_and] at hfound
          exact Carrier.serve_of_not_found hop hfound
        · rfl
      rw [hun.changed hundone, hsame]
      simp

theorem inv_step (h : Inv s) (hok : Ok s e) (hs : Step s e s') : Inv s' := by
  obtain ⟨hlive, henter⟩ := hok
  cases hs with
  | register =>
    refine h.setCarrier ?_ ?_
    · split
      · exact Carrier.register_wf h.wf _ _
      · exact h.wf
    · intro p op hop
      split
      · exact Carrier.register_done h.wf _ _ hop
      · exact hop
  | callNull => exact h
  | call hidle hp =>
    split
    · exact h.setProc h.wf (fun _ _ _ _ _ _ _ _ hop _ => hop) nofun
    · exact h
  | unregisterNull => exact h
  | unregister hidle hp =>
    split
    · refine h.setProc h.wf (fun _ _ _ _ _ _ _ _ hop _ => hop) ?_
      intro p' todo checked undone changed heq
      injection heq with _ htodo _ _ hchanged
      subst htodo hchanged
      exact ⟨List.suffix_rfl, fun op hop hpast => absurd hop hpast, fun _ => rfl⟩
    · exact h
  | check hq hp =>
    refine h.setProc h.wf (fun _ _ _ _ _ _ _ _ hop _ => hop) ?_
    rw [if_pos (h.wf.checkSlot hp)]
    intro p' todo' checked undone' changed' heq
    injection heq with hp' htodo' _ hundone hchanged
    subst hp' htodo' hundone hchanged
    exact h.unregistering _ _ _ _ _ _ hq
  | direct hq hp =>
    exact inv_direct h hp ((henter _ _ _ _ rfl).1 _ _ _ hq hp)
  | inner hq hp =>
    exact inv_inner h hq hp ((henter _ _ _ _ rfl).2 _ _ _ _ _ _ hq hp)
  | last hq hp =>
    have hun := h.unregistering _ _ _ _ _ _ hq
    have hirq := hun.done .free (by decide) nofun _ hp
    have hmaps (space : Space) := hun.done (.unmap space) (by cases space <;> decide) nofun _ hp
    refine h.setProc ?_ ?_ nofun
    · split
      · exact Carrier.remove_wf h.wf hp hirq hmaps
      · exact h.wf
    · intro q' p' todo checked undone changed _ op hop _
      split
      · exact Carrier.remove_done hop
      · exact hop
  | interrupt =>
    exact h.setCarrier (Carrier.interrupt_wf h.wf _) fun _ _ hop =>
      Carrier.interrupt_done hop _
  | freed huses hfreed => exact absurd hfreed (hlive _ huses)

theorem inv_invariant : (slots.guarded Ok).Invariant Inv where
  init := by
    rintro s ⟨control, rfl⟩
    refine ⟨⟨nofun, nofun, nofun, nofun, nofun, ?_, nofun, fun _ _ _ => rfl,
      fun _ _ => ⟨rfl, rfl⟩⟩, nofun⟩
    exact fun i hi => absurd rfl hi
  step h hs := inv_step h hs.1 hs.2

end

/-- A carrier whose first slot is registered. -/
def registered : State := { carrier := (({} : Carrier).register 0 true).2 }

section

variable {s : State} {q : Nat} {p : Ptr} {r : SlotId} (lock : Bool) (remapped : Option Nat)

theorem reachable_direct (h : slots.Reachable s) (hidle : s.procs q = .idle)
    (hp : s.carrier.slotIds p = some r) (hcheck : s.carrier.checkSlot r) (op : Op) :
    slots.Reachable { s with carrier := s.served p r lock true remapped op } := by
  have hcall : Step s (.call q op (some p)) (s.setProc q (.direct op p)) := by
    have hstep : Step s (.call q op (some p)) _ := .call hidle hp
    rwa [if_pos hcheck] at hstep
  have henter : Step (s.setProc q (.direct op p)) (.enter q lock true remapped) _ :=
    .direct (Function.update_self ..) hp
  have hprocs : Function.update (Function.update s.procs q (.direct op p)) q .idle =
      s.procs := by
    rw [Function.update_idem, ← hidle, Function.update_eq_self]
  have hreach := (h.step hcall).step henter
  unfold State.setProc at hreach
  rwa [hprocs] at hreach

theorem reachable_inner (h : slots.Reachable s) {op : Op} {todo : List Op}
    {undone changed : Bool} (hq : s.procs q = .unregister p (op :: todo) false undone changed)
    (hp : s.carrier.slotIds p = some r) (hcheck : s.carrier.checkSlot r) :
    ∃ undone' changed', slots.Reachable
      ({ s with carrier := s.served p r lock true remapped op }.setProc q
        (.unregister p todo false undone' changed')) := by
  have hchecked : Step s (.check q)
      (s.setProc q (.unregister p (op :: todo) true undone changed)) := by
    have hstep := Step.check hq hp
    rwa [if_pos hcheck] at hstep
  have henter : Step (s.setProc q (.unregister p (op :: todo) true undone changed))
      (.enter q lock true remapped) _ := .inner (Function.update_self ..) hp
  have hreach := (h.step hchecked).step henter
  unfold State.setProc at hreach
  rw [Function.update_idem] at hreach
  exact ⟨_, _, hreach⟩

end

end Coht.Tpci200
