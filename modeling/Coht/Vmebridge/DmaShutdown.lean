import Coht.Vmebridge.DmaChannel

/-!
# Shutting the DMA engine down (`vme_dma_exit()`)

The exit path sets `dma_disable` and then waits by taking the semaphore and
giving it back, once for each channel. One free permit is enough to get
through all rounds, so the wait does not show that the other channels are
idle. What does make the shutdown safe is that nobody who may still touch a
channel is left when the last `down` succeeds: from then on nobody can get
past the second check.

`shutdown_safe` is about the runs in which that is so, and
`not_shutdown_safe` is a run of one client that holds the first channel while
the exit path passes twice through the permit of the second.
-/

namespace Coht.Vmebridge

open Coht.Lib

/-- Where `vme_dma_exit()` stands. -/
inductive ExitPhase
  | notCalled
  /-- `dma_disable` is set, the transfers in flight not yet aborted. -/
  | disabled
  /-- In the `down` of a round, after `rounds` complete ones. -/
  | waiting (rounds : Nat)
  /-- Between the `down` and the `up` of a round. -/
  | holding (rounds : Nat)
  | drained
  /-- `tsi148_dma_exit()` has destroyed the pool. -/
  | destroyed
  deriving DecidableEq, Repr

def ExitPhase.taken : ExitPhase → Nat
  | .holding _ => 1
  | .notCalled | .disabled | .waiting _ | .drained | .destroyed => 0

/-- The clients and the exit path. -/
structure Shutdown (ι : Type) where
  dma : Dma ι
  exit : ExitPhase

/-- The steps of `vme_dma_exit()`. Aborting a transfer makes the chip stop and
the client that waits for it go on; it changes none of this state. -/
inductive ExitStep {ι : Type} : Shutdown ι → Shutdown ι → Prop
  | disable {s : Shutdown ι} :
      s.exit = .notCalled →
      ExitStep s ⟨{ s.dma with disable := true }, .disabled⟩
  | abort {s : Shutdown ι} :
      s.exit = .disabled → ExitStep s ⟨s.dma, .waiting 0⟩
  | down {s : Shutdown ι} {rounds : Nat} :
      s.exit = .waiting rounds → 0 < s.dma.permits →
      ExitStep s ⟨{ s.dma with permits := s.dma.permits - 1 },
        .holding rounds⟩
  | up {s : Shutdown ι} {rounds : Nat} :
      s.exit = .holding rounds →
      ExitStep s ⟨{ s.dma with permits := s.dma.permits + 1 },
        if rounds + 1 < numDmaChannels then .waiting (rounds + 1)
        else .drained⟩
  | destroy {s : Shutdown ι} :
      s.exit = .drained → ExitStep s ⟨s.dma, .destroyed⟩

variable {ι : Type} [DecidableEq ι]

/-- Any number of clients and one call of `vme_dma_exit()` (`none`). -/
def shutdownSystem (ι : Type) [DecidableEq ι] :
    System (Shutdown ι) (Option (DmaEvent ι)) where
  init s := s = ⟨.initial ι, .notCalled⟩
  step s e s' :=
    match e with
    | some e => ClientStep s.dma e s'.dma ∧ s'.exit = s.exit
    | none => ExitStep s s'

/-- The condition on the last `down` of the exit path: no client is past its
second check of `dma_disable` and not yet done with its channel. -/
def LastDownIdle (s : Shutdown ι) (e : Option (DmaEvent ι)) : Prop :=
  e = none → s.exit = .waiting (numDmaChannels - 1) →
    ∀ i, (s.dma.phase i).engaged = false

/-- No channel is busy and no client is where it may use one or the pool. -/
def Quiet (s : Dma ι) : Prop :=
  (∀ c, s.busy c = false) ∧ ∀ i, (s.phase i).engaged = false

def ExitPhase.past : ExitPhase → Bool
  | .holding rounds => decide (numDmaChannels ≤ rounds + 1)
  | .drained | .destroyed => true
  | .notCalled | .disabled | .waiting _ => false

structure Draining [Fintype ι] (s : Shutdown ι) : Prop where
  owned : Owned s.exit.taken s.dma
  disabled : s.exit ≠ .notCalled → s.dma.disable = true
  rounds : ∀ rounds, s.exit = .waiting rounds → rounds < numDmaChannels
  idle : s.exit.past = true → ∀ i, (s.dma.phase i).engaged = false

section Invariant

variable [Fintype ι] {s s' : Dma ι} {t t' : Shutdown ι} {k : Nat}

omit [Fintype ι] in
theorem engaged_step {e : DmaEvent ι} (hdis : s.disable = true)
    (hidle : ∀ i, (s.phase i).engaged = false) (hstep : ClientStep s e s') :
    ∀ i, (s'.phase i).engaged = false := by
  have hgoes : ∀ (i : ι) (p : DmaPhase), p.engaged = false →
      ∀ j, (Function.update s.phase i p j).engaged = false := by
    intro i p hp j
    by_cases hj : j = i
    · subst hj
      rw [Function.update_self]
      exact hp
    · rw [Function.update_of_ne hj]
      exact hidle j
  cases hstep with
  | turnedAway => exact hidle
  | enter => exact hgoes _ _ rfl
  | interrupted => exact hgoes _ _ rfl
  | down => exact hgoes _ _ rfl
  | refuse => exact hgoes _ _ rfl
  | clear _ hfalse =>
    rw [hdis] at hfalse
    cases hfalse
  | @lock i _ _ hi _ =>
    have hcleared := hidle i
    rw [hi] at hcleared
    cases hcleared
  | deadlock => exact hgoes _ _ rfl
  | use => exact hidle
  | free => exact hgoes _ _ rfl
  | up => exact hgoes _ _ rfl
  | upRefused => exact hgoes _ _ rfl

omit [Fintype ι] in
theorem disable_step {e : DmaEvent ι} (hdis : s.disable = true)
    (hstep : ClientStep s e s') : s'.disable = true := by
  cases hstep <;> exact hdis

omit [DecidableEq ι] in
theorem Owned.transfer {others permits : Nat} (h : Owned k s)
    (hsum : permits + others = s.permits + k) :
    Owned others { s with permits := permits } where
  permits := by
    have := h.permits
    show permits + count _ s.phase + others = _
    omega
  busy := h.busy
  held := h.held
  unique := h.unique

theorem Draining.client {e : DmaEvent ι} (h : Draining t)
    (hstep : ClientStep t.dma e t'.dma) (hexit : t'.exit = t.exit) :
    Draining t' where
  owned := by
    rw [hexit]
    exact h.owned.step hstep
  disabled hcalled := by
    rw [hexit] at hcalled
    exact disable_step (h.disabled hcalled) hstep
  rounds := by
    rw [hexit]
    exact h.rounds
  idle hpast := by
    rw [hexit] at hpast
    have hcalled : t.exit ≠ .notCalled := by
      intro hn
      rw [hn] at hpast
      cases hpast
    exact engaged_step (h.disabled hcalled) (h.idle hpast) hstep

omit [DecidableEq ι] in
theorem Draining.exit (h : Draining t) (hok : LastDownIdle t none)
    (hstep : ExitStep t t') : Draining t' := by
  have howned := h.owned
  cases hstep with
  | disable he =>
    rw [he] at howned
    exact ⟨howned.disabled, fun _ => rfl, nofun,
      nofun⟩
  | abort he =>
    rw [he] at howned
    refine ⟨howned, fun _ => h.disabled (by simp [he]), ?_,
      nofun⟩
    intro rounds hr
    cases hr
    decide
  | @down rounds he hpos =>
    rw [he] at howned
    refine ⟨howned.transfer ?_, fun _ => h.disabled (by simp [he]),
      nofun, ?_⟩
    · simp only [ExitPhase.taken]
      omega
    · intro hpast
      have hlt := h.rounds rounds he
      simp only [ExitPhase.past, decide_eq_true_eq] at hpast
      have hlast : rounds = numDmaChannels - 1 := by omega
      subst hlast
      exact hok rfl he
  | @up rounds he =>
    rw [he] at howned
    have hidle := h.idle
    rw [he] at hidle
    have hdis := h.disabled (by simp [he])
    split
    · next hlt =>
      refine ⟨howned.transfer ?_, fun _ => hdis, ?_, nofun⟩
      · simp only [ExitPhase.taken]
      · intro r hr
        cases hr
        exact hlt
    · next hge =>
      refine ⟨howned.transfer ?_, fun _ => hdis, nofun,
        fun _ => hidle ?_⟩
      · simp only [ExitPhase.taken]
      · simp only [ExitPhase.past, decide_eq_true_eq]
        omega
  | destroy he =>
    rw [he] at howned
    have hidle := h.idle
    rw [he] at hidle
    exact ⟨howned, fun _ => h.disabled (by simp [he]),
      nofun, fun _ => hidle rfl⟩

theorem draining_invariant :
    ((shutdownSystem ι).guarded LastDownIdle).Invariant Draining where
  init {s} hs := by
    cases hs
    exact ⟨Owned.initial, fun h => absurd rfl h, nofun,
      nofun⟩
  step {s s' e} h hstep := by
    obtain ⟨hok, hstep⟩ := hstep
    cases e with
    | some e => exact h.client hstep.1 hstep.2
    | none => exact h.exit hok hstep

omit [DecidableEq ι] in
theorem Owned.quiet (h : Owned k s)
    (hidle : ∀ i, (s.phase i).engaged = false) : Quiet s := by
  refine ⟨?_, hidle⟩
  intro c
  cases hc : s.busy c with
  | false => rfl
  | true =>
    obtain ⟨i, hi⟩ := h.busy c hc
    have hholds := hidle i
    rw [hi] at hholds
    cases hholds

omit [Fintype ι] in
theorem Quiet.not_uses {i : ι} {c : Channel} (h : Quiet s) :
    ¬ ClientStep s (.uses i c) s' := by
  intro hstep
  cases hstep with
  | use hi =>
    have hholds := h.2 i
    rw [hi] at hholds
    cases hholds

omit [Fintype ι] [DecidableEq ι] in
theorem ExitStep.not_destroyed (hstep : ExitStep t t') :
    t.exit ≠ .destroyed := by
  intro h
  cases hstep with
  | disable he | abort he | down he | up he | destroy he =>
    rw [h] at he
    cases he

theorem destroyed_run {es : List (Option (DmaEvent ι))}
    (hrun : (shutdownSystem ι).Run t es t') (h : Draining t)
    (hdestroyed : t.exit = .destroyed) :
    Quiet t'.dma ∧ ∀ i c, some (.uses i c) ∉ es := by
  have hquiet : ∀ {u : Shutdown ι}, Draining u → u.exit = .destroyed →
      Quiet u.dma := by
    intro u hu hud
    have hidle := hu.idle
    rw [hud] at hidle
    exact hu.owned.quiet (hidle rfl)
  induction hrun with
  | nil u => exact ⟨hquiet h hdestroyed, nofun⟩
  | @cons u v w e es hstep _ ih =>
    cases e with
    | none => exact absurd hdestroyed (ExitStep.not_destroyed hstep)
    | some e =>
      have hv := h.client hstep.1 hstep.2
      obtain ⟨hw, hes⟩ := ih hv (hstep.2.trans hdestroyed)
      refine ⟨hw, ?_⟩
      intro i c hmem
      rcases List.mem_cons.mp hmem with heq | hmem
      · cases heq
        exact (hquiet h hdestroyed).not_uses hstep.1
      · exact hes i c hmem

end Invariant

/-! ## A run of one client -/

section OneClient

variable {s : Shutdown ι}

theorem reachable_client {e : DmaEvent ι} {d : Dma ι}
    (h : (shutdownSystem ι).Reachable s) (hstep : ClientStep s.dma e d) :
    (shutdownSystem ι).Reachable ⟨d, s.exit⟩ :=
  h.step (e := some e) ⟨hstep, rfl⟩

theorem reachable_exit {s' : Shutdown ι}
    (h : (shutdownSystem ι).Reachable s) (hstep : ExitStep s s') :
    (shutdownSystem ι).Reachable s' :=
  h.step (e := none) hstep

end OneClient

end Coht.Vmebridge
