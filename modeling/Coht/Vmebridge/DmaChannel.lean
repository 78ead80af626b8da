import Coht.Lib.Count
import Coht.Lib.System
import Coht.Vmebridge.Vmebus

/-!
# Acquiring and releasing DMA channels (`vme_dma.c`)

A transfer takes two steps to get its channel. `dma_semaphore` counts the free
channels and admits as many clients, and `__lock_avail_channel()` then picks
one of them under `dma_lock`. Between the two, and again on the way out, the
count and the busy flags disagree, and a client that finds `dma_disable` set
gives its permit back without ever having held a channel.

The model has one phase for each point of `__vme_do_dma()` at which another
client can run, and any number of clients. What a client does with a channel
it holds (setting the transfer up, starting it, waiting for it, freeing the
descriptors) touches no shared state of this module; the step `use` stands for
all of it.

`Owned` is the invariant that ties the semaphore to the flags: permits and
clients inside add up to the number of channels, and the busy channels are
exactly the held ones, each by one client.
-/

namespace Coht.Vmebridge

open Coht.Lib

/-- `TSI148_NUM_DMA_CHANNELS` -/
def numDmaChannels : Nat := 2

abbrev Channel := Fin numDmaChannels

/-- `__lock_avail_channel()` on the busy flags: the first channel that is not
busy, or -EDEADLK when there is none. -/
def lockAvailChannel (busy : Channel → Bool) :
    Except Errno Channel × (Channel → Bool) :=
  match (List.finRange numDmaChannels).find? fun c => !busy c with
  | some c => (.ok c, Function.update busy c true)
  | none => (.error .edeadlk, busy)

theorem lockAvailChannel_ok {busy busy' : Channel → Bool} {c : Channel}
    (h : lockAvailChannel busy = (.ok c, busy')) :
    busy c = false ∧ busy' = Function.update busy c true := by
  simp only [lockAvailChannel] at h
  split at h
  · next k hk =>
    simp only [Prod.mk.injEq, Except.ok.injEq] at h
    obtain ⟨rfl, rfl⟩ := h
    have hfree := List.find?_some hk
    exact ⟨by simpa using hfree, rfl⟩
  · simp at h

theorem lockAvailChannel_error {busy busy' : Channel → Bool} {rc : Errno}
    (h : lockAvailChannel busy = (.error rc, busy')) :
    ∀ c, busy c = true := by
  intro c
  simp only [lockAvailChannel] at h
  split at h
  · simp at h
  · next hnone =>
    have hc := List.find?_eq_none.mp hnone c (List.mem_finRange c)
    simpa using hc

/-! ## The clients -/

/-- Where a client stands in `__vme_do_dma()`. -/
inductive DmaPhase
  /-- Outside. -/
  | idle
  /-- Past the first check of `dma_disable`, in `down_interruptible()`. -/
  | waiting
  /-- Past the semaphore, before the second check. -/
  | admitted
  /-- Past the second check, before the channel is picked. -/
  | cleared
  | holding (c : Channel)
  /-- The busy flag is cleared, the permit not yet given back. -/
  | freed
  /-- The second check found `dma_disable`; the permit is not yet given
  back. -/
  | refused
  deriving DecidableEq, Repr

/-- Between `down` and `up`. -/
def DmaPhase.inside : DmaPhase → Bool
  | .idle | .waiting => false
  | .admitted | .cleared | .holding _ | .freed | .refused => true

/-- Past the second check of `dma_disable` and not yet done with the
channel. -/
def DmaPhase.engaged : DmaPhase → Bool
  | .cleared | .holding _ => true
  | .idle | .waiting | .admitted | .freed | .refused => false

/-- `dma_semaphore`, the busy flags, `dma_disable` and the clients. -/
structure Dma (ι : Type) where
  permits : Nat
  busy : Channel → Bool
  disable : Bool
  phase : ι → DmaPhase

variable {ι : Type} [DecidableEq ι]

def Dma.goes (s : Dma ι) (i : ι) (p : DmaPhase) : Dma ι :=
  { s with phase := Function.update s.phase i p }

/-- What another party sees of a client's step. -/
inductive DmaEvent (ι : Type)
  | enters (i : ι)
  | returns (i : ι) (rc : Rc)
  | moves (i : ι)
  | acquires (i : ι) (c : Channel)
  | uses (i : ι) (c : Channel)

/-- One step of one client. -/
inductive ClientStep : Dma ι → DmaEvent ι → Dma ι → Prop
  | turnedAway {s : Dma ι} {i : ι} :
      s.phase i = .idle → s.disable = true →
      ClientStep s (.returns i (.error .ebusy)) s
  | enter {s : Dma ι} {i : ι} :
      s.phase i = .idle → s.disable = false →
      ClientStep s (.enters i) (s.goes i .waiting)
  | interrupted {s : Dma ι} {i : ι} :
      s.phase i = .waiting →
      ClientStep s (.returns i (.error .eintr)) (s.goes i .idle)
  | down {s : Dma ι} {i : ι} :
      s.phase i = .waiting → 0 < s.permits →
      ClientStep s (.moves i)
        { s.goes i .admitted with permits := s.permits - 1 }
  | refuse {s : Dma ι} {i : ι} :
      s.phase i = .admitted → s.disable = true →
      ClientStep s (.moves i) (s.goes i .refused)
  | clear {s : Dma ι} {i : ι} :
      s.phase i = .admitted → s.disable = false →
      ClientStep s (.moves i) (s.goes i .cleared)
  | lock {s : Dma ι} {i : ι} {c : Channel} {busy : Channel → Bool} :
      s.phase i = .cleared → lockAvailChannel s.busy = (.ok c, busy) →
      ClientStep s (.acquires i c) { s.goes i (.holding c) with busy := busy }
  -- The failing exit of `__lock_avail_channel()` keeps the permit.
  | deadlock {s : Dma ι} {i : ι} {rc : Errno} {busy : Channel → Bool} :
      s.phase i = .cleared → lockAvailChannel s.busy = (.error rc, busy) →
      ClientStep s (.returns i (.error rc)) { s.goes i .idle with busy := busy }
  | use {s : Dma ι} {i : ι} {c : Channel} :
      s.phase i = .holding c → ClientStep s (.uses i c) s
  | free {s : Dma ι} {i : ι} {c : Channel} :
      s.phase i = .holding c →
      ClientStep s (.moves i)
        { s.goes i .freed with busy := Function.update s.busy c false }
  | up {s : Dma ι} {i : ι} {rc : Rc} :
      s.phase i = .freed →
      ClientStep s (.returns i rc)
        { s.goes i .idle with permits := s.permits + 1 }
  | upRefused {s : Dma ι} {i : ι} :
      s.phase i = .refused →
      ClientStep s (.returns i (.error .ebusy))
        { s.goes i .idle with permits := s.permits + 1 }

/-- The state after `vme_dma_init()`. -/
def Dma.initial (ι : Type) : Dma ι where
  permits := numDmaChannels
  busy _ := false
  disable := false
  phase _ := .idle

/-- Any number of clients, and `dma_disable` set at any time (`none`). -/
def dmaSystem (ι : Type) [DecidableEq ι] :
    System (Dma ι) (Option (DmaEvent ι)) where
  init s := s = .initial ι
  step s e s' :=
    match e with
    | some e => ClientStep s e s'
    | none => s' = { s with disable := true }

/-! ## The invariant -/

/-- The accounts of the semaphore and the flags, with `others` permits taken
by parties that are not clients. -/
structure Owned [Fintype ι] (others : Nat) (s : Dma ι) : Prop where
  permits : s.permits + count DmaPhase.inside s.phase + others = numDmaChannels
  busy : ∀ c, s.busy c = true → ∃ i, s.phase i = .holding c
  held : ∀ i c, s.phase i = .holding c → s.busy c = true
  unique : ∀ i j c, s.phase i = .holding c → s.phase j = .holding c → i = j

section Invariant

variable [Fintype ι] {others : Nat} {s s' : Dma ι} {i : ι}

omit [DecidableEq ι] in
theorem Owned.initial : Owned 0 (Dma.initial ι) where
  permits := by
    have hnone : count DmaPhase.inside (Dma.initial ι).phase = 0 :=
      count_eq_zero fun _ => rfl
    rw [hnone]
    rfl
  busy _ h := by cases h
  held _ _ h := by cases h
  unique _ _ _ h := by cases h

omit [Fintype ι] in
theorem holding_goes {p : DmaPhase} {j : ι} {c : Channel}
    (hj : s.phase j = .holding c) (hi : s.phase i ≠ .holding c) :
    Function.update s.phase i p j = .holding c := by
  rw [Function.update_of_ne]
  · exact hj
  · rintro rfl
    exact hi hj

theorem Owned.permits_goes {p : DmaPhase} {permits : Nat} (h : Owned others s)
    (hpermits : permits + p.inside.toNat =
      s.permits + (s.phase i).inside.toNat) :
    permits + count DmaPhase.inside (Function.update s.phase i p) + others =
      numDmaChannels := by
  have hcount := count_update DmaPhase.inside s.phase i p
  have hsum := h.permits
  omega

theorem Owned.goes {p : DmaPhase} {permits : Nat} (h : Owned others s)
    (hfrom : ∀ c, s.phase i ≠ .holding c) (hto : ∀ c, p ≠ .holding c)
    (hpermits : permits + p.inside.toNat =
      s.permits + (s.phase i).inside.toNat) :
    Owned others { s.goes i p with permits := permits } where
  permits := h.permits_goes hpermits
  busy c hc := by
    obtain ⟨j, hj⟩ := h.busy c hc
    exact ⟨j, holding_goes hj (hfrom c)⟩
  held j c hj := by
    rcases update_cases hj with ⟨-, heq⟩ | ⟨-, hj⟩
    · exact absurd heq (hto c)
    · exact h.held j c hj
  unique j k c hj hk := by
    rcases update_cases hj with ⟨-, heq⟩ | ⟨-, hj⟩
    · exact absurd heq (hto c)
    · rcases update_cases hk with ⟨-, heq⟩ | ⟨-, hk⟩
      · exact absurd heq (hto c)
      · exact h.unique j k c hj hk

theorem Owned.lock {c : Channel} (h : Owned others s)
    (hi : s.phase i = .cleared) (hfree : s.busy c = false) :
    Owned others { s.goes i (.holding c) with
      busy := Function.update s.busy c true } where
  permits := h.permits_goes (by rw [hi]; rfl)
  busy k hk := by
    rcases update_cases hk with ⟨rfl, -⟩ | ⟨-, hk⟩
    · exact ⟨i, Function.update_self ..⟩
    · obtain ⟨j, hj⟩ := h.busy k hk
      exact ⟨j, holding_goes hj (by rw [hi]; nofun)⟩
  held j k hj := by
    show Function.update s.busy c true k = true
    by_cases hkc : k = c
    · subst hkc
      exact Function.update_self ..
    · rw [Function.update_of_ne hkc]
      rcases update_cases hj with ⟨-, heq⟩ | ⟨-, hj⟩
      · cases heq
        exact absurd rfl hkc
      · exact h.held j k hj
  unique j k d hj hk := by
    -- Nobody else can hold `c`, since it was free.
    have hother : ∀ l, s.phase l ≠ .holding c := by
      intro l hl
      have := h.held l c hl
      rw [hfree] at this
      cases this
    rcases update_cases hj with ⟨hji, heq⟩ | ⟨-, hj⟩
    · rcases update_cases hk with ⟨hki, -⟩ | ⟨-, hk⟩
      · exact hji.trans hki.symm
      · cases heq
        exact absurd hk (hother k)
    · rcases update_cases hk with ⟨-, heq⟩ | ⟨-, hk⟩
      · cases heq
        exact absurd hj (hother j)
      · exact h.unique j k d hj hk

theorem Owned.free {c : Channel} (h : Owned others s)
    (hi : s.phase i = .holding c) :
    Owned others { s.goes i .freed with
      busy := Function.update s.busy c false } where
  permits := h.permits_goes (by rw [hi]; rfl)
  busy k hk := by
    rcases update_cases hk with ⟨-, heq⟩ | ⟨hkc, hk⟩
    · cases heq
    · obtain ⟨j, hj⟩ := h.busy k hk
      refine ⟨j, holding_goes hj ?_⟩
      rw [hi]
      intro heq
      cases heq
      exact hkc rfl
  held j k hj := by
    show Function.update s.busy c false k = true
    rcases update_cases hj with ⟨-, heq⟩ | ⟨hji, hold⟩
    · cases heq
    · rw [Function.update_of_ne]
      · exact h.held j k hold
      · rintro rfl
        exact hji (h.unique j i k hold hi)
  unique j k d hj hk := by
    rcases update_cases hj with ⟨-, heq⟩ | ⟨-, hj⟩
    · cases heq
    · rcases update_cases hk with ⟨-, heq⟩ | ⟨-, hk⟩
      · cases heq
      · exact h.unique j k d hj hk

omit [DecidableEq ι] in
theorem Owned.channel_free (h : Owned others s)
    (hi : s.phase i = .cleared) : ∃ c, s.busy c = false := by
  by_contra hnone
  have hbusy : ∀ c, s.busy c = true := by
    intro c
    cases hc : s.busy c with
    | true => rfl
    | false => exact absurd ⟨c, hc⟩ hnone
  choose holder hholder using fun c => h.busy c (hbusy c)
  let party : Option Channel → ι := fun o => o.elim i holder
  have hinj : Function.Injective party := by
    intro a b hab
    cases a with
    | none =>
      cases b with
      | none => rfl
      | some d =>
        have hd := hholder d
        change i = holder d at hab
        rw [← hab, hi] at hd
        cases hd
    | some c =>
      cases b with
      | none =>
        have hc := hholder c
        change holder c = i at hab
        rw [hab, hi] at hc
        cases hc
      | some d =>
        have hc := hholder c
        change holder c = holder d at hab
        rw [hab, hholder d] at hc
        cases hc
        rfl
  have hin : ∀ o, (s.phase (party o)).inside = true := by
    intro o
    cases o with
    | none =>
      show (s.phase i).inside = true
      rw [hi]
      rfl
    | some c =>
      show (s.phase (holder c)).inside = true
      rw [hholder c]
      rfl
  have hcard := card_le_count (p := DmaPhase.inside) party hinj hin
  rw [Fintype.card_option, Fintype.card_fin] at hcard
  have hsum := h.permits
  omega

omit [DecidableEq ι] in
theorem lockAvailChannel_not_edeadlk (h : Owned others s)
    (hi : s.phase i = .cleared) :
    ∃ c busy, lockAvailChannel s.busy = (.ok c, busy) := by
  obtain ⟨c, hc⟩ := h.channel_free hi
  rcases hlock : lockAvailChannel s.busy with ⟨rc | k, busy⟩
  · have hall := lockAvailChannel_error hlock c
    rw [hc] at hall
    cases hall
  · exact ⟨k, busy, rfl⟩

theorem Owned.step {e : DmaEvent ι} (h : Owned others s)
    (hstep : ClientStep s e s') : Owned others s' := by
  cases hstep with
  | turnedAway => exact h
  | @enter i hi _ =>
    exact h.goes (by simp [hi]) (by simp) (by rw [hi]; rfl)
  | @interrupted i hi =>
    exact h.goes (by simp [hi]) (by simp) (by rw [hi]; rfl)
  | @down i hi hpos =>
    refine h.goes (by simp [hi]) (by simp) ?_
    rw [hi]
    simp only [DmaPhase.inside, Bool.toNat_true, Bool.toNat_false]
    omega
  | @refuse i hi _ =>
    exact h.goes (by simp [hi]) (by simp) (by rw [hi]; rfl)
  | @clear i hi _ =>
    exact h.goes (by simp [hi]) (by simp) (by rw [hi]; rfl)
  | lock hi hlock =>
    obtain ⟨hfree, rfl⟩ := lockAvailChannel_ok hlock
    exact h.lock hi hfree
  | deadlock hi hlock =>
    obtain ⟨c, busy, hok⟩ := lockAvailChannel_not_edeadlk h hi
    rw [hok] at hlock
    simp at hlock
  | use => exact h
  | free hi => exact h.free hi
  | @up i _ hi =>
    exact h.goes (by simp [hi]) (by simp) (by rw [hi]; rfl)
  | @upRefused i hi =>
    exact h.goes (by simp [hi]) (by simp) (by rw [hi]; rfl)

omit [DecidableEq ι] in
theorem Owned.disabled (h : Owned others s) :
    Owned others { s with disable := true } where
  permits := h.permits
  busy := h.busy
  held := h.held
  unique := h.unique

theorem dmaSystem_invariant :
    (dmaSystem ι).Invariant (Owned 0) where
  init hs := by
    cases hs
    exact Owned.initial
  step {s s' e} h hstep := by
    cases e with
    | some e => exact h.step hstep
    | none =>
      cases hstep
      exact h.disabled

end Invariant

end Coht.Vmebridge
