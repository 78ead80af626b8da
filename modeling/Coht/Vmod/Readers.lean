import Coht.Vmod.Vmodttl

/-!
# What several readers get (`vmodttldrvr.c`)

The reads stay in step as long as `irq` is cleared by the read that counts down to zero and
by nothing else. `Inv` says how: a read that is counted has not got what `irq` announces,
so a process that comes back too early is the one thing that gives a message twice; while
`irq` announces a message that somebody has got there is a read that will clear it; and
while a read is about to clear it nobody waits for it.
-/

namespace Coht.Vmod

open Coht.Lib

section

variable {ι : Type} [Fintype ι]

structure Inv (pd : Device ι) : Prop where
  counted : pd.nrReaders = count Phase.counted pd.phase
  locked : ∀ i, (pd.phase i).locks = true → pd.holder = some i
  messages : pd.messages = pd.event pd.interrupts
  receipts : ∀ i, ∀ r ∈ pd.received i,
    r.upto ≤ r.number ∧ r.number ≤ pd.interrupts ∧ r.message = pd.event r.number
  once : ∀ i, ((pd.received i).map (·.number)).Nodup
  waiting : ∀ i since, pd.phase i = .waiting since →
    (since < pd.interrupts → pd.irq = true) ∧ since ≤ pd.interrupts ∧
      (pd.irq = true → ¬ pd.Has i)
  woken : ∀ i since upto, pd.phase i = .woken since upto →
    upto ≤ pd.interrupts ∧ ¬ pd.Has i
  leaving : ∀ i since upto, pd.phase i = .leaving since upto → upto = since
  last : ∀ i, pd.phase i = .last → pd.nrReaders = 0
  zeroed : ∀ i, pd.phase i = .zeroed →
    ∀ j since, pd.phase j = .waiting since → since = pd.interrupts
  pending : pd.irq = true → (∃ i, pd.Has i) →
    pd.nrReaders ≠ 0 ∨ ∃ j, pd.phase j = .last ∨ pd.phase j = .zeroed

variable {pd pd' : Device ι} {i j : ι} {since upto : Nat}

theorem Inv.sound (h : Inv pd) : Sound pd where
  counted := h.counted
  once := h.once
  genuine i r hr := ⟨(h.receipts i r hr).1, (h.receipts i r hr).2.2⟩
  woken i since hi := (h.waiting i since hi).1
  signalled := h.leaving
  clear hidle hhas := by
    by_contra hirq
    rcases h.pending (Bool.not_eq_false _ ▸ hirq) hhas with hne | ⟨j, hj⟩
    · apply hne
      rw [h.counted, count_eq_zero]
      · rfl
      · intro i
        rw [hidle i]
        rfl
    · rw [hidle j] at hj
      exact hj.elim nofun nofun

/-! ## Counting -/

theorem Inv.nrReaders_pos (h : Inv pd) (hi : (pd.phase i).counted = true) :
    0 < pd.nrReaders := by
  have hone := card_le_count (fun _ : Unit => i) (fun _ _ _ => rfl) fun _ => hi
  rw [h.counted]
  have : 0 < count Phase.counted pd.phase := hone
  omega

theorem Inv.locks_eq (h : Inv pd) (hi : (pd.phase i).locks = true)
    (hj : (pd.phase j).locks = true) : i = j :=
  Option.some.inj ((h.locked i hi).symm.trans (h.locked j hj))

/-! ## Steps -/

theorem inv_interrupt (h : Inv pd) (hfree : pd.holder = none) (msg : Message) :
    Inv (pd.interrupt msg) := by
  have hunlocked (i : ι) (hi : (pd.phase i).locks = true) : False :=
    absurd (hfree.symm.trans (h.locked i hi)) nofun
  have hnone (i : ι) : ¬ (pd.interrupt msg).Has i := by
    intro hhas
    obtain ⟨r, hr, hnumber⟩ := List.mem_map.mp hhas
    have hle := (h.receipts i r hr).2.1
    change r.number = pd.interrupts + 1 at hnumber
    omega
  constructor
  · exact h.counted
  · exact h.locked
  · show msg = Function.update pd.event (pd.interrupts + 1) msg (pd.interrupts + 1)
    rw [Function.update_self]
  · intro i r hr
    obtain ⟨hupto, hle, hmsg⟩ := h.receipts i r hr
    refine ⟨hupto, Nat.le_succ_of_le hle, ?_⟩
    show r.message = Function.update pd.event (pd.interrupts + 1) msg r.number
    rw [Function.update_of_ne (Nat.ne_of_lt (Nat.lt_succ_of_le hle)), hmsg]
  · exact h.once
  · intro i since hi
    exact ⟨fun _ => rfl, Nat.le_succ_of_le (h.waiting i since hi).2.1, fun _ => hnone i⟩
  · intro i since upto hi
    exact ⟨Nat.le_succ_of_le (h.woken i since upto hi).1, hnone i⟩
  · exact h.leaving
  · exact h.last
  · intro i hi
    change pd.phase i = .zeroed at hi
    exact (hunlocked i (by rw [hi]; rfl)).elim
  · rintro - ⟨i, hi⟩
    exact absurd hi (hnone i)

theorem inv_init {msg : Message} : Inv ({ messages := msg, event := fun _ => msg } : Device ι) where
  counted := (congrArg Nat.cast (count_eq_zero fun _ => rfl)).symm
  locked := nofun
  messages := rfl
  receipts := nofun
  once _ := List.nodup_nil
  waiting := nofun
  woken := nofun
  leaving := nofun
  last := nofun
  zeroed := nofun
  pending := nofun

variable [DecidableEq ι]

theorem count_setPhase (pd : Device ι) (i : ι) (phase : Phase) :
    count Phase.counted (pd.setPhase i phase).phase + (pd.phase i).counted.toNat =
      count Phase.counted pd.phase + phase.counted.toNat :=
  count_update ..

theorem Inv.setPhase (h : Inv pd) {phase : Phase} {nr : Int} {holder : Option ι}
    (hnr : nr = pd.nrReaders + phase.counted.toNat - (pd.phase i).counted.toNat)
    (hholder : ∀ j, j ≠ i → (pd.phase j).locks = true → holder = some j)
    (hlocks : phase.locks = true → holder = some i)
    (hwaiting : ∀ since, phase = .waiting since →
      since = pd.interrupts ∧ (pd.irq = true → ¬ pd.Has i))
    (hwoken : ∀ since upto, phase = .woken since upto → upto ≤ pd.interrupts ∧ ¬ pd.Has i)
    (hleaving : ∀ since upto, phase = .leaving since upto → upto = since)
    (hlast : ∀ j, j ≠ i → pd.phase j = .last → nr = 0)
    (hlast' : phase = .last → nr = 0)
    (hzeroed : phase = .zeroed → ∀ j since, j ≠ i → pd.phase j = .waiting since →
      since = pd.interrupts)
    (hpending : pd.irq = true → (∃ i, pd.Has i) →
      nr ≠ 0 ∨ (∃ j, j ≠ i ∧ (pd.phase j = .last ∨ pd.phase j = .zeroed)) ∨
        phase = .last ∨ phase = .zeroed) :
    Inv ({ pd with nrReaders := nr, holder := holder }.setPhase i phase) := by
  constructor
  · have hcount := count_setPhase pd i phase
    show nr = (count Phase.counted (pd.setPhase i phase).phase : Nat)
    have := h.counted
    omega
  · intro j hj
    by_cases hji : j = i
    · subst hji
      rw [Device.setPhase_self] at hj
      exact hlocks hj
    · rw [Device.setPhase_of_ne _ _ hji] at hj
      exact hholder j hji hj
  · exact h.messages
  · exact h.receipts
  · exact h.once
  · intro j since hj
    rcases Device.phase_cases hj with ⟨rfl, heq⟩ | ⟨-, hj⟩
    · obtain ⟨hsince, hhas⟩ := hwaiting since heq
      refine ⟨fun hlt => absurd hlt ?_, Nat.le_of_eq hsince, hhas⟩
      rw [hsince]
      exact Nat.lt_irrefl _
    · exact h.waiting j since hj
  · intro j since upto hj
    rcases Device.phase_cases hj with ⟨rfl, heq⟩ | ⟨-, hj⟩
    · exact hwoken since upto heq
    · exact h.woken j since upto hj
  · intro j since upto hj
    rcases Device.phase_cases hj with ⟨rfl, heq⟩ | ⟨-, hj⟩
    · exact hleaving since upto heq
    · exact h.leaving j since upto hj
  · intro j hj
    rcases Device.phase_cases hj with ⟨rfl, heq⟩ | ⟨hji, hj⟩
    · exact hlast' heq
    · exact hlast j hji hj
  · intro j hj k since hk
    rcases Device.phase_cases hk with ⟨-, heq⟩ | ⟨hki, hk⟩
    · exact (hwaiting since heq).1
    · rcases Device.phase_cases hj with ⟨-, heq⟩ | ⟨-, hj⟩
      · exact hzeroed heq k since hki hk
      · exact h.zeroed j hj k since hk
  · intro hirq hhas
    rcases hpending hirq hhas with hne | ⟨j, hji, hj⟩ | hphase
    · exact .inl hne
    · refine .inr ⟨j, ?_⟩
      rw [Device.setPhase_of_ne _ _ hji]
      exact hj
    · refine .inr ⟨i, ?_⟩
      rw [Device.setPhase_self]
      exact hphase

theorem inv_receive (h : Inv pd) (hi : pd.phase i = .copied true) (hhas : ¬ pd.Has i)
    (hupto : upto ≤ pd.interrupts) : Inv (pd.receive i since upto) := by
  have hcounted := h.nrReaders_pos (i := i) (by rw [hi]; rfl)
  have hother {j : ι} (hj : j ≠ i) : (pd.receive i since upto).received j = pd.received j :=
    Function.update_of_ne hj ..
  have hself : (pd.receive i since upto).received i =
      { since := since, upto := upto, number := pd.interrupts, message := pd.messages } ::
        pd.received i := Function.update_self ..
  have hhas' {j : ι} (hj : j ≠ i) : (pd.receive i since upto).Has j ↔ pd.Has j := by
    unfold Device.Has
    rw [hother hj]
    rfl
  constructor
  · exact h.counted
  · exact h.locked
  · exact h.messages
  · intro j r hr
    by_cases hj : j = i
    · subst hj
      rw [hself] at hr
      rcases List.mem_cons.mp hr with rfl | hr
      · exact ⟨hupto, Nat.le_refl _, h.messages⟩
      · exact h.receipts j r hr
    · rw [hother hj] at hr
      exact h.receipts j r hr
  · intro j
    by_cases hj : j = i
    · subst hj
      rw [hself]
      exact List.nodup_cons.mpr ⟨hhas, h.once j⟩
    · rw [hother hj]
      exact h.once j
  · intro j since' hj
    have hji : j ≠ i := by
      rintro rfl
      cases hi.symm.trans hj
    rw [hhas' hji]
    exact h.waiting j since' hj
  · intro j since' upto' hj
    have hji : j ≠ i := by
      rintro rfl
      cases hi.symm.trans hj
    rw [hhas' hji]
    exact h.woken j since' upto' hj
  · exact h.leaving
  · exact h.last
  · exact h.zeroed
  · exact fun _ _ => .inl (ne_of_gt hcounted)

theorem inv_leave (h : Inv pd) (hi : (pd.phase i).counted = true) (hleaves : pd.Leaves)
    {holder : Option ι} (hholder : ∀ j, j ≠ i → (pd.phase j).locks = true → holder = some j) :
    Inv ({ pd with nrReaders := pd.nrReaders - 1, holder := holder }.setPhase i .idle) := by
  have hpos := h.nrReaders_pos hi
  refine h.setPhase ?_ hholder nofun nofun nofun nofun ?_ nofun nofun ?_
  · rw [hi]
    show pd.nrReaders - 1 = pd.nrReaders + (0 : Nat) - (1 : Nat)
    omega
  · intro j _ hj
    have := h.last j hj
    omega
  · intro hirq ⟨k, hk⟩
    by_cases hone : pd.nrReaders = 1
    · by_cases hz : ∃ j, pd.phase j = .zeroed
      · obtain ⟨j, hj⟩ := hz
        refine .inr (.inl ⟨j, ?_, .inr hj⟩)
        rintro rfl
        rw [hj] at hi
        cases hi
      · exact absurd hk (hleaves hone hirq (not_exists.mp hz) k)
    · exact .inl (by omega)

theorem inv_start (h : Inv pd) (hi : pd.phase i = .idle) (hhas : pd.irq = true → ¬ pd.Has i)
    (hlast : ∀ j, pd.phase j ≠ .last) :
    Inv ({ pd with nrReaders := pd.nrReaders + 1 }.setPhase i (.waiting pd.interrupts)) := by
  have hnonneg := h.counted
  refine h.setPhase ?_ (fun j _ => h.locked j) nofun ?_ nofun nofun ?_ nofun nofun ?_
  · rw [hi]
    show pd.nrReaders + 1 = pd.nrReaders + (1 : Nat) - (0 : Nat)
    omega
  · rintro since heq
    cases heq
    exact ⟨rfl, hhas⟩
  · exact fun j _ hj => absurd hj (hlast j)
  · exact fun _ _ => .inl (by omega)

theorem inv_wake (h : Inv pd) (hi : pd.phase i = .waiting since) (hirq : pd.irq = true) :
    Inv (pd.setPhase i (.woken since pd.interrupts)) := by
  have hpos := h.nrReaders_pos (i := i) (by rw [hi]; rfl)
  refine h.setPhase ?_ (fun j _ => h.locked j) nofun nofun ?_ nofun (fun j _ => h.last j) nofun
    nofun ?_
  · rw [hi]
    show pd.nrReaders = pd.nrReaders + (1 : Nat) - (1 : Nat)
    omega
  · rintro since' upto heq
    cases heq
    exact ⟨Nat.le_refl _, (h.waiting i since hi).2.2 hirq⟩
  · exact fun _ _ => .inl (by omega)

theorem inv_signal (h : Inv pd) (hi : pd.phase i = .waiting since) (hirq : ¬ pd.irq = true) :
    Inv (pd.setPhase i (.leaving since pd.interrupts)) := by
  refine h.setPhase ?_ (fun j _ => h.locked j) nofun nofun nofun ?_ (fun j _ => h.last j) nofun
    nofun fun hirq' => absurd hirq' hirq
  · rw [hi]
    show pd.nrReaders = pd.nrReaders + (1 : Nat) - (1 : Nat)
    omega
  · rintro since' upto heq
    cases heq
    obtain ⟨hlt, hle, -⟩ := h.waiting i since hi
    exact Nat.le_antisymm (Nat.le_of_not_lt fun h => hirq (hlt h)) hle

theorem inv_copied (h : Inv pd) (hi : pd.phase i = .woken since upto) (hfree : pd.holder = none)
    (ok : Bool) : Inv ({ pd with holder := some i }.setPhase i (.copied ok)) := by
  have hpos := h.nrReaders_pos (i := i) (by rw [hi]; rfl)
  have hunlocked (j : ι) (hj : (pd.phase j).locks = true) : False :=
    absurd (hfree.symm.trans (h.locked j hj)) nofun
  refine h.setPhase ?_ (fun j _ hj => (hunlocked j hj).elim) (fun _ => rfl) nofun nofun nofun
    (fun j _ => h.last j) nofun nofun ?_
  · rw [hi]
    show pd.nrReaders = pd.nrReaders + (1 : Nat) - (1 : Nat)
    omega
  · exact fun _ _ => .inl (by omega)

theorem inv_copy (h : Inv pd) (hi : pd.phase i = .woken since upto) (hfree : pd.holder = none) :
    Inv ({ pd.receive i since upto with holder := some i }.setPhase i (.copied true)) := by
  have hcopied := inv_copied h hi hfree true
  obtain ⟨hle, hhas⟩ := h.woken i since upto hi
  exact inv_receive hcopied (Device.setPhase_self ..) hhas hle

theorem inv_linger (h : Inv pd) (hi : pd.phase i = .copied true) (hleft : ¬ pd.nrReaders - 1 = 0) :
    Inv ({ pd with nrReaders := pd.nrReaders - 1, holder := none }.setPhase i .lingering) := by
  have hpos := h.nrReaders_pos (i := i) (by rw [hi]; rfl)
  refine h.setPhase ?_ ?_ nofun nofun nofun nofun ?_ nofun nofun fun _ _ => .inl hleft
  · rw [hi]
    show pd.nrReaders - 1 = pd.nrReaders + (0 : Nat) - (1 : Nat)
    omega
  · exact fun j hji hj => absurd (h.locks_eq hj (by rw [hi]; rfl)) hji
  · intro j _ hj
    have := h.last j hj
    omega

theorem inv_last (h : Inv pd) (hi : pd.phase i = .copied true) (hleft : pd.nrReaders - 1 = 0) :
    Inv ({ pd with nrReaders := pd.nrReaders - 1 }.setPhase i .last) := by
  refine h.setPhase ?_ (fun j _ => h.locked j) ?_ nofun nofun nofun (fun _ _ _ => hleft)
    (fun _ => hleft) nofun fun _ _ => .inr (.inr (.inl rfl))
  · rw [hi]
    show pd.nrReaders - 1 = pd.nrReaders + (0 : Nat) - (1 : Nat)
    omega
  · exact fun _ => h.locked i (by rw [hi]; rfl)

theorem inv_reset (h : Inv pd) (hi : pd.phase i = .last) :
    Inv ({ pd with nrReaders := 0 }.setPhase i .zeroed) := by
  have hzero := h.last i hi
  refine h.setPhase ?_ (fun j _ => h.locked j) ?_ nofun nofun nofun (fun _ _ _ => rfl) nofun ?_
    fun _ _ => .inr (.inr (.inr rfl))
  · rw [hi]
    show (0 : Int) = pd.nrReaders + (0 : Nat) - (0 : Nat)
    omega
  · exact fun _ => h.locked i (by rw [hi]; rfl)
  · intro _ j since _ hj
    have := h.nrReaders_pos (i := j) (by rw [hj]; rfl)
    omega

theorem inv_finish (h : Inv pd) (hi : pd.phase i = .lingering) :
    Inv (pd.setPhase i .idle) := by
  refine h.setPhase ?_ (fun j _ => h.locked j) nofun nofun nofun nofun (fun j _ => h.last j) nofun
    nofun ?_
  · rw [hi]
    show pd.nrReaders = pd.nrReaders + (0 : Nat) - (0 : Nat)
    omega
  · intro hirq hhas
    rcases h.pending hirq hhas with hne | ⟨j, hj⟩
    · exact .inl hne
    · refine .inr (.inl ⟨j, ?_, hj⟩)
      rintro rfl
      rw [hi] at hj
      exact hj.elim nofun nofun

theorem inv_clear (h : Inv pd) (hi : pd.phase i = .zeroed) :
    Inv ({ pd with irq := false, holder := none }.setPhase i .idle) := by
  have hquiet : Inv { pd with irq := false } :=
    { counted := h.counted
      locked := h.locked
      messages := h.messages
      receipts := h.receipts
      once := h.once
      waiting := fun j since hj =>
        ⟨fun hlt => absurd (h.zeroed i hi j since hj) (Nat.ne_of_lt hlt),
          (h.waiting j since hj).2.1, nofun⟩
      woken := h.woken
      leaving := h.leaving
      last := h.last
      zeroed := h.zeroed
      pending := nofun }
  refine hquiet.setPhase ?_ ?_ nofun nofun nofun nofun (fun j _ => h.last j) nofun nofun nofun
  · show pd.nrReaders = pd.nrReaders + (0 : Nat) - ((pd.phase i).counted.toNat : Nat)
    rw [hi]
    show pd.nrReaders = pd.nrReaders + (0 : Nat) - (0 : Nat)
    omega
  · exact fun j hji hj => absurd (h.locks_eq hj (by rw [hi]; rfl)) hji

theorem inv_step {e : Event ι} (h : Inv pd) (hok : Orderly pd e) (hs : pd.next e = some pd') :
    Inv pd' := by
  cases e with
  | interrupt msg =>
    cases msg with
    | none =>
      cases hs
      exact h
    | some msg =>
      simp only [Device.next] at hs
      split at hs
      · next hfree =>
        cases hs
        exact inv_interrupt h hfree msg
      · cases hs
  | start i =>
    simp only [Device.next] at hs
    split at hs
    · next hi =>
      cases hs
      exact inv_start h hi hok.1 hok.2
    · cases hs
  | wake i =>
    simp only [Device.next] at hs
    split at hs
    · next hi =>
      split at hs
      · next hirq =>
        cases hs
        exact inv_wake h hi hirq
      · cases hs
    · cases hs
  | signal i =>
    simp only [Device.next] at hs
    split at hs
    · next hi =>
      split at hs
      · cases hs
      · next hirq =>
        cases hs
        exact inv_signal h hi hirq
    · cases hs
  | uncount i =>
    simp only [Device.next] at hs
    split at hs
    · next hi =>
      cases hs
      exact inv_leave h (by rw [hi]; rfl) hok fun j _ => h.locked j
    · cases hs
  | copy i ok =>
    simp only [Device.next] at hs
    split at hs
    · next hi =>
      split at hs
      · next hfree =>
        cases ok with
        | true =>
          cases hs
          exact inv_copy h hi hfree
        | false =>
          cases hs
          exact inv_copied h hi hfree false
      · cases hs
    · cases hs
  | test i =>
    simp only [Device.next] at hs
    split at hs
    · next hi =>
      split at hs
      · next hleft =>
        cases hs
        exact inv_last h hi hleft
      · next hleft =>
        cases hs
        exact inv_linger h hi hleft
    · next hi =>
      cases hs
      refine inv_leave h (by rw [hi]; rfl) (hok hi) fun j hji hj => ?_
      exact absurd (h.locks_eq hj (by rw [hi]; rfl)) hji
    · cases hs
  | reset i =>
    simp only [Device.next] at hs
    split at hs
    · next hi =>
      cases hs
      exact inv_reset h hi
    · cases hs
  | clear i =>
    simp only [Device.next] at hs
    split at hs
    · next hi =>
      cases hs
      exact inv_clear h hi
    · cases hs
  | finish i =>
    simp only [Device.next] at hs
    split at hs
    · next hi =>
      cases hs
      exact inv_finish h hi
    · cases hs

/-! ## Runs -/

theorem readers_invariant : ((vmodttl ι).guarded Orderly).Invariant Inv where
  init := by
    rintro _ ⟨msg, rfl⟩
    exact inv_init
  step h hs := inv_step h hs.1 hs.2

/-- The readers of a device get the same messages, each of them once, as long as no read
comes back too early and no last count is taken out without `irq` being cleared. -/
theorem readers_sound (pd : Device ι) (h : ((vmodttl ι).guarded Orderly).Reachable pd) :
    Sound pd :=
  (readers_invariant.reachable h).sound

end

/-- A read has started, and an interrupt has come. -/
theorem readers_sound_interrupted :
    Sound (ι := Fin 2)
      (({ nrReaders := 1 : Device (Fin 2) }.setPhase 0 (.waiting 0)).interrupt
        { dev := .B, val := 0x41 }) := by
  refine readers_sound _ (.step (.step (.init ⟨{}, rfl⟩) (e := .start 0) ⟨⟨nofun, nofun⟩, rfl⟩)
    (e := .interrupt (some { dev := .B, val := 0x41 })) ⟨trivial, rfl⟩)

/-- Both processes read, the first one has got the message and comes back before the
second one has. -/
def tooEarly : List (Event (Fin 2)) :=
  [.start 0, .start 1, .interrupt (some { dev := .A, val := 0x41 }), .wake 0, .copy 0 true,
    .test 0, .finish 0, .start 0, .wake 0, .copy 0 true]

theorem tooEarly_received :
    ((tooEarly.foldlM Device.next {}).map fun pd => (pd.received 0).map (·.number)) =
      some [1, 1] := by
  decide +kernel

/-- The process gets the message of one interrupt twice. -/
theorem readers_not_sound : ¬ ∀ pd, (vmodttl (Fin 2)).Reachable pd → Sound pd := by
  intro h
  obtain ⟨pd, hrun, hnumbers⟩ := Option.map_eq_some_iff.mp tooEarly_received
  have hreach : (vmodttl (Fin 2)).Reachable pd :=
    System.Reachable.foldlM (fun hs => hs) (.init ⟨{}, rfl⟩) hrun
  have honce := (h pd hreach).once 0
  rw [hnumbers] at honce
  exact absurd honce (by decide)

end Coht.Vmod
