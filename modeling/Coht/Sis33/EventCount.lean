import Coht.Sis33.Sis3300

/-!
# Counting the events of an acquisition on the sis3300

An acquisition of some number of events ends in one of three places: when the
event interrupt finds the counter past the number asked for, at the last-event
interrupt, which stores the counter, and when it is cancelled, which stores the
counter or one less while the module samples. What is stored says how many
entries of the event directory and how many samples a later fetch reads.

`CountsRight` says of a run of interrupts, cancels and fetches after the start
that the number is stored once, when the acquisition ends, and counts acquired
events, no more than were asked for. The event interrupt always does. The
last-event interrupt does not look at the busy bit and neither it nor the
cancel compares the counter with the number asked for; the cancel takes one
from a counter that may be zero. `CountsMet` is the condition under which they
do, `event_count_iff` says that it is exact, and `cancel_counts_below_zero` is
a run that does not meet it.
-/

namespace Coht.Sis33

/-- `sis3300_probe()`, for either table of event lengths. -/
def sis3300Probe (evLengths : List (BitVec 32)) : Card Sis3300 where
  privateData := {}
  maxNrEvents := 1024
  nChannels := 8
  evLengths := evLengths
  nSegmentsMax := 2
  nSegmentsMin := 2
  nSegments := 2

/-- What may happen to the card after the start. -/
inductive CountOp
  | irq (r : IrqReading)
  | cancel (r : IrqReading)
  | fetch (env : FetchEnv) (hw : Banks) (n channel : Nat) (acqs : List Acq)

def CountOp.run : CountOp → Dev Sis3300 → Dev Sis3300
  | .irq r, d => sis3300DoIrq r d
  | .cancel r, d => sis3300AcqCancel r d
  | .fetch env hw n channel acqs, d =>
    { d with card := (sis3300Fetch env hw d.card n channel acqs).2 }

def runOps (d : Dev Sis3300) (ops : List CountOp) : Dev Sis3300 :=
  ops.foldl (fun d op => op.run d) d

/-- The number `n` is at most what was asked for, and `n` events are complete
at what the registers say. -/
structure Counted (reqEvents : BitVec 32) (r : IrqReading) (n : BitVec 32) :
    Prop where
  requested : n.toNat ≤ reqEvents.toNat
  counter : n.toNat ≤ r.counter.toNat
  sampling : r.busy = true → n.toNat + 1 ≤ r.counter.toNat

/-- The events that are complete. -/
def acquired (r : IrqReading) : Nat :=
  if r.busy then r.counter.toNat - 1 else r.counter.toNat

/-- A fetch of the segment reads entries and samples of complete events. -/
structure ReadsAcquired (r : IrqReading) (segment : Segment) : Prop where
  entries : ∀ i ∈ dirEntries segment, i < acquired r
  samples : ∀ i ∈ sampleWords segment,
    i / segment.nrSampPerEv.toNat < acquired r

/-- The registers at an operation that may end the acquisition. -/
def CountOp.reading : CountOp → Option IrqReading
  | .irq r | .cancel r => some r
  | .fetch .. => none

/-- What an operation in state `d` does to the count of the current segment;
`ops` is what follows. -/
structure StepCounts (reqEvents : BitVec 32) (d : Dev Sis3300) (op : CountOp)
    (ops : List CountOp) : Prop where
  /-- Without an acquisition the number stays. -/
  idle : d.card.curr.acquiring = false →
    (op.run d).card.curr.acquiring = false ∧
      (op.run d).card.curr.nrEvents = d.card.curr.nrEvents
  /-- As long as the acquisition goes on the number stays. -/
  acquiring : (op.run d).card.curr.acquiring = true →
    (op.run d).card.curr.nrEvents = d.card.curr.nrEvents
  /-- When it ends the number is right, and so is every fetch from then on. -/
  ends : d.card.curr.acquiring = true →
    (op.run d).card.curr.acquiring = false →
      ∃ r, op.reading = some r ∧
        Counted reqEvents r (op.run d).card.curr.nrEvents ∧
        ∀ later, later <+: ops →
          ReadsAcquired r (runOps (op.run d) later).card.curr

def CountsRight (reqEvents : BitVec 32) : Dev Sis3300 → List CountOp → Prop
  | _, [] => True
  | d, op :: ops =>
    StepCounts reqEvents d op ops ∧ CountsRight reqEvents (op.run d) ops

/-- What the registers must say for an operation that ends the acquisition. -/
def OpMeets (reqEvents : BitVec 32) : CountOp → Prop
  | .irq r => r.statusLev = true → ¬ EvEnds reqEvents r →
      r.busy = false ∧ r.counter.toNat ≤ reqEvents.toNat
  | .cancel r =>
    if r.busy then 1 ≤ r.counter.toNat ∧
      r.counter.toNat ≤ reqEvents.toNat + 1
    else r.counter.toNat ≤ reqEvents.toNat
  | .fetch .. => True

def CountsMet (reqEvents : BitVec 32) : Dev Sis3300 → List CountOp → Prop
  | _, [] => True
  | d, op :: ops =>
    (d.card.curr.acquiring = true → OpMeets reqEvents op) ∧
      CountsMet reqEvents (op.run d) ops

section Count

variable {d d₀ : Dev Sis3300} {desc : AcqDesc} {reqEvents n : BitVec 32}
  {r : IrqReading} {op : CountOp} {ops : List CountOp}
  {evLengths : List (BitVec 32)}

/-! ## A card that is not acquiring -/

theorem CountOp.run_of_idle (op : CountOp)
    (h : d.card.curr.acquiring = false) :
    (op.run d).card.curr.acquiring = false ∧
      (op.run d).card.curr.nrEvents = d.card.curr.nrEvents ∧
      (op.run d).card.curr.nrSampPerEv = d.card.curr.nrSampPerEv := by
  cases op with
  | irq r =>
    rw [CountOp.run, sis3300DoIrq_of_idle h]
    exact ⟨h, rfl, rfl⟩
  | cancel r =>
    rw [CountOp.run, sis3300AcqCancel_of_idle h]
    exact ⟨h, rfl, rfl⟩
  | fetch env hw n channel acqs =>
    have hframe := @sis3300Fetch_frame d.card env hw n channel acqs
    simp only [CountOp.run, Card.curr, hframe.flags.currSegment]
    rw [hframe.flags.acquiring, hframe.nrEvents, hframe.nrSampPerEv]
    exact ⟨h, rfl, rfl⟩

theorem runOps_of_idle (h : d.card.curr.acquiring = false) :
    (runOps d ops).card.curr.nrEvents = d.card.curr.nrEvents ∧
      (runOps d ops).card.curr.nrSampPerEv = d.card.curr.nrSampPerEv := by
  induction ops generalizing d with
  | nil => exact ⟨rfl, rfl⟩
  | cons op ops ih =>
    obtain ⟨hidle, hnr, hlen⟩ := CountOp.run_of_idle op h
    have hrest := ih hidle
    exact ⟨hrest.1.trans hnr, hrest.2.trans hlen⟩

/-! ## The numbers that are stored -/

theorem Counted.le_acquired (h : Counted reqEvents r n) :
    n.toNat ≤ acquired r := by
  unfold acquired
  split
  next hbusy =>
    have hlt := h.sampling hbusy
    omega
  next => exact h.counter

theorem Counted.reads {segment : Segment} (h : Counted reqEvents r n)
    (hn : segment.nrEvents = n) : ReadsAcquired r segment := by
  have hle := h.le_acquired
  constructor
  · intro i hi
    rw [dirEntries, hn, List.mem_range] at hi
    omega
  · intro i hi
    rw [sampleWords, List.mem_range, BitVec.toNat_mul, hn] at hi
    have hlt : i < segment.nrSampPerEv.toNat * n.toNat := by
      rw [Nat.mul_comm]
      exact Nat.lt_of_lt_of_le hi (Nat.mod_le _ _)
    exact Nat.lt_of_lt_of_le (Nat.div_lt_of_lt_mul hlt) hle

theorem EvEnds.counted (hreq : reqEvents.toNat ≤ 1024)
    (h : EvEnds reqEvents r) : Counted reqEvents r reqEvents := by
  have hsle := h.2
  have hbound : ∀ k : BitVec 32, k.toNat ≤ 1025 →
      k.sle r.counter = true → k.toNat ≤ r.counter.toNat := by
    intro k hk hle
    rw [BitVec.sle_eq_decide, decide_eq_true_eq,
      BitVec.toInt_eq_toNat_cond, BitVec.toInt_eq_toNat_cond] at hle
    have hlt := r.counter.isLt
    split at hle <;> split at hle <;> omega
  unfold eventThreshold at hsle
  by_cases hbusy : r.busy = true
  · rw [if_pos hbusy] at hsle
    have hadd : (reqEvents + 1).toNat = reqEvents.toNat + 1 := by
      rw [BitVec.toNat_add]
      exact Nat.mod_eq_of_lt (by
        show reqEvents.toNat + 1 < 2 ^ 32
        omega)
    have hle := hbound _ (by omega) hsle
    exact ⟨Nat.le_refl _, by omega, fun _ => by omega⟩
  · rw [if_neg hbusy] at hsle
    have hle := hbound _ (by omega) hsle
    exact ⟨Nat.le_refl _, hle, fun h => absurd h hbusy⟩

theorem counted_counter_iff :
    Counted reqEvents r r.counter ↔
      r.busy = false ∧ r.counter.toNat ≤ reqEvents.toNat := by
  constructor
  · intro h
    refine ⟨?_, h.requested⟩
    cases hbusy : r.busy with
    | false => rfl
    | true =>
      have hlt := h.sampling hbusy
      omega
  · rintro ⟨hbusy, hle⟩
    exact ⟨hle, Nat.le_refl _, fun h => by rw [hbusy] at h; cases h⟩

theorem counted_cancel_iff (hreq : reqEvents.toNat ≤ 1024) :
    Counted reqEvents r (if r.busy then r.counter - 1 else r.counter) ↔
      OpMeets reqEvents (.cancel r) := by
  simp only [OpMeets]
  have hlt := r.counter.isLt
  by_cases hbusy : r.busy = true
  · rw [if_pos hbusy, if_pos hbusy]
    have hsub : (r.counter - 1).toNat =
        if r.counter.toNat = 0 then 2 ^ 32 - 1 else r.counter.toNat - 1 := by
      rw [BitVec.toNat_sub]
      show (2 ^ 32 - 1 + r.counter.toNat) % 2 ^ 32 = _
      split <;> omega
    constructor
    · intro h
      have hle := h.requested
      rw [hsub] at hle
      split at hle <;> omega
    · rintro ⟨hpos, hle⟩
      rw [if_neg (by omega)] at hsub
      exact ⟨by omega, by omega, fun _ => by omega⟩
  · rw [if_neg hbusy, if_neg hbusy, counted_counter_iff]
    exact ⟨fun h => h.2, fun h => ⟨(Bool.not_eq_true _).mp hbusy, h⟩⟩

/-! ## One step -/

theorem stepCounts_ends_iff (op : CountOp)
    (hacq : d.card.curr.acquiring = true) {now : Nat} (hrun : op.run d = finishWith now n d)
    (hr : op.reading = some r) :
    StepCounts reqEvents d op ops ↔ Counted reqEvents r n := by
  have hcurr : (op.run d).card.curr =
      { d.card.curr with
        nrEvents := n, endtime := now, acquiring := false } := by
    rw [hrun, finishWith_curr]
  constructor
  · intro h
    obtain ⟨r', hr', hcounted, _⟩ := h.ends hacq (by rw [hcurr])
    rw [hr] at hr'
    injection hr' with hr'
    rw [hcurr] at hcounted
    rwa [hr']
  · intro h
    refine ⟨?_, ?_, ?_⟩
    · intro hidle
      rw [hacq] at hidle
      cases hidle
    · intro hstill
      rw [hcurr] at hstill
      cases hstill
    · intro _ hdone
      refine ⟨r, hr, by rwa [hcurr], ?_⟩
      intro later _
      refine h.reads ?_
      rw [(runOps_of_idle hdone).1, hcurr]

theorem stepCounts_goes_on (hacq : d.card.curr.acquiring = true)
    (hstill : (op.run d).card.curr.acquiring = true)
    (hnr : (op.run d).card.curr.nrEvents = d.card.curr.nrEvents) :
    StepCounts reqEvents d op ops where
  idle h := by
    rw [hacq] at h
    cases h
  acquiring _ := hnr
  ends _ h := by
    rw [hstill] at h
    cases h

theorem stepCounts_iff (hreq : d.card.privateData.reqEvents = reqEvents)
    (hmax : reqEvents.toNat ≤ 1024) :
    StepCounts reqEvents d op ops ↔
      (d.card.curr.acquiring = true → OpMeets reqEvents op) := by
  cases hacq : d.card.curr.acquiring with
  | false =>
    have hidle := CountOp.run_of_idle op hacq
    constructor
    · intro _ h
      cases h
    · intro _
      refine ⟨fun _ => ⟨hidle.1, hidle.2.1⟩, fun _ => hidle.2.1, ?_⟩
      intro h
      rw [hacq] at h
      cases h
  | true =>
    rw [eq_self, forall_const]
    cases op with
    | cancel r =>
      rw [← counted_cancel_iff hmax]
      exact stepCounts_ends_iff (.cancel r) hacq
        (sis3300AcqCancel_of_acquiring hacq) rfl
    | irq r =>
      have hrun := @sis3300DoIrq_of_acquiring d r hacq
      rw [hreq] at hrun
      by_cases hev : EvEnds reqEvents r
      · rw [if_pos hev] at hrun
        rw [stepCounts_ends_iff (.irq r) hacq hrun rfl]
        exact ⟨fun _ _ hnot => absurd hev hnot,
          fun _ => hev.counted hmax⟩
      · rw [if_neg hev] at hrun
        by_cases hlev : r.statusLev = true
        · rw [if_pos hlev] at hrun
          rw [stepCounts_ends_iff (.irq r) hacq hrun rfl,
            counted_counter_iff]
          exact ⟨fun h _ _ => h, fun h => h hlev hev⟩
        · rw [if_neg hlev] at hrun
          have hsame : (CountOp.irq r).run d = d := hrun
          refine ⟨fun _ h => absurd h hlev, fun _ => ?_⟩
          exact stepCounts_goes_on hacq (by rw [hsame, hacq])
            (by rw [hsame])
    | fetch env hw n channel acqs =>
      have hframe := @sis3300Fetch_frame d.card env hw n channel acqs
      refine ⟨fun _ => trivial, fun _ => ?_⟩
      refine stepCounts_goes_on hacq ?_ ?_
      · simp only [CountOp.run, Card.curr, hframe.flags.currSegment]
        rw [hframe.flags.acquiring]
        exact hacq
      · simp only [CountOp.run, Card.curr, hframe.flags.currSegment]
        rw [hframe.nrEvents]

theorem CountOp.run_reqEvents :
    (op.run d).card.privateData.reqEvents = d.card.privateData.reqEvents := by
  cases hacq : d.card.curr.acquiring with
  | false =>
    cases op with
    | irq r => rw [CountOp.run, sis3300DoIrq_of_idle hacq]
    | cancel r => rw [CountOp.run, sis3300AcqCancel_of_idle hacq]
    | fetch env hw n channel acqs => exact sis3300Fetch_frame.reqEvents
  | true =>
    cases op with
    | irq r =>
      rw [CountOp.run, sis3300DoIrq_of_acquiring hacq]
      split
      · rfl
      · split <;> rfl
    | cancel r =>
      rw [CountOp.run, sis3300AcqCancel_of_acquiring hacq]
      rfl
    | fetch env hw n channel acqs => exact sis3300Fetch_frame.reqEvents

/-! ## Whole runs -/

theorem countsRight_iff (hreq : d.card.privateData.reqEvents = reqEvents)
    (hmax : reqEvents.toNat ≤ 1024) :
    CountsRight reqEvents d ops ↔ CountsMet reqEvents d ops := by
  induction ops generalizing d with
  | nil => exact Iff.rfl
  | cons op ops ih =>
    have hnext : (op.run d).card.privateData.reqEvents = reqEvents := by
      rw [CountOp.run_reqEvents, hreq]
    exact and_congr (stepCounts_iff hreq hmax) (ih hnext)

/-- After the start of any acquisition of a sis3300, over any run of
interrupts, cancels and fetches: the number of events is stored once, at the
end of the acquisition, and every event a later fetch reads was asked for and
is complete, if and only if the registers meet the condition at the operation
that ends the acquisition. -/
theorem event_count_iff (hcard : SameConfig (sis3300Probe evLengths) d.card)
    (hstart : sis3300Acquire d desc = .ok d₀) :
    CountsRight desc.nrEvents d₀ ops ↔ CountsMet desc.nrEvents d₀ ops := by
  have hstarted := sis3300Acquire_ok hstart
  have hmax := hstarted.accepted.nrEvents
  rw [hcard.maxNrEvents] at hmax
  exact countsRight_iff hstarted.reqEvents hmax

end Count

/-- The table of a module before firmware 03.08. -/
def sis3300EvLengths : List (BitVec 32) :=
  [131072, 16384, 4096, 2048, 1024, 512, 256, 128]

/-- Two events are asked for; the third is being sampled when the interrupt
comes. -/
theorem two_events_counted :
    ∃ d₀, sis3300Acquire ⟨sis3300Probe sis3300EvLengths, false, false⟩
        ⟨0, 2, 128, 0⟩ = .ok d₀ ∧
      CountsRight 2 d₀ [.irq { counter := 3, busy := true, statusEv := true }]
    := by
  refine ⟨_, rfl, ?_⟩
  rw [@event_count_iff ⟨sis3300Probe sis3300EvLengths, false, false⟩ _
    ⟨0, 2, 128, 0⟩ _ _ (SameConfig.refl _) rfl]
  refine ⟨fun _ => ?_, trivial⟩
  intro hlev
  cases hlev

/-- One event is asked for: cancelled while the first is being sampled the
number is `2 ^ 32 - 1`, and a last-event interrupt at the third stores 3. -/
theorem cancel_counts_below_zero :
    ∃ d₀, sis3300Acquire ⟨sis3300Probe sis3300EvLengths, false, false⟩
        ⟨0, 1, 128, 0⟩ = .ok d₀ ∧
      ¬ CountsRight 1 d₀ [.cancel { counter := 0, busy := true }] ∧
      ¬ CountsRight 1 d₀
        [.irq { counter := 3, busy := false, statusLev := true }] := by
  refine ⟨_, rfl, ?_, ?_⟩
  · rw [@countsRight_iff _ 1 _ rfl (by decide)]
    intro h
    exact absurd (h.1 rfl).1 (by decide)
  · rw [@countsRight_iff _ 1 _ rfl (by decide)]
    intro h
    exact absurd (h.1 rfl rfl (fun hev => by cases hev.1)).2 (by decide)

end Coht.Sis33
