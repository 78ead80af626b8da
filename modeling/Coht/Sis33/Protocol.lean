import Coht.Lib.System
import Coht.Sis33.Sis3300
import Coht.Sis33.Sis3320

/-!
# The acquisition protocol under interleaving

Here the calls of any number of clients, the interrupt works and the module run
side by side. What is atomic is a section under the card's lock, and outside of
the lock a single operation. The lock is dropped after the store of `acquiring`
and taken again, if at all, by whoever ends the acquisition: `acq_start` arms
the module without it, and on the sis3320 neither the cancel nor the interrupt
work takes it.

`Ops` is what the core needs of a driver: the operations, and what they do to
the flags. `Ending` is where the two drivers differ. On the sis3320 an ending
is a sequence of steps, on the sis3300 a section under the lock.

At most one segment acquires, no segment acquires while it is transferred, and
an acquire that waits is answered by an ending after its own start, in all runs
(`flagsInv_invariant`, `answeredInv_invariant`). That the module is at rest when
no segment acquires does not hold in all of them: a cancel between the store of
`acquiring` and the arming finds the segment acquiring, clears it, and the
module is armed for nobody (`armed_after_cancel`). It holds in the runs in which
an acquisition ends after its module was armed, and at rest
(`protocol_of_ordered`).
-/

namespace Coht.Sis33

open Coht.Lib

variable {P : Type}

/-- An acquisition has been finished in one section: the flag of the current
segment is cleared, the module disarmed and the completion signalled. -/
structure Finishes (d d' : Dev P) : Prop where
  was : d.card.curr.acquiring = true
  config : SameConfig d.card d'.card
  currSegment : d'.card.currSegment = d.card.currSegment
  ended : d'.card.curr.acquiring = false
  others : ∀ m, m ≠ d.card.currSegment →
    (d'.card.segments m).acquiring = (d.card.segments m).acquiring
  transferring : ∀ m,
    (d'.card.segments m).transferring = (d.card.segments m).transferring
  completion : d'.completion = true
  armed : d'.armed = false

/-- How the cancel and the interrupt work of a driver end an acquisition: step
by step, or in a section under the lock. -/
inductive Ending (P : Type)
  | unlocked
  | locked (sections : Dev P → Dev P → Prop)

/-- The operations of a driver, `struct sis33_card_ops`, and what they leave
alone. A fetch writes what it reads into the caches of the card, an interrupt
work into the record of the segment, one write after the other. -/
structure Ops (P : Type) where
  confEv : Card P → AcqDesc → Except Errno (Card P)
  acqStart : Dev P → Dev P
  fetch : Card P → Card P → Prop
  irqRecord : Card P → Card P → Prop
  ending : Ending P
  confEv_flags : ∀ {card desc card'},
    confEv card desc = .ok card' → SameFlags card card'
  acqStart_flags : ∀ d, SameFlags d.card (acqStart d).card
  acqStart_completion : ∀ d, (acqStart d).completion = false
  fetch_flags : ∀ {card card'}, fetch card card' → SameFlags card card'
  irqRecord_flags : ∀ {card card'}, irqRecord card card' → SameFlags card card'
  ending_finishes : ∀ {sections d d'}, ending = .locked sections →
    sections d d' → d' = d ∨ Finishes d d'

/-! ## The two drivers -/

section Drivers

variable {w : IrqWork} {card : Card Sis3320} {n : Nat} {segment : Segment}
  {d d' : Dev Sis3300} {rs : List IrqReading}

theorem segmentRead_flags {base : BitVec 32} {channels : Nat} :
    (segmentRead w base channels segment).acquiring = segment.acquiring ∧
      (segmentRead w base channels segment).transferring =
        segment.transferring := by
  have hdrop : (dropEvents segment).acquiring = segment.acquiring ∧
      (dropEvents segment).transferring = segment.transferring := by
    unfold dropEvents
    split <;> exact ⟨rfl, rfl⟩
  unfold segmentRead
  simp only
  split
  · exact hdrop
  split
  · exact hdrop
  split
  · exact hdrop
  split
  · exact hdrop
  · exact hdrop

theorem segmentPrevticks_flags {version : Nat} :
    (segmentPrevticks w version segment).acquiring = segment.acquiring ∧
      (segmentPrevticks w version segment).transferring =
        segment.transferring := by
  unfold segmentPrevticks
  split <;> exact ⟨rfl, rfl⟩

/-- What `sis3320_irq_work()` writes before it calls `sis3320_acq_complete()`,
each time to the segment that is the current one then. -/
inductive Sis3320Record (card : Card Sis3320) : Card Sis3320 → Prop
  | endtime (now : Nat) :
      Sis3320Record card
        (card.setSegment card.currSegment { card.curr with endtime := now })
  | events (w : IrqWork) :
      Sis3320Record card (sis3320ReadSegment w card card.currSegment)
  | prevticks (w : IrqWork) :
      Sis3320Record card (sis3320ReadPrevticks w card card.currSegment)

theorem Sis3320Record.flags {card' : Card Sis3320}
    (h : Sis3320Record card card') : SameFlags card card' := by
  cases h with
  | endtime now => exact setSegment_sameFlags rfl rfl
  | events w =>
    exact setSegment_sameFlags segmentRead_flags.1 segmentRead_flags.2
  | prevticks w =>
    exact setSegment_sameFlags segmentPrevticks_flags.1
      segmentPrevticks_flags.2

def sis3320Ops : Ops Sis3320 where
  confEv := sis3320ConfEv
  acqStart := sis3320AcqStart
  fetch card card' := card' = card
  irqRecord := Sis3320Record
  ending := .unlocked
  confEv_flags h := by
    cases h
    exact SameFlags.refl _
  acqStart_flags _ := SameFlags.refl _
  acqStart_completion _ := rfl
  fetch_flags h := by
    rw [h]
    exact SameFlags.refl _
  irqRecord_flags := Sis3320Record.flags
  ending_finishes h := by cases h

theorem finishWith_of_ne {now : Nat} {nrEvents : BitVec 32} {m : Nat}
    (hm : m ≠ d.card.currSegment) :
    (finishWith now nrEvents d).card.segments m = d.card.segments m := by
  simp [finishWith, sis3300FinishAcquisition, Card.setSegment, hm]

theorem finishWith_finishes (now : Nat) (nrEvents : BitVec 32)
    (h : d.card.curr.acquiring = true) :
    Finishes d (finishWith now nrEvents d) where
  was := h
  config := ⟨rfl, rfl, rfl, rfl, rfl, rfl⟩
  currSegment := rfl
  ended := by rw [finishWith_curr]
  others m hm := by rw [finishWith_of_ne hm]
  transferring m := by
    by_cases hm : m = d.card.currSegment
    · rw [hm]
      calc ((finishWith now nrEvents d).card.curr).transferring
          = d.card.curr.transferring := by rw [finishWith_curr]
        _ = (d.card.segments d.card.currSegment).transferring := rfl
    · rw [finishWith_of_ne hm]
  completion := rfl
  armed := rfl

theorem EndsOrNot.finishes (h : EndsOrNot d d') : d' = d ∨ Finishes d d' := by
  cases h with
  | same h => exact Or.inl h
  | ends now nrEvents hacq h =>
    rw [h]
    exact Or.inr (finishWith_finishes now nrEvents hacq)

/-- The interrupt work ends at most one acquisition: after it no pass finds the
segment acquiring. -/
theorem sis3300IrqWork_endsOrNot : ∀ {rs : List IrqReading} {d : Dev Sis3300},
    EndsOrNot d (sis3300IrqWork rs d) := by
  intro rs
  induction rs with
  | nil => exact .same rfl
  | cons r rs ih =>
    intro d
    have hrest := @ih (sis3300DoIrq r d)
    have hfirst := @sis3300DoIrq_endsOrNot d r
    cases hfirst with
    | same h =>
      rw [h] at hrest
      unfold sis3300IrqWork
      rw [List.foldl_cons, h]
      exact hrest
    | ends now nrEvents hacq h =>
      refine .ends now nrEvents hacq ?_
      have hidle : (sis3300DoIrq r d).card.curr.acquiring = false := by
        rw [h, finishWith_curr]
      cases hrest with
      | same hsame => exact hsame.trans h
      | ends _ _ hagain _ =>
        rw [hidle] at hagain
        cases hagain

inductive Sis3300Ending (d : Dev Sis3300) : Dev Sis3300 → Prop
  | cancel (r : IrqReading) : Sis3300Ending d (sis3300AcqCancel r d)
  | irqWork (rs : List IrqReading) : Sis3300Ending d (sis3300IrqWork rs d)

theorem Sis3300Ending.finishes (h : Sis3300Ending d d') :
    d' = d ∨ Finishes d d' := by
  cases h with
  | cancel r => exact sis3300AcqCancel_endsOrNot.finishes
  | irqWork rs => exact sis3300IrqWork_endsOrNot.finishes

theorem sis3300CachesFree_flags (card : Card Sis3300) :
    SameFlags card (sis3300CachesFree card n) := by
  have hflags : SameFlags card (card.setSegment n
      { card.segments n with events := .null, prevticks := .null }) :=
    setSegment_sameFlags rfl rfl
  exact ⟨⟨rfl, rfl, rfl, rfl, rfl, rfl⟩, rfl, hflags.acquiring,
    hflags.transferring⟩

def sis3300Ops : Ops Sis3300 where
  confEv := sis3300ConfEv
  acqStart := sis3300AcqStart
  fetch card card' := ∃ env hw n channel acqs,
    card' = (sis3300Fetch env hw card n channel acqs).2
  irqRecord card card' := card' = card
  ending := .locked Sis3300Ending
  confEv_flags h := by
    cases h
    exact ⟨⟨rfl, rfl, rfl, rfl, rfl, rfl⟩, rfl, fun _ => rfl, fun _ => rfl⟩
  acqStart_flags d := sis3300CachesFree_flags d.card
  acqStart_completion _ := rfl
  fetch_flags h := by
    obtain ⟨env, hw, n, channel, acqs, rfl⟩ := h
    exact sis3300Fetch_frame.flags
  irqRecord_flags h := by
    rw [h]
    exact SameFlags.refl _
  ending_finishes h hends := by
    cases h
    exact hends.finishes

end Drivers

/-! ## The steps -/

/-- Where a client or an interrupt work stands. -/
inductive Phase
  | idle
  /-- The lock is dropped after the store of `acquiring`; `acq_start` is next. -/
  | starting (flags : BitVec 32)
  /-- In the wait of an acquire, with a timeout or without. -/
  | waiting (timeout : Bool)
  /-- In the wait of a fetch. -/
  | fetchWaiting (list : AcqList)
  /-- The wait is over; the lock is taken again next. -/
  | fetchWoken (list : AcqList)
  | transferring (n : Nat)
  /-- An interrupt work is writing the record. -/
  | recording
  /-- In `sis3320_acq_complete()`, about to read which segment is current. -/
  | completing
  | clearing (n : Nat)
  | signalling
  deriving DecidableEq, Repr

/-- What a step means to the protocol. -/
inductive AcqEvent (ι : Type)
  /-- The call or the work of `i` goes on, or is over. -/
  | goesOn (i : ι)
  | fails (i : ι) (e : Errno)
  /-- `acq_start`: the completion is reset and the module armed. -/
  | arms (i : ι)
  /-- An acquire that waited returns 0. -/
  | acquired (i : ι)
  /-- `acquiring` is cleared without the lock. -/
  | clears (i : ι)
  /-- The completion is signalled without the lock. -/
  | signals (i : ι)
  /-- An acquisition is finished in a section under the lock. -/
  | finishes (i : ι)
  /-- The module stops sampling. -/
  | stops
  deriving DecidableEq, Repr

/-- The steps of a cancel or an interrupt work that answer who waits. -/
def AcqEvent.completes {ι : Type} : AcqEvent ι → Prop
  | .signals _ | .finishes _ => True
  | .goesOn _ | .fails .. | .arms _ | .acquired _ | .clears _ | .stops => False

/-- The card, its driver, and where everyone stands. -/
structure Actors (P ι : Type) where
  dev : Dev P
  phase : ι → Phase

variable {ι : Type} [DecidableEq ι]

/-- `i` moves on to `p` while the device becomes `d`. -/
def Actors.goes (s : Actors P ι) (i : ι) (p : Phase) (d : Dev P) :
    Actors P ι :=
  ⟨d, Function.update s.phase i p⟩

@[simp] theorem Actors.goes_phase_self {s : Actors P ι} {i : ι} {p : Phase}
    {d : Dev P} : (s.goes i p d).phase i = p :=
  Function.update_self ..

theorem Actors.goes_phase_of_ne {s : Actors P ι} {i j : ι} {p : Phase}
    {d : Dev P} (h : j ≠ i) : (s.goes i p d).phase j = s.phase j :=
  Function.update_of_ne h ..

/-- What an acquire does after `acq_start`. -/
def afterStart (flags : BitVec 32) : Phase :=
  if flags &&& acqfTimeout != 0 then .waiting true
  else if flags &&& acqfDontwait != 0 then .idle
  else .waiting false

/-- One step of a client, of an interrupt work or of the module. -/
inductive AcqStep (ops : Ops P) :
    Actors P ι → AcqEvent ι → Actors P ι → Prop
  -- A call that a copy from the user, a signal at the lock or a check ends.
  | refused {s : Actors P ι} {i : ι} (e : Errno) :
      s.phase i = .idle → AcqStep ops s (.fails i e) s
  -- `sis33_acq_start_ioctl()`
  | acquire {s : Actors P ι} {i : ι} (desc : AcqDesc) {card : Card P} :
      s.phase i = .idle → flagsClash desc.flags = false →
      acqStartLocked ops.confEv s.dev.card desc = .ok card →
      AcqStep ops s (.goesOn i)
        (s.goes i (.starting desc.flags) { s.dev with card := card })
  | arm {s : Actors P ι} {i : ι} {flags : BitVec 32} :
      s.phase i = .starting flags →
      AcqStep ops s (.arms i) (s.goes i (afterStart flags) (ops.acqStart s.dev))
  | acquired {s : Actors P ι} {i : ι} {timeout : Bool} :
      s.phase i = .waiting timeout → s.dev.completion = true →
      AcqStep ops s (.acquired i) (s.goes i .idle s.dev)
  | interrupted {s : Actors P ι} {i : ι} {timeout : Bool} :
      s.phase i = .waiting timeout →
      AcqStep ops s (.fails i .eintr) (s.goes i .idle s.dev)
  | timedOut {s : Actors P ι} {i : ι} :
      s.phase i = .waiting true →
      AcqStep ops s (.fails i .etime) (s.goes i .idle s.dev)
  -- `sis33_fetch_ioctl()`
  | fetchWaits {s : Actors P ι} {i : ι} {list : AcqList} :
      s.phase i = .idle → flagsClash list.flags = false → list.acqs ≠ [] →
      fetchEnter s.dev.card list = .ok true →
      list.flags &&& acqfDontwait = 0 →
      AcqStep ops s (.goesOn i) (s.goes i (.fetchWaiting list) s.dev)
  | fetchWoken {s : Actors P ι} {i : ι} {list : AcqList} :
      s.phase i = .fetchWaiting list → s.dev.completion = true →
      AcqStep ops s (.goesOn i) (s.goes i (.fetchWoken list) s.dev)
  | fetchGivesUp {s : Actors P ι} {i : ι} {list : AcqList} (e : Errno) :
      s.phase i = .fetchWaiting list ∨ s.phase i = .fetchWoken list →
      AcqStep ops s (.fails i e) (s.goes i .idle s.dev)
  | fetch {s : Actors P ι} {i : ι} {list : AcqList} {k : Nat}
      {card : Card P} :
      s.phase i = .idle → flagsClash list.flags = false → list.acqs ≠ [] →
      fetchEnter s.dev.card list = .ok false →
      fetchLocked s.dev.card list = .ok (k, card) →
      AcqStep ops s (.goesOn i)
        (s.goes i (.transferring list.segment.toNat)
          { s.dev with card := card })
  | fetchAgain {s : Actors P ι} {i : ι} {list : AcqList} {k : Nat}
      {card : Card P} :
      s.phase i = .fetchWoken list →
      fetchLocked s.dev.card list = .ok (k, card) →
      AcqStep ops s (.goesOn i)
        (s.goes i (.transferring list.segment.toNat)
          { s.dev with card := card })
  | transfer {s : Actors P ι} {i : ι} {n : Nat} {card : Card P} :
      s.phase i = .transferring n → ops.fetch s.dev.card card →
      AcqStep ops s (.goesOn i)
        (s.goes i (.transferring n) { s.dev with card := card })
  | fetchDone {s : Actors P ι} {i : ι} {n : Nat} :
      s.phase i = .transferring n →
      AcqStep ops s (.goesOn i)
        (s.goes i .idle { s.dev with card := fetchDone s.dev.card n })
  -- The cancel and the interrupt work without the lock.
  | disarm {s : Actors P ι} {i : ι} :
      ops.ending = .unlocked → s.phase i = .idle →
      AcqStep ops s (.goesOn i)
        (s.goes i .completing { s.dev with armed := false })
  | irqWork {s : Actors P ι} {i : ι} :
      ops.ending = .unlocked → s.phase i = .idle →
      AcqStep ops s (.goesOn i) (s.goes i .recording s.dev)
  | record {s : Actors P ι} {i : ι} {card : Card P} :
      s.phase i = .recording → ops.irqRecord s.dev.card card →
      AcqStep ops s (.goesOn i)
        (s.goes i .recording { s.dev with card := card })
  | complete {s : Actors P ι} {i : ι} :
      s.phase i = .recording →
      AcqStep ops s (.goesOn i) (s.goes i .completing s.dev)
  | current {s : Actors P ι} {i : ι} :
      s.phase i = .completing →
      AcqStep ops s (.goesOn i)
        (s.goes i (.clearing s.dev.card.currSegment) s.dev)
  | clear {s : Actors P ι} {i : ι} {n : Nat} :
      s.phase i = .clearing n →
      AcqStep ops s (.clears i)
        (s.goes i .signalling
          { s.dev with
            card := s.dev.card.setSegment n
              { s.dev.card.segments n with acquiring := false } })
  | signal {s : Actors P ι} {i : ι} :
      s.phase i = .signalling →
      AcqStep ops s (.signals i)
        (s.goes i .idle { s.dev with completion := true })
  -- The cancel and the interrupt work under the lock.
  | finish {s : Actors P ι} {i : ι} {sections : Dev P → Dev P → Prop}
      {d : Dev P} :
      ops.ending = .locked sections → s.phase i = .idle →
      sections s.dev d → d.card.curr.acquiring ≠ s.dev.card.curr.acquiring →
      AcqStep ops s (.finishes i) (s.goes i .idle d)
  | pass {s : Actors P ι} {i : ι} {sections : Dev P → Dev P → Prop}
      {d : Dev P} :
      ops.ending = .locked sections → s.phase i = .idle →
      sections s.dev d → d.card.curr.acquiring = s.dev.card.curr.acquiring →
      AcqStep ops s (.goesOn i) (s.goes i .idle d)
  -- The last event has been sampled.
  | stop {s : Actors P ι} :
      AcqStep ops s .stops { s with dev := { s.dev with armed := false } }
  -- `sis33_store_n_segments()`
  | storeNSegments {s : Actors P ι} {i : ι} (segments : Int)
      {card : Card P} :
      s.phase i = .idle →
      storeNSegments s.dev.card segments = .ok card →
      AcqStep ops s (.goesOn i)
        (s.goes i .idle { s.dev with card := card })

/-- A card with its driver, at rest at first. -/
def acqSystem (ops : Ops P) : System (Actors P ι) (AcqEvent ι) where
  init s := (∀ n, s.dev.card.segments n = {}) ∧ s.dev.completion = false ∧
    s.dev.armed = false ∧ ∀ i, s.phase i = .idle
  step := AcqStep ops

/-- An acquire is between its store and its arming. -/
def Starting (s : Actors P ι) : Prop := ∃ i flags, s.phase i = .starting flags

/-- An acquisition is ended after its module was armed, and step by step only
when the module is at rest. -/
def Ordered (s : Actors P ι) : AcqEvent ι → Prop
  | .clears i => ∀ n, s.phase i = .clearing n →
      (s.dev.card.segments n).acquiring = true →
      ¬ Starting s ∧ s.dev.armed = false
  | .finishes _ => ¬ Starting s
  | .goesOn _ | .fails .. | .arms _ | .acquired _ | .signals _ | .stops => True

/-! ## The flags -/

section Flags

variable {ops : Ops P} {card card' : Card P} {desc : AcqDesc} {list : AcqList}
  {k : Nat} {s s' : Actors P ι} {e : AcqEvent ι} {i : ι}

structure FlagsInv (card : Card P) : Prop where
  active : ∀ n, (card.segments n).acquiring = true →
    n = card.currSegment ∧ n < card.nSegments
  apart : ∀ n, (card.segments n).acquiring = true →
    (card.segments n).transferring = false

structure FewerFlags (card card' : Card P) : Prop where
  nSegments : card'.nSegments = card.nSegments
  currSegment : card'.currSegment = card.currSegment
  acquiring : ∀ n, (card'.segments n).acquiring = true →
    (card.segments n).acquiring = true
  transferring : ∀ n, (card'.segments n).transferring = true →
    (card.segments n).transferring = true

theorem SameFlags.fewer (h : SameFlags card card') : FewerFlags card card' where
  nSegments := h.config.nSegments
  currSegment := h.currSegment
  acquiring n hn := (h.acquiring n).symm.trans hn
  transferring n hn := (h.transferring n).symm.trans hn

theorem Finishes.fewer {d d' : Dev P} (h : Finishes d d') :
    FewerFlags d.card d'.card where
  nSegments := h.config.nSegments
  currSegment := h.currSegment
  acquiring n hn := by
    by_cases hcurr : n = d.card.currSegment
    · rw [hcurr]
      exact h.was
    · exact (h.others n hcurr).symm.trans hn
  transferring n hn := (h.transferring n).symm.trans hn

theorem setSegment_fewer {n : Nat} {segment : Segment}
    (hacq : segment.acquiring = true → (card.segments n).acquiring = true)
    (htr : segment.transferring = true →
      (card.segments n).transferring = true) :
    FewerFlags card (card.setSegment n segment) where
  nSegments := rfl
  currSegment := rfl
  acquiring m hm := by
    by_cases hn : m = n
    · rw [hn] at hm ⊢
      rw [setSegment_same] at hm
      exact hacq hm
    · rwa [setSegment_of_ne hn] at hm
  transferring m hm := by
    by_cases hn : m = n
    · rw [hn] at hm ⊢
      rw [setSegment_same] at hm
      exact htr hm
    · rwa [setSegment_of_ne hn] at hm

/-- What a step does to the card: the sections that set a flag, the one that
changes the number of segments, and the others, which set none. -/
inductive CardStep (ops : Ops P) (card card' : Card P) : Prop
  | fewer : FewerFlags card card' → CardStep ops card card'
  | acquire (desc : AcqDesc) :
      acqStartLocked ops.confEv card desc = .ok card' →
      CardStep ops card card'
  | fetch (list : AcqList) (k : Nat) :
      fetchLocked card list = .ok (k, card') → CardStep ops card card'
  | storeNSegments (segments : Int) :
      storeNSegments card segments = .ok card' → CardStep ops card card'

theorem FewerFlags.refl (card : Card P) : FewerFlags card card :=
  (SameFlags.refl card).fewer

theorem AcqStep.cardStep (h : AcqStep ops s e s') :
    CardStep ops s.dev.card s'.dev.card := by
  cases h with
  | acquire desc _ _ hacq => exact .acquire desc hacq
  | arm _ => exact .fewer (ops.acqStart_flags _).fewer
  | fetch _ _ _ _ hfetch => exact .fetch _ _ hfetch
  | fetchAgain _ hfetch => exact .fetch _ _ hfetch
  | transfer _ hfetch => exact .fewer (ops.fetch_flags hfetch).fewer
  | fetchDone _ =>
    exact .fewer (setSegment_fewer id fun h => by cases h)
  | record _ hrecord => exact .fewer (ops.irqRecord_flags hrecord).fewer
  | clear _ => exact .fewer (setSegment_fewer (fun h => by cases h) id)
  | finish hending _ hsection _ | pass hending _ hsection _ =>
    rcases ops.ending_finishes hending hsection with rfl | hends
    · exact .fewer (.refl _)
    · exact .fewer hends.fewer
  | storeNSegments segments _ hstore => exact .storeNSegments segments hstore
  | refused | acquired | interrupted | timedOut | fetchWaits | fetchWoken
  | fetchGivesUp | disarm | irqWork | complete | current | signal | stop =>
    exact .fewer (.refl _)

theorem FlagsInv.fewer (h : FlagsInv card) (hs : FewerFlags card card') :
    FlagsInv card' where
  active n hn := by
    rw [hs.currSegment, hs.nSegments]
    exact h.active n (hs.acquiring n hn)
  apart n hn := by
    cases htr : (card'.segments n).transferring with
    | false => rfl
    | true =>
      have hapart := h.apart n (hs.acquiring n hn)
      rw [hs.transferring n htr] at hapart
      cases hapart

theorem FlagsInv.acquire (h : FlagsInv card)
    (hacq : acqStartLocked ops.confEv card desc = .ok card') :
    FlagsInv card' := by
  obtain ⟨hacc, configured, hconf, rfl⟩ := acqStartLocked_ok hacq
  have hflags := ops.confEv_flags hconf
  have hidle : ∀ m, (configured.segments m).acquiring = false := by
    intro m
    rw [hflags.acquiring]
    cases hm : (card.segments m).acquiring with
    | false => rfl
    | true =>
      rw [hacc.idle m (h.active m hm).2] at hm
      cases hm
  have hother : ∀ m, m ≠ desc.segment.toNat →
      (acqStartStore desc configured).segments m = configured.segments m :=
    fun m hm => setSegment_of_ne hm
  constructor
  · intro m hm
    by_cases hn : m = desc.segment.toNat
    · rw [hn]
      refine ⟨rfl, ?_⟩
      show desc.segment.toNat < configured.nSegments
      rw [hflags.config.nSegments]
      exact hacc.segment
    · rw [hother m hn, hidle m] at hm
      cases hm
  · intro m hm
    by_cases hn : m = desc.segment.toNat
    · rw [hn]
      have hstored : (acqStartStore desc configured).segments
          desc.segment.toNat =
            { configured.segments desc.segment.toNat with
              acquiring := true, nrSampPerEv := desc.evLength } :=
        setSegment_same
      rw [hstored]
      exact (hflags.transferring _).trans hacc.quiet
    · rw [hother m hn, hidle m] at hm
      cases hm

theorem FlagsInv.fetch (h : FlagsInv card)
    (hfetch : fetchLocked card list = .ok (k, card')) : FlagsInv card' := by
  have hacc := fetchLocked_ok hfetch
  rw [hacc.stored]
  constructor
  · intro m hm
    by_cases hn : m = list.segment.toNat
    · rw [hn, setSegment_same] at hm
      rw [hacc.acquiring] at hm
      cases hm
    · rw [setSegment_of_ne hn] at hm
      exact h.active m hm
  · intro m hm
    by_cases hn : m = list.segment.toNat
    · rw [hn, setSegment_same] at hm
      rw [hacc.acquiring] at hm
      cases hm
    · rw [setSegment_of_ne hn] at hm ⊢
      exact h.apart m hm

theorem FlagsInv.storeNSegments {segments : Int} (h : FlagsInv card)
    (hstore : storeNSegments card segments = .ok card') : FlagsInv card' := by
  obtain ⟨hidle, n, rfl⟩ := storeNSegments_idle hstore
  refine ⟨?_, h.apart⟩
  intro m hm
  rw [hidle m (h.active m hm).2] at hm
  cases hm

theorem flagsInv_invariant :
    (acqSystem ops : System (Actors P ι) (AcqEvent ι)).Invariant
      fun s => FlagsInv s.dev.card where
  init := by
    rintro s ⟨hsegments, _⟩
    constructor
    all_goals
      intro n hn
      rw [hsegments n] at hn
      cases hn
  step := by
    intro s s' e h hstep
    cases AcqStep.cardStep hstep with
    | fewer hs => exact h.fewer hs
    | acquire desc hacq => exact h.acquire hacq
    | fetch list k hfetch => exact h.fetch hfetch
    | storeNSegments segments hstore => exact h.storeNSegments hstore

end Flags

/-! ## The module -/

section Module

variable {ops : Ops P} {card card' : Card P} {s s' : Actors P ι}
  {e : AcqEvent ι} {i : ι} {p : Phase} {d : Dev P}

def Live (s : Actors P ι) : Prop := s.dev.armed = true ∨ Starting s

def LiveInv (s : Actors P ι) : Prop :=
  Live s → s.dev.card.curr.acquiring = true

theorem SameFlags.curr (h : SameFlags card card') :
    card'.curr.acquiring = card.curr.acquiring := by
  unfold Card.curr
  rw [h.currSegment]
  exact h.acquiring _

theorem setSegment_curr {n : Nat} {segment : Segment}
    (h : segment.acquiring = (card.segments n).acquiring) :
    (card.setSegment n segment).curr.acquiring = card.curr.acquiring := by
  show ((card.setSegment n segment).segments card.currSegment).acquiring = _
  by_cases hn : card.currSegment = n
  · rw [hn, setSegment_same, h, Card.curr, hn]
  · rw [setSegment_of_ne hn]
    rfl

theorem fetchLocked_curr {list : AcqList} {k : Nat}
    (h : fetchLocked card list = .ok (k, card')) :
    card'.curr.acquiring = card.curr.acquiring := by
  rw [(fetchLocked_ok h).stored]
  exact setSegment_curr rfl

theorem Starting.of_goes (hp : ∀ flags, p ≠ .starting flags)
    (h : Starting (s.goes i p d)) : Starting s := by
  obtain ⟨j, flags, hj⟩ := h
  by_cases hi : j = i
  · rw [hi, Actors.goes_phase_self] at hj
    exact absurd hj (hp flags)
  · rw [Actors.goes_phase_of_ne hi] at hj
    exact ⟨j, flags, hj⟩

theorem LiveInv.goes (h : LiveInv s) (hp : ∀ flags, p ≠ .starting flags)
    (harmed : d.armed = true → s.dev.armed = true)
    (hcurr : d.card.curr.acquiring = s.dev.card.curr.acquiring) :
    LiveInv (s.goes i p d) := by
  intro hlive
  exact hcurr.trans (h (hlive.imp harmed (Starting.of_goes hp)))

theorem LiveInv.step (h : LiveInv s) (hord : Ordered s e)
    (hstep : AcqStep ops s e s') : LiveInv s' := by
  cases hstep with
  | refused => exact h
  | acquire desc _ _ hacq =>
    obtain ⟨_, configured, _, rfl⟩ := acqStartLocked_ok hacq
    intro _
    exact congrArg Segment.acquiring setSegment_same
  | arm hphase =>
    intro _
    exact (ops.acqStart_flags _).curr.trans (h (Or.inr ⟨_, _, hphase⟩))
  | fetch _ _ _ _ hfetch =>
    exact h.goes (fun _ hp => by cases hp) id (fetchLocked_curr hfetch)
  | fetchAgain _ hfetch =>
    exact h.goes (fun _ hp => by cases hp) id (fetchLocked_curr hfetch)
  | transfer _ hfetch =>
    exact h.goes (fun _ hp => by cases hp) id (ops.fetch_flags hfetch).curr
  | fetchDone _ =>
    exact h.goes (fun _ hp => by cases hp) id (setSegment_curr rfl)
  | record _ hrecord =>
    exact h.goes (fun _ hp => by cases hp) id
      (ops.irqRecord_flags hrecord).curr
  | disarm _ _ =>
    exact h.goes (fun _ hp => by cases hp) (fun harmed => by cases harmed) rfl
  | @clear i n hphase =>
    cases hacq : (s.dev.card.segments n).acquiring with
    | false =>
      exact h.goes (fun _ hp => by cases hp) id (setSegment_curr hacq.symm)
    | true =>
      obtain ⟨hstarting, hrest⟩ := hord n hphase hacq
      intro hlive
      rcases hlive with harmed | hstart
      · exact absurd (hrest.symm.trans harmed) (by decide)
      · exact absurd (hstart.of_goes fun _ hp => by cases hp) hstarting
  | finish hending _ hsection hne =>
    rcases ops.ending_finishes hending hsection with rfl | hends
    · exact absurd rfl hne
    · intro hlive
      rcases hlive with harmed | hstart
      · exact absurd (hends.armed.symm.trans harmed) (by decide)
      · exact absurd (hstart.of_goes fun _ hp => by cases hp) hord
  | pass hending _ hsection heq =>
    rcases ops.ending_finishes hending hsection with rfl | hends
    · exact h.goes (fun _ hp => by cases hp) id rfl
    · rw [hends.ended, hends.was] at heq
      cases heq
  | stop => exact fun hlive => h (hlive.imp (fun harmed => by cases harmed) id)
  | storeNSegments segments _ hstore =>
    obtain ⟨_, n, rfl⟩ := storeNSegments_idle hstore
    exact h.goes (fun _ hp => by cases hp) id rfl
  | acquired | interrupted | timedOut | fetchWaits | fetchWoken | fetchGivesUp
  | irqWork | complete | current | signal =>
    exact h.goes (fun _ hp => by cases hp) id rfl

theorem liveInv_invariant :
    ((acqSystem ops : System (Actors P ι) (AcqEvent ι)).guarded
      Ordered).Invariant LiveInv where
  init := by
    rintro s ⟨_, _, harmed, hidle⟩ hlive
    rcases hlive with h | ⟨i, flags, h⟩
    · exact absurd (harmed.symm.trans h) (by decide)
    · rw [hidle i] at h
      cases h
  step h hs := h.step hs.1 hs.2

end Module

/-! ## The answers -/

section Answers

variable {ops : Ops P} {s s' : Actors P ι} {e : AcqEvent ι} {i : ι} {p : Phase}
  {d : Dev P} {timeout : Bool} {trace : List (AcqEvent ι)}

/-- In a trace, the last event first: what has happened since `i` armed. -/
def Since (trace : List (AcqEvent ι)) (i : ι)
    (since : List (AcqEvent ι)) : Prop :=
  .arms i ∉ since ∧ ∃ before, trace = since ++ .arms i :: before

/-- An ending has run its step since `i` armed. -/
def Answered (trace : List (AcqEvent ι)) (i : ι) : Prop :=
  ∃ since, Since trace i since ∧ ∃ e ∈ since, e.completes

/-- An acquire that waits has armed, and finds the completion signalled only
by an ending since then. -/
structure AnsweredInv (s : Actors P ι) (trace : List (AcqEvent ι)) : Prop where
  waiting : ∀ i timeout, s.phase i = .waiting timeout →
    (∃ since, Since trace i since) ∧
      (s.dev.completion = true → Answered trace i)
  acquired : ∀ after i before, trace = after ++ .acquired i :: before →
    Answered before i

omit [DecidableEq ι] in
theorem Since.cons {since : List (AcqEvent ι)} (h : Since trace i since)
    (he : e ≠ .arms i) : Since (e :: trace) i (e :: since) := by
  obtain ⟨hnot, before, rfl⟩ := h
  exact ⟨fun hmem => (List.mem_cons.mp hmem).elim (fun heq => he heq.symm) hnot,
    before, rfl⟩

omit [DecidableEq ι] in
theorem Answered.cons (h : Answered trace i) (he : e ≠ .arms i) :
    Answered (e :: trace) i := by
  obtain ⟨since, hsince, e', hmem, hcompletes⟩ := h
  exact ⟨_, hsince.cons he, e', List.mem_cons_of_mem _ hmem, hcompletes⟩

theorem Actors.goes_waiting (hp : p ≠ .waiting timeout) {j : ι}
    (h : (s.goes j p d).phase i = .waiting timeout) :
    s.phase i = .waiting timeout := by
  by_cases hi : i = j
  · rw [hi, goes_phase_self] at h
    exact absurd h hp
  · rwa [goes_phase_of_ne hi] at h

theorem AcqStep.waiting (hstep : AcqStep ops s e s')
    (h : s'.phase i = .waiting timeout) :
    e = .arms i ∨ e ≠ .arms i ∧ s.phase i = .waiting timeout := by
  cases hstep with
  | @arm j flags hphase =>
    by_cases hi : i = j
    · rw [hi]
      exact Or.inl rfl
    · refine Or.inr ⟨fun heq => hi (AcqEvent.arms.inj heq).symm, ?_⟩
      rwa [Actors.goes_phase_of_ne hi] at h
  | refused | stop => exact Or.inr ⟨(fun heq => by cases heq), h⟩
  | acquire | acquired | interrupted | timedOut | fetchWaits | fetchWoken
  | fetchGivesUp | fetch | fetchAgain | transfer | fetchDone | disarm | irqWork
  | record | complete | current | clear | signal | finish | pass
  | storeNSegments =>
    exact Or.inr ⟨(fun heq => by cases heq),
      Actors.goes_waiting (fun hp => by cases hp) h⟩

theorem AcqStep.completion (hstep : AcqStep ops s e s')
    (h : s'.dev.completion = true) :
    e.completes ∨ s.dev.completion = true ∧ ∀ i, e ≠ .arms i := by
  cases hstep with
  | arm _ =>
    exact absurd ((ops.acqStart_completion s.dev).symm.trans h) (by decide)
  | signal _ => exact Or.inl trivial
  | finish => exact Or.inl trivial
  | pass hending _ hsection heq =>
    rcases ops.ending_finishes hending hsection with rfl | hends
    · exact Or.inr ⟨h, fun i heq => by cases heq⟩
    · rw [hends.ended, hends.was] at heq
      cases heq
  | refused | acquire | acquired | interrupted | timedOut | fetchWaits
  | fetchWoken | fetchGivesUp | fetch | fetchAgain | transfer | fetchDone
  | disarm | irqWork | record | complete | current | clear | stop
  | storeNSegments => exact Or.inr ⟨h, fun i heq => by cases heq⟩

theorem AnsweredInv.step (h : AnsweredInv s trace)
    (hstep : AcqStep ops s e s') : AnsweredInv s' (e :: trace) where
  waiting := by
    intro i timeout hphase
    rcases hstep.waiting hphase with rfl | ⟨hne, hwas⟩
    · refine ⟨⟨[], List.not_mem_nil, trace, rfl⟩, ?_⟩
      intro hcompletion
      rcases hstep.completion hcompletion with hcompletes | ⟨_, hnot⟩
      · cases hcompletes
      · exact absurd rfl (hnot i)
    · obtain ⟨⟨since, hsince⟩, hanswered⟩ := h.waiting i timeout hwas
      refine ⟨⟨_, hsince.cons hne⟩, ?_⟩
      intro hcompletion
      rcases hstep.completion hcompletion with hcompletes | ⟨hdone, _⟩
      · exact ⟨_, hsince.cons hne, e, List.mem_cons_self, hcompletes⟩
      · exact (hanswered hdone).cons hne
  acquired := by
    intro after i before htrace
    cases after with
    | nil =>
      obtain ⟨rfl, rfl⟩ := List.cons.inj htrace
      cases hstep with
      | acquired hphase hdone => exact (h.waiting i _ hphase).2 hdone
    | cons e' after => exact h.acquired after i before (List.cons.inj htrace).2

theorem answeredInv_invariant :
    (acqSystem ops : System (Actors P ι) (AcqEvent ι)).recorded.Invariant
      fun s => AnsweredInv s.1 s.2 where
  init := by
    rintro ⟨s, trace⟩ ⟨⟨_, _, _, hidle⟩, htrace⟩
    obtain rfl : trace = [] := htrace
    constructor
    · intro i timeout hphase
      rw [hidle i] at hphase
      cases hphase
    · intro after i before htrace
      cases after <;> cases htrace
  step := by
    rintro ⟨s, trace⟩ ⟨s', trace'⟩ e h ⟨hstep, htrace⟩
    obtain rfl : trace' = e :: trace := htrace
    exact h.step hstep

end Answers

/-! ## The protocol -/

/-- No call and no work is pending. -/
def Quiet (s : Actors P ι) : Prop := ∀ i, s.phase i = .idle

/-- What the acquisitions keep to in a state that was reached by a run. -/
structure Protocol (s : Actors P ι) (trace : List (AcqEvent ι)) : Prop where
  one : ∀ m n, (s.dev.card.segments m).acquiring = true →
    (s.dev.card.segments n).acquiring = true → m = n
  rest : Quiet s → (∀ n, (s.dev.card.segments n).acquiring = false) →
    s.dev.armed = false
  apart : ∀ n, ¬ ((s.dev.card.segments n).transferring = true ∧
    (s.dev.card.segments n).acquiring = true)
  answered : ∀ after i before, trace = after ++ .acquired i :: before →
    Answered before i

/-- The protocol in the runs whose acquisitions are ended in order. -/
theorem protocol_of_ordered {ops : Ops P} {s : Actors P ι}
    {trace : List (AcqEvent ι)}
    (hreach : ((acqSystem ops).guarded Ordered).recorded.Reachable (s, trace)) :
    Protocol s trace := by
  have hrun := hreach.of_guarded
  have hflags : FlagsInv s.dev.card :=
    flagsInv_invariant.recorded.reachable hrun
  have hanswered : AnsweredInv s trace :=
    answeredInv_invariant.reachable hrun
  have hlive : LiveInv s := liveInv_invariant.recorded.reachable hreach
  refine ⟨?_, ?_, ?_, hanswered.acquired⟩
  · intro m n hm hn
    exact (hflags.active m hm).1.trans (hflags.active n hn).1.symm
  · intro _ hidle
    cases harmed : s.dev.armed with
    | false => rfl
    | true =>
      have hacq := hlive (Or.inl harmed)
      rw [Card.curr, hidle] at hacq
      cases hacq
  · rintro n ⟨htr, hacq⟩
    rw [hflags.apart n hacq] at htr
    cases htr

def actorsAtRest : Actors Sis3320 Bool where
  dev := ⟨sis3320Probe ⟨200⟩, false, false⟩
  phase _ := .idle

/-- A client acquires and waits, the module stops, the interrupt work ends the
acquisition and the client returns. -/
theorem protocol_after_one_acquisition :
    ∃ s trace, ((acqSystem sis3320Ops).guarded Ordered).recorded.Reachable
      (s, trace) ∧ AcqEvent.acquired false ∈ trace ∧ Protocol s trace := by
  have hrest : ((acqSystem sis3320Ops).guarded Ordered).recorded.Reachable
      (actorsAtRest, []) :=
    .init ⟨⟨fun _ => rfl, rfl, rfl, fun _ => rfl⟩, rfl⟩
  have hstarting := hrest.recordGuarded
    (.acquire (i := false) ⟨0, 1, 512, 0⟩ rfl rfl rfl) trivial
  have harmed := hstarting.recordGuarded (.arm (i := false) rfl) trivial
  have hstopped := harmed.recordGuarded .stop trivial
  have hrecording := hstopped.recordGuarded
    (.irqWork (i := true) rfl rfl) trivial
  have hcompleting := hrecording.recordGuarded
    (.complete (i := true) rfl) trivial
  have hclearing := hcompleting.recordGuarded
    (.current (i := true) rfl) trivial
  have hcleared := hclearing.recordGuarded (.clear (i := true) rfl)
    (fun n _ _ => And.intro
      (fun ⟨i, flags, hphase⟩ => by cases i <;> cases hphase) rfl)
  have hsignalled := hcleared.recordGuarded (.signal (i := true) rfl) trivial
  have hacquired := hsignalled.recordGuarded
    (.acquired (i := false) rfl rfl) trivial
  exact ⟨_, _, hacquired, List.mem_cons_self, protocol_of_ordered hacquired⟩

/-- A cancel comes between the store of `acquiring` and the arming: everyone is
done, no segment acquires, and the module is armed. -/
theorem armed_after_cancel :
    ∃ s trace, (acqSystem sis3320Ops).recorded.Reachable (s, trace) ∧
      ¬ Protocol (s : Actors Sis3320 Bool) trace := by
  have hrest : (acqSystem sis3320Ops).recorded.Reachable (actorsAtRest, []) :=
    .init ⟨⟨fun _ => rfl, rfl, rfl, fun _ => rfl⟩, rfl⟩
  have hstarting := hrest.record
    (.acquire (i := false) ⟨0, 1, 512, acqfDontwait⟩ rfl rfl rfl)
  have hdisarmed := hstarting.record (.disarm (i := true) rfl rfl)
  have hclearing := hdisarmed.record (.current (i := true) rfl)
  have hcleared := hclearing.record (.clear (i := true) rfl)
  have hsignalled := hcleared.record (.signal (i := true) rfl)
  have harmed := hsignalled.record (.arm (i := false) rfl)
  refine ⟨_, _, harmed, ?_⟩
  intro hprotocol
  have hquiet := hprotocol.rest (fun i => by cases i <;> rfl) ?_
  · cases hquiet
  · intro n
    cases n <;> rfl

end Coht.Sis33
