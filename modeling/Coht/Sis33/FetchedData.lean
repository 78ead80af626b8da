import Coht.Lib.System
import Coht.Sis33.Sis3320

/-!
# What a fetch on the sis3320 delivers

The record of a segment is written in three places: the event length when an
acquisition starts, the events and the time stamps when the interrupt work ends
it. The number of segments may change in between, and a cancel ends an
acquisition without a word to the record. `Sis3320State` keeps beside the driver
what happened on each segment: the acquisition that is running, the last one that
the interrupt work ended, and whether one was cancelled since. `Sound` says of
a state that whatever a fetch can deliver in it is of that last acquisition and
that none was cancelled since.

Three things break it. A cancel leaves the events of the acquisition before with
the length of the cancelled one. An interrupt work that runs after the cancel
fills in the record although there is no acquisition any more. On the sis3302 a
failed read of the time stamps leaves a null pointer, which a fetch delivers as
zeros. `sound_of_undisturbed` is about the runs without these three kinds of step,
`cancelled_data_fetched` fetches what a cancel left behind.
-/

namespace Coht.Sis33

open Coht.Lib

/-- An acquisition: its event length and where its segment begins. -/
structure Acquisition where
  evLength : BitVec 32
  base : BitVec 32

/-- An acquisition and the interrupt work that ended it. -/
structure Ended extends Acquisition where
  work : IrqWork

/-- The driver, and for each segment the running acquisition, the last one that
the interrupt work ended, and whether one was started and cancelled since. -/
structure Sis3320State where
  dev : Dev Sis3320
  running : Nat → Option Acquisition := fun _ => none
  last : Nat → Option Ended := fun _ => none
  cancelled : Nat → Bool := fun _ => false

inductive Sis3320Op
  | acquire (desc : AcqDesc)
  | irqWork (w : IrqWork)
  | cancel
  | storeNSegments (segments : Int)
  | fetch (dma : Nat → Except Errno Unit) (list : AcqList)

/-- One operation, run to its end. -/
def Sis3320Op.run (s : Sis3320State) : Sis3320Op → Sis3320State
  | .acquire desc =>
    match sis3320Acquire s.dev desc with
    | .error _ => s
    | .ok d =>
      let n := desc.segment.toNat
      { s with
        dev := d
        running := Function.update s.running n
          (some ⟨desc.evLength, sis3320GetSegmentBase s.dev.card n⟩) }
  | .irqWork w =>
    let n := s.dev.card.currSegment
    let d := sis3320IrqWork w s.dev
    match w.statusLev, s.running n with
    | true, some a =>
      { dev := d
        running := Function.update s.running n none
        last := Function.update s.last n (some ⟨a, w⟩)
        cancelled := Function.update s.cancelled n false }
    | _, _ => { s with dev := d }
  | .cancel =>
    let n := s.dev.card.currSegment
    let d := sis3320AcqCancel s.dev
    match s.running n with
    | some _ =>
      { s with
        dev := d
        running := Function.update s.running n none
        cancelled := Function.update s.cancelled n true }
    | none => { s with dev := d }
  | .storeNSegments segments =>
    match Sis33.storeNSegments s.dev.card segments with
    | .error _ => s
    | .ok card => { s with dev := { s.dev with card := card } }
  | .fetch dma list => { s with dev := (sis3320FetchIoctl dma s.dev list).2 }

/-- A sis3320 of some version after `sis3320_probe()`, and its operations. -/
def sis3320System : System Sis3320State Sis3320Op where
  init s := ∃ version, s = { dev := ⟨sis3320Probe ⟨version⟩, false, false⟩ }
  step s op s' := s' = op.run s

/-- The time stamp of event `i` as the driver makes it of what the interrupt
work has read; the other boards have none. -/
def tickOf (version : Nat) (w : IrqWork) (i : Nat) : BitVec 64 :=
  if version = 3302 then
    (sis3302PtCacheNormalize
      (sis3302PtCacheFill w.tstamps w.nrEvents.toNat)).getD i 0
  else 0

/-- Event `i` of a channel of an acquisition that has ended, in the buffer
`acq`. -/
def deliveredOf (version : Nat) (a : Ended) (channel i : Nat) (acq : Acq) :
    Delivered :=
  let event :=
    sis3320ProcessEvent a.base a.evLength (a.work.evDir channel i) i
  ⟨{ acq with
      nrSamples := event.nrSamples
      firstSamp := event.firstSamp
      prevticks := tickOf version a.work i
      be := 1 },
    sis3320GetData a.base a.evLength (a.evLength.toNat * 2) i⟩

/-- What a fetch of `k` events has delivered is of the last acquisition that
the interrupt work ended on the segment, and none was cancelled since. -/
def OfLast (s : Sis3320State) (list : AcqList) (k : Nat)
    (fs : List Delivered) : Prop :=
  ∃ a, s.last list.segment.toNat = some a ∧
    s.cancelled list.segment.toNat = false ∧
    k ≤ a.work.nrEvents.toNat ∧
    ∀ i < k, ∀ acq, list.acqs[i]? = some acq →
      acq.size.toNat = a.evLength.toNat * 2 ∧
      fs[i]? = some (deliveredOf s.dev.card.privateData.version a
        list.channel.toNat i acq)

/-- Whatever a fetch delivers in this state is of the last acquisition. -/
def Sound (s : Sis3320State) : Prop :=
  ∀ dma list k fs, (sis3320FetchIoctl dma s.dev list).1 = .ok (k, fs) →
    0 < k ∧ fs.length = k ∧ OfLast s list k fs

/-- A fetch can get past the checks of the record. -/
def Readable (segment : Segment) : Prop :=
  (∃ events, segmentEvents segment = .ok events) ∧
    ∀ e, segment.prevticks ≠ .err e

/-- The interrupt work finds events and gets the directories of all channels. -/
structure DirRead (w : IrqWork) : Prop where
  nrEvents : w.nrEvents ≠ 0
  rawKmalloc : w.rawKmalloc = true
  eventsKcalloc : w.eventsKcalloc = true
  dirDma : (List.range 8).all w.dirDma = true

/-- The interrupt work gets the time stamps, or records that it has no memory
for them. -/
def TicksRead (version : Nat) (w : IrqWork) : Prop :=
  version = 3302 → w.rawPtKmalloc = true → w.ptKmalloc = true →
    w.ptDma = true ∨ w.nrEvents.toNat ≤ 1

/-- An interrupt work that gets events gets them from an acquisition, and the
time stamps with them; and a cancelled acquisition has no record of an earlier
one. -/
def Undisturbed (s : Sis3320State) : Sis3320Op → Prop
  | .irqWork w => w.statusLev = true → DirRead w →
      s.dev.card.curr.acquiring = true ∧
        TicksRead s.dev.card.privateData.version w
  | .cancel => s.dev.card.curr.acquiring = true → ¬ Readable s.dev.card.curr
  | .acquire _ | .storeNSegments _ | .fetch .. => True

/-! ## The time stamps -/

section Ticks

variable {pt : List (BitVec 64)}

theorem normalize_rounds (n : Nat) :
    (List.range (n + 1)).foldl
      (fun pt i => pt.set i (pt.getD i 0 - pt.getD 0 0)) pt = pt.set 0 0 := by
  induction n with
  | zero =>
    simp
  | succ n ih =>
    rw [List.range_succ, List.foldl_append, ih]
    simp only [List.foldl_cons, List.foldl_nil]
    have hzero : (pt.set 0 0).getD 0 0 = 0#64 := by
      cases pt <;> rfl
    rw [hzero, BitVec.sub_zero]
    apply List.ext_getElem?
    intro i
    by_cases hi : i = n + 1
    · subst hi
      by_cases hlt : n + 1 < (pt.set 0 0).length
      · rw [List.getElem?_set_self hlt, List.getD_eq_getElem?_getD,
          List.getElem?_eq_getElem hlt]
        rfl
      · rw [List.getElem?_eq_none (by simpa using hlt),
          List.getElem?_eq_none (by simpa using hlt)]
    · rw [List.getElem?_set_ne (Ne.symm hi)]

theorem sis3302PtCacheNormalize_eq :
    sis3302PtCacheNormalize pt = pt.set 0 0 := by
  unfold sis3302PtCacheNormalize
  cases hlen : pt.length with
  | zero =>
    rw [List.length_eq_zero_iff.mp hlen]
    rfl
  | succ n => exact normalize_rounds n

theorem tickOf_zero {version : Nat} {w : IrqWork} : tickOf version w 0 = 0 := by
  unfold tickOf
  rw [sis3302PtCacheNormalize_eq]
  split
  · cases sis3302PtCacheFill w.tstamps w.nrEvents.toNat <;> rfl
  · rfl

end Ticks

/-! ## What a fetch reads -/

structure SameRecord (segment segment' : Segment) : Prop where
  nrSampPerEv : segment'.nrSampPerEv = segment.nrSampPerEv
  nrEvents : segment'.nrEvents = segment.nrEvents
  events : segment'.events = segment.events
  prevticks : segment'.prevticks = segment.prevticks

structure Matches (version n : Nat) (a : Ended) (segment : Segment) :
    Prop where
  evLength : segment.nrSampPerEv = a.evLength
  base : a.base = BitVec.ofNat 32 (n * 16777216)
  nrEvents : segment.nrEvents = a.work.nrEvents
  events : segment.events =
    .mem (sis3320Events a.work a.base a.evLength 8 segment.nrEvents.toNat)
  ticks : ∀ i < segment.nrEvents.toNat,
    segmentTick segment i = .ok (tickOf version a.work i)

section Reads

variable {segment segment' : Segment} {version n channel i : Nat} {a : Ended}
  {card : Card Sis3320} {dma : Except Errno Unit} {acq : Acq} {f : Delivered}

theorem SameRecord.segmentEvents (h : SameRecord segment segment') :
    segmentEvents segment' = segmentEvents segment := by
  unfold Sis33.segmentEvents
  rw [h.nrEvents, h.events]

theorem SameRecord.segmentTick (h : SameRecord segment segment') (i : Nat) :
    segmentTick segment' i = segmentTick segment i := by
  unfold Sis33.segmentTick
  rw [h.prevticks]

theorem SameRecord.readable (h : SameRecord segment segment')
    (hr : Readable segment') : Readable segment := by
  obtain ⟨⟨events, hev⟩, hpt⟩ := hr
  rw [h.segmentEvents] at hev
  refine ⟨⟨events, hev⟩, ?_⟩
  rwa [h.prevticks] at hpt

theorem Matches.congr (h : Matches version n a segment)
    (hs : SameRecord segment segment') : Matches version n a segment' where
  evLength := hs.nrSampPerEv.trans h.evLength
  base := h.base
  nrEvents := hs.nrEvents.trans h.nrEvents
  events := by
    rw [hs.events, hs.nrEvents]
    exact h.events
  ticks i hi := by
    rw [hs.segmentTick]
    rw [hs.nrEvents] at hi
    exact h.ticks i hi

theorem getElem?_flatMap_range {α : Type} (g : Nat → Nat → α) (n : Nat)
    {i : Nat} (hi : i < n) : ∀ {channels channel : Nat}, channel < channels →
      ((List.range channels).flatMap fun c =>
        (List.range n).map (g c))[channel * n + i]? = some (g channel i) := by
  intro channels
  induction channels with
  | zero => exact fun h => absurd h (Nat.not_lt_zero _)
  | succ channels ih =>
    intro channel hch
    have hlen : ((List.range channels).flatMap fun c =>
        (List.range n).map (g c)).length = channels * n := by
      simp [List.length_flatMap, List.map_const']
    rw [List.range_succ, List.flatMap_append]
    by_cases hlast : channel = channels
    · subst hlast
      rw [List.getElem?_append_right (by omega), hlen,
        Nat.add_sub_cancel_left]
      simp [List.getElem?_range hi]
    · have hlt : channel < channels := by omega
      rw [List.getElem?_append_left]
      · exact ih hlt
      · rw [hlen]
        calc channel * n + i < channel * n + n := by omega
          _ = (channel + 1) * n := by rw [Nat.add_mul, Nat.one_mul]
          _ ≤ channels * n := Nat.mul_le_mul_right _ hlt

theorem sis3320Events_getD (w : IrqWork) (base len : BitVec 32)
    {channels n : Nat} (hch : channel < channels) (hi : i < n) (e : Event) :
    (sis3320Events w base len channels n).getD (channel * n + i) e =
      sis3320ProcessEvent base len (w.evDir channel i) i := by
  rw [List.getD_eq_getElem?_getD, sis3320Events,
    getElem?_flatMap_range _ _ hi hch]
  rfl

theorem sis3320ReadEvent_ok
    (h : sis3320ReadEvent dma card n acq channel i = .ok f) :
    ∃ events tick, segmentEvents (card.segments n) = .ok events ∧
      segmentTick (card.segments n) i = .ok tick ∧
      f = ⟨{ acq with
          nrSamples := (events.getD (channel *
            (card.segments n).nrEvents.toNat + i) ⟨0, 0⟩).nrSamples
          firstSamp := (events.getD (channel *
            (card.segments n).nrEvents.toNat + i) ⟨0, 0⟩).firstSamp
          prevticks := tick
          be := 1 },
        sis3320GetData (sis3320GetSegmentBase card n)
          (card.segments n).nrSampPerEv acq.size.toNat i⟩ := by
  unfold sis3320ReadEvent at h
  cases hev : segmentEvents (card.segments n) with
  | error e =>
    simp only [hev] at h
    cases h
  | ok events =>
    cases htick : segmentTick (card.segments n) i with
    | error e =>
      simp only [hev, htick] at h
      cases h
    | ok tick =>
      cases dma with
      | error e =>
        simp only [hev, htick] at h
        cases h
      | ok u =>
        simp only [hev, htick] at h
        exact ⟨events, tick, rfl, rfl, (Except.ok.inj h).symm⟩

theorem sis3320Fetch_ok {dma : Nat → Except Errno Unit} :
    ∀ {acqs : List Acq} {i : Nat} {fs : List Delivered},
      sis3320Fetch dma card n channel i acqs = .ok fs →
      fs.length = acqs.length ∧ ∀ k acq, acqs[k]? = some acq →
        ∃ f, fs[k]? = some f ∧
          sis3320ReadEvent (dma (i + k)) card n acq channel (i + k) = .ok f
    := by
  intro acqs
  induction acqs with
  | nil =>
    intro i fs h
    cases h
    exact ⟨rfl, fun k acq hk => by cases hk⟩
  | cons acq acqs ih =>
    intro i fs h
    rw [sis3320Fetch] at h
    cases hread : sis3320ReadEvent (dma i) card n acq channel i with
    | error e =>
      rw [hread] at h
      cases h
    | ok f =>
      rw [hread] at h
      cases hrest : sis3320Fetch dma card n channel (i + 1) acqs with
      | error e =>
        simp only [hrest] at h
        cases h
      | ok rest =>
        simp only [hrest] at h
        cases h
        obtain ⟨hlen, hall⟩ := ih hrest
        refine ⟨by rw [List.length_cons, List.length_cons, hlen], ?_⟩
        intro k acq' hk
        cases k with
        | zero =>
          cases hk
          exact ⟨f, rfl, hread⟩
        | succ k =>
          have hadd : i + 1 + k = i + (k + 1) := by omega
          have hnext := hall k acq' hk
          rw [hadd] at hnext
          exact hnext

end Reads

/-! ## What the operations leave in a record -/

section Operations

variable {d d' : Dev Sis3320} {desc : AcqDesc} {w : IrqWork}
  {segment : Segment} {version n m : Nat} {base : BitVec 32}

structure Started3320 (d : Dev Sis3320) (desc : AcqDesc) (d' : Dev Sis3320) :
    Prop where
  accepted : Accepted d.card desc
  config : SameConfig d.card d'.card
  privateData : d'.card.privateData = d.card.privateData
  currSegment : d'.card.currSegment = desc.segment.toNat
  started : d'.card.segments desc.segment.toNat =
    { d.card.segments desc.segment.toNat with
      acquiring := true, nrSampPerEv := desc.evLength }
  others : ∀ m, m ≠ desc.segment.toNat →
    d'.card.segments m = d.card.segments m

theorem sis3320Acquire_ok (h : sis3320Acquire d desc = .ok d') :
    Started3320 d desc d' := by
  unfold sis3320Acquire at h
  cases hlocked : acqStartLocked sis3320ConfEv d.card desc with
  | error e =>
    rw [hlocked] at h
    cases h
  | ok card =>
    rw [hlocked] at h
    cases h
    obtain ⟨hacc, configured, hconf, rfl⟩ := acqStartLocked_ok hlocked
    cases hconf
    exact ⟨hacc, acqStartStore_sameConfig, rfl, rfl, setSegment_same,
      fun m hm => setSegment_of_ne hm⟩

/-- The events after `sis3320_read_segment()`: none, an error, or those of this
interrupt work. The rest of the record is as it was. -/
structure SegmentRead (w : IrqWork) (base : BitVec 32)
    (segment segment' : Segment) : Prop where
  acquiring : segment'.acquiring = segment.acquiring
  nrSampPerEv : segment'.nrSampPerEv = segment.nrSampPerEv
  prevticks : segment'.prevticks = segment.prevticks
  events : segment'.nrEvents = 0 ∨ segment'.events = .err .enomem ∨
    (DirRead w ∧ segment'.nrEvents = w.nrEvents ∧ segment'.events = .mem
      (sis3320Events w base segment.nrSampPerEv 8 w.nrEvents.toNat))

theorem segmentRead_spec :
    SegmentRead w base segment (segmentRead w base 8 segment) := by
  have hdrop : (dropEvents segment).acquiring = segment.acquiring ∧
      (dropEvents segment).nrSampPerEv = segment.nrSampPerEv ∧
      (dropEvents segment).prevticks = segment.prevticks := by
    unfold dropEvents
    split <;> exact ⟨rfl, rfl, rfl⟩
  obtain ⟨hacq, hlen, hpt⟩ := hdrop
  unfold segmentRead
  simp only
  split
  next hzero => exact ⟨hacq, hlen, hpt, Or.inl hzero⟩
  next hpos =>
  split
  · exact ⟨hacq, hlen, hpt, Or.inr (Or.inl rfl)⟩
  next hraw =>
  split
  · exact ⟨hacq, hlen, hpt, Or.inr (Or.inl rfl)⟩
  next hevents =>
  split
  next hdir =>
    have hread : DirRead w := ⟨hpos, by simpa using hraw, by simpa using hevents,
      hdir⟩
    refine ⟨hacq, hlen, hpt, Or.inr (Or.inr ⟨hread, rfl, ?_⟩)⟩
    rw [← hlen]
  · exact ⟨hacq, hlen, hpt, Or.inl rfl⟩

theorem SegmentRead.readable {segment' : Segment}
    (h : SegmentRead w base segment segment')
    (hr : ∃ events, segmentEvents segment' = .ok events) :
    DirRead w ∧ segment'.nrEvents = w.nrEvents ∧ segment'.events = .mem
      (sis3320Events w base segment.nrSampPerEv 8 w.nrEvents.toNat) := by
  obtain ⟨events, hev⟩ := hr
  unfold segmentEvents at hev
  split at hev
  · cases hev
  next hnr =>
    rcases h.events with hzero | herr | hmem
    · exact absurd hzero hnr
    · rw [herr] at hev
      cases hev
    · exact hmem

theorem segmentPrevticks_tick
    (hnone : version ≠ 3302 → segment.prevticks = .null)
    (hnr : segment.nrEvents = w.nrEvents) (hpos : w.nrEvents ≠ 0)
    (hread : TicksRead version w)
    (herr : ∀ e, (segmentPrevticks w version segment).prevticks ≠ .err e) :
    ∀ i < w.nrEvents.toNat,
      segmentTick (segmentPrevticks w version segment) i =
        .ok (tickOf version w i) := by
  intro i hi
  unfold segmentPrevticks at herr ⊢
  by_cases hv : version = 3302
  · have hgoes : ¬ (version ≠ 3302 ∨ segment.nrEvents = 0) :=
      fun h => h.elim (fun hne => hne hv) (hnr ▸ hpos)
    rw [if_neg hgoes] at herr ⊢
    simp only at herr
    unfold segmentTick
    simp only
    by_cases hraw : w.rawPtKmalloc = true
    · by_cases hpt : w.ptKmalloc = true
      · by_cases hdma : w.ptDma = true
        · simp [hraw, hpt, hdma, tickOf, hv, hnr]
        · have hone := (hread hv hraw hpt).resolve_left hdma
          obtain rfl : i = 0 := by omega
          simp [hraw, hpt, hdma, tickOf_zero]
      · exact absurd (by simp [hraw, hpt]) (herr .enomem)
    · exact absurd (by simp [hraw]) (herr .enomem)
  · rw [if_pos (Or.inl hv)]
    unfold segmentTick tickOf
    rw [hnone hv, if_neg hv]

theorem segmentPrevticks_keeps :
    (segmentPrevticks w version segment).nrSampPerEv = segment.nrSampPerEv ∧
      (segmentPrevticks w version segment).nrEvents = segment.nrEvents ∧
      (segmentPrevticks w version segment).events = segment.events := by
  unfold segmentPrevticks
  split <;> exact ⟨rfl, rfl, rfl⟩

theorem segmentPrevticks_segmentEvents :
    segmentEvents (segmentPrevticks w version segment) =
      segmentEvents segment := by
  unfold segmentEvents
  rw [segmentPrevticks_keeps.2.1, segmentPrevticks_keeps.2.2]

theorem segmentPrevticks_noTicks {segment' : Segment} (hv : version ≠ 3302)
    (hread : SegmentRead w base segment segment')
    (hnone : segment.prevticks = .null) :
    (segmentPrevticks w version segment').prevticks = .null := by
  unfold segmentPrevticks
  rw [if_pos (Or.inl hv)]
  exact hread.prevticks.trans hnone

theorem segmentPrevticks_matches {segment' : Segment}
    (hread : SegmentRead w (BitVec.ofNat 32 (n * 16777216)) segment segment')
    (hnone : version ≠ 3302 → segment.prevticks = .null)
    (hticks : DirRead w → TicksRead version w)
    (hr : Readable (segmentPrevticks w version segment')) :
    Matches version n
      ⟨⟨segment.nrSampPerEv, BitVec.ofNat 32 (n * 16777216)⟩, w⟩
      (segmentPrevticks w version segment') := by
  obtain ⟨hlen, hnr, hev⟩ := @segmentPrevticks_keeps w segment' version
  obtain ⟨hdir, hcount, hevents⟩ :=
    hread.readable (segmentPrevticks_segmentEvents ▸ hr.1)
  refine ⟨hlen.trans hread.nrSampPerEv, rfl, hnr.trans hcount, ?_, ?_⟩
  · rw [hev, hnr, hcount]
    exact hevents
  · rw [hnr, hcount]
    exact segmentPrevticks_tick (fun hv => hread.prevticks.trans (hnone hv))
      hcount hdir.nrEvents (hticks hdir) hr.2

/-- What `sis3320_irq_work()` does to the current segment when the last event
has come; the rest of the card stays. -/
structure Worked (w : IrqWork) (d d' : Dev Sis3320) : Prop where
  config : SameConfig d.card d'.card
  privateData : d'.card.privateData = d.card.privateData
  currSegment : d'.card.currSegment = d.card.currSegment
  others : ∀ m, m ≠ d.card.currSegment →
    d'.card.segments m = d.card.segments m
  record : d'.card.segments d.card.currSegment =
    { segmentPrevticks w d.card.privateData.version
        (segmentRead w (sis3320GetSegmentBase d.card d.card.currSegment)
          d.card.nChannels { d.card.curr with endtime := w.now }) with
      acquiring := false }

theorem sis3320IrqWork_spec (hlev : w.statusLev = true) :
    Worked w d (sis3320IrqWork w d) := by
  unfold sis3320IrqWork
  rw [if_pos hlev]
  refine ⟨⟨rfl, rfl, rfl, rfl, rfl, rfl⟩, rfl, rfl, ?_, ?_⟩
  · intro m hm
    simp [sis3320AcqComplete, sis3320ReadPrevticks, sis3320ReadSegment,
      Card.setSegment, hm]
  · simp [sis3320AcqComplete, sis3320ReadPrevticks, sis3320ReadSegment,
      Card.setSegment, Card.curr, sis3320GetSegmentBase, maxEvLength]

theorem sis3320IrqWork_of_not_lev (hlev : w.statusLev = false) :
    sis3320IrqWork w d = d := by
  unfold sis3320IrqWork
  rw [hlev]
  rfl

inductive FetchCase3320 (dma : Nat → Except Errno Unit) (d : Dev Sis3320)
    (list : AcqList) (res : Except Errno (Nat × List Delivered))
    (d' : Dev Sis3320) : Prop
  | refused (e : Errno) :
      res = .error e → d' = d → FetchCase3320 dma d list res d'
  | transfers (k : Nat) (card : Card Sis3320) :
      list.segment.toNat < d.card.nSegments →
      list.channel.toNat < d.card.nChannels →
      FetchAccepted d.card list k card →
      d' = { d with card := fetchDone card list.segment.toNat } →
      (∀ k' fs, res = .ok (k', fs) → k' = k ∧
        sis3320Fetch dma card list.segment.toNat list.channel.toNat 0
          (list.acqs.take k) = .ok fs) →
      FetchCase3320 dma d list res d'

theorem sis3320FetchIoctl_cases {dma : Nat → Except Errno Unit}
    {list : AcqList} :
    FetchCase3320 dma d list (sis3320FetchIoctl dma d list).1
      (sis3320FetchIoctl dma d list).2 := by
  unfold sis3320FetchIoctl
  split
  · exact .refused _ rfl rfl
  split
  · exact .refused _ rfl rfl
  · exact .refused _ rfl rfl
  next henter =>
    split
    · exact .refused _ rfl rfl
    next k card hlocked =>
      have hok := fetchEnter_ok henter
      refine .transfers k card hok.1 hok.2.1 (fetchLocked_ok hlocked) rfl ?_
      intro k' fs hres
      cases hr : sis3320Fetch dma card list.segment.toNat list.channel.toNat 0
          (list.acqs.take k) with
      | error e =>
        simp only [hr] at hres
        cases hres
      | ok fs' =>
        simp only [hr] at hres
        cases hres
        exact ⟨rfl, rfl⟩

end Operations

/-! ## The invariant -/

/-- Only the current segment acquires; what is known of a running acquisition
is what the driver has; and a record that can be read is of the last
acquisition that ended, none being cancelled since. -/
structure RecordInv (s : Sis3320State) : Prop where
  config : Configured s.dev.card
  nChannels : s.dev.card.nChannels = 8
  active : ∀ n, (s.dev.card.segments n).acquiring = true →
    n = s.dev.card.currSegment ∧ n < s.dev.card.nSegments
  running : ∀ n, (s.running n).isSome = (s.dev.card.segments n).acquiring
  started : ∀ n a, s.running n = some a →
    a = ⟨(s.dev.card.segments n).nrSampPerEv, BitVec.ofNat 32 (n * 16777216)⟩
  noTicks : s.dev.card.privateData.version ≠ 3302 →
    ∀ n, (s.dev.card.segments n).prevticks = .null
  record : ∀ n, (s.dev.card.segments n).acquiring = false →
    Readable (s.dev.card.segments n) →
      ∃ a, s.last n = some a ∧ s.cancelled n = false ∧
        Matches s.dev.card.privateData.version n a (s.dev.card.segments n)

section Invariant

variable {s : Sis3320State} {d : Dev Sis3320} {desc : AcqDesc} {w : IrqWork}
  {list : AcqList} {op : Sis3320Op}

theorem RecordInv.sound (h : RecordInv s) : Sound s := by
  intro dma list k fs hok
  have hcase := @sis3320FetchIoctl_cases s.dev dma list
  cases hcase with
  | refused e hres _ =>
    rw [hok] at hres
    cases hres
  | transfers k' card hseg hch hacc _ hres =>
    obtain ⟨rfl, hfetch⟩ := hres k fs hok
    have hsame : SameRecord (s.dev.card.segments list.segment.toNat)
        (card.segments list.segment.toNat) := by
      rw [hacc.stored, setSegment_same]
      exact ⟨rfl, rfl, rfl, rfl⟩
    have hbase : sis3320GetSegmentBase card list.segment.toNat =
        BitVec.ofNat 32 (list.segment.toNat * 16777216) := by
      rw [hacc.stored]
      exact h.config.base_eq hseg
    obtain ⟨hlen, hread⟩ := sis3320Fetch_ok hfetch
    rw [List.length_take] at hlen
    have hk := hacc.nrEvents
    have hpos := hacc.pos
    rw [h.nChannels] at hch
    -- The first event was read, so the record can be read.
    have hreadable : Readable (s.dev.card.segments list.segment.toNat) := by
      obtain ⟨acq, hacq⟩ : ∃ acq, (list.acqs.take k)[0]? = some acq := by
        refine ⟨_, List.getElem?_eq_getElem ?_⟩
        rw [List.length_take]
        omega
      obtain ⟨f, _, hf⟩ := hread 0 acq hacq
      obtain ⟨events, tick, hev, htick, _⟩ := sis3320ReadEvent_ok hf
      rw [hsame.segmentEvents] at hev
      rw [hsame.segmentTick] at htick
      refine ⟨⟨events, hev⟩, ?_⟩
      intro e herr
      unfold segmentTick at htick
      rw [herr] at htick
      cases htick
    obtain ⟨a, hlast, hcancelled, hmatch⟩ :=
      h.record _ hacc.acquiring hreadable
    have hnr := hmatch.nrEvents
    refine ⟨hpos, by omega, a, hlast, hcancelled, ?_, ?_⟩
    · rw [← hnr]
      omega
    · intro i hi acq hacq
      have htake : (list.acqs.take k)[i]? = some acq := by
        rw [List.getElem?_take_of_lt hi, hacq]
      have hsize := hacc.buffers acq (List.mem_of_getElem? htake)
      rw [hmatch.evLength] at hsize
      refine ⟨hsize, ?_⟩
      obtain ⟨f, hf, hfread⟩ := hread i acq htake
      rw [Nat.zero_add] at hfread
      obtain ⟨events, tick, hev, htick, rfl⟩ := sis3320ReadEvent_ok hfread
      have hilt : i < (s.dev.card.segments list.segment.toNat).nrEvents.toNat
          := by omega
      rw [hsame.segmentTick, hmatch.ticks i hilt] at htick
      rw [hsame.segmentEvents] at hev
      unfold segmentEvents at hev
      rw [hmatch.events] at hev
      split at hev
      · cases hev
      obtain rfl := Except.ok.inj hev
      obtain rfl := Except.ok.inj htick
      rw [hf, hsame.nrEvents, hbase, ← hmatch.base, hsame.nrSampPerEv,
        hmatch.evLength, hsize, sis3320Events_getD _ _ _ hch hilt]
      rfl

theorem RecordInv.acquire (h : RecordInv s) (hs : Started3320 s.dev desc d) :
    RecordInv { s with
      dev := d
      running := Function.update s.running desc.segment.toNat
        (some ⟨desc.evLength,
          sis3320GetSegmentBase s.dev.card desc.segment.toNat⟩) } := by
  have hidle : ∀ m, (s.dev.card.segments m).acquiring = false := by
    intro m
    cases hm : (s.dev.card.segments m).acquiring with
    | false => rfl
    | true =>
      rw [hs.accepted.idle m (h.active m hm).2] at hm
      cases hm
  refine ⟨h.config.same hs.config, hs.config.nChannels.trans h.nChannels,
    ?_, ?_, ?_, ?_, ?_⟩
  · intro m hm
    show m = d.card.currSegment ∧ m < d.card.nSegments
    by_cases hne : m = desc.segment.toNat
    · rw [hne, hs.currSegment, hs.config.nSegments]
      exact ⟨rfl, hs.accepted.segment⟩
    · rw [hs.others m hne, hidle m] at hm
      cases hm
  · intro m
    dsimp only
    by_cases hne : m = desc.segment.toNat
    · rw [hne, Function.update_self, hs.started]
      rfl
    · rw [Function.update_of_ne hne, hs.others m hne]
      exact h.running m
  · intro m a ha
    dsimp only at ha ⊢
    by_cases hne : m = desc.segment.toNat
    · rw [hne, Function.update_self] at ha
      rw [hne, hs.started, ← Option.some.inj ha,
        h.config.base_eq hs.accepted.segment]
    · rw [Function.update_of_ne hne] at ha
      rw [hs.others m hne]
      exact h.started m a ha
  · intro hv m
    dsimp only at hv ⊢
    rw [hs.privateData] at hv
    by_cases hne : m = desc.segment.toNat
    · rw [hne, hs.started]
      exact h.noTicks hv _
    · rw [hs.others m hne]
      exact h.noTicks hv m
  · intro m hm hr
    dsimp only at hm hr ⊢
    by_cases hne : m = desc.segment.toNat
    · rw [hne, hs.started] at hm
      cases hm
    · rw [hs.others m hne] at hr ⊢
      rw [hs.privateData]
      exact h.record m (hidle m) hr

theorem RecordInv.ends {last : Nat → Option Ended} {cancelled : Nat → Bool}
    (h : RecordInv s) (hconf : SameConfig s.dev.card d.card)
    (hpriv : d.card.privateData = s.dev.card.privateData)
    (hothers : ∀ n, n ≠ s.dev.card.currSegment →
      d.card.segments n = s.dev.card.segments n ∧ last n = s.last n ∧
        cancelled n = s.cancelled n)
    (hended : (d.card.segments s.dev.card.currSegment).acquiring = false)
    (hticks : s.dev.card.privateData.version ≠ 3302 →
      (d.card.segments s.dev.card.currSegment).prevticks = .null)
    (hrecord : Readable (d.card.segments s.dev.card.currSegment) →
      ∃ a, last s.dev.card.currSegment = some a ∧
        cancelled s.dev.card.currSegment = false ∧
        Matches s.dev.card.privateData.version s.dev.card.currSegment a
          (d.card.segments s.dev.card.currSegment)) :
    RecordInv
      { dev := d
        running := Function.update s.running s.dev.card.currSegment none
        last := last
        cancelled := cancelled } := by
  have hrest : ∀ n, n ≠ s.dev.card.currSegment →
      (s.dev.card.segments n).acquiring = false := by
    intro n hn
    cases hacq : (s.dev.card.segments n).acquiring with
    | false => rfl
    | true => exact absurd (h.active n hacq).1 hn
  have hidle : ∀ n, (d.card.segments n).acquiring = false := by
    intro n
    by_cases hn : n = s.dev.card.currSegment
    · rw [hn, hended]
    · rw [(hothers n hn).1, hrest n hn]
  refine ⟨h.config.same hconf, hconf.nChannels.trans h.nChannels,
    ?_, ?_, ?_, ?_, ?_⟩
  · intro n hn
    dsimp only at hn
    rw [hidle n] at hn
    cases hn
  · intro n
    dsimp only
    rw [hidle n]
    by_cases hn : n = s.dev.card.currSegment
    · rw [hn, Function.update_self]
      rfl
    · rw [Function.update_of_ne hn, h.running n, hrest n hn]
  · intro n a ha
    dsimp only at ha ⊢
    by_cases hn : n = s.dev.card.currSegment
    · rw [hn, Function.update_self] at ha
      cases ha
    · rw [Function.update_of_ne hn] at ha
      rw [(hothers n hn).1]
      exact h.started n a ha
  · intro hv n
    dsimp only at hv ⊢
    rw [hpriv] at hv
    by_cases hn : n = s.dev.card.currSegment
    · rw [hn, hticks hv]
    · rw [(hothers n hn).1]
      exact h.noTicks hv n
  · intro n _ hr
    dsimp only at hr ⊢
    rw [hpriv]
    by_cases hn : n = s.dev.card.currSegment
    · rw [hn] at hr ⊢
      exact hrecord hr
    · obtain ⟨hseg, hlast, hcancelled⟩ := hothers n hn
      rw [hseg] at hr
      rw [hseg, hlast, hcancelled]
      exact h.record n (hrest n hn) hr

theorem RecordInv.irqWork {a : Acquisition} (h : RecordInv s)
    (hw : Worked w s.dev d) (hacq : s.dev.card.curr.acquiring = true)
    (hticks : DirRead w → TicksRead s.dev.card.privateData.version w)
    (ha : s.running s.dev.card.currSegment = some a) :
    RecordInv
      { dev := d
        running := Function.update s.running s.dev.card.currSegment none
        last := Function.update s.last s.dev.card.currSegment (some ⟨a, w⟩)
        cancelled := Function.update s.cancelled s.dev.card.currSegment false }
    := by
  have hrecord := hw.record
  rw [h.nChannels, h.config.base_eq (h.active _ hacq).2] at hrecord
  have hread := @segmentRead_spec w { s.dev.card.curr with endtime := w.now }
    (BitVec.ofNat 32 (s.dev.card.currSegment * 16777216))
  refine h.ends hw.config hw.privateData ?_ (by rw [hrecord]) ?_ ?_
  · intro n hn
    exact ⟨hw.others n hn, Function.update_of_ne hn .., Function.update_of_ne
      hn ..⟩
  · intro hv
    rw [hrecord]
    exact segmentPrevticks_noTicks hv hread (h.noTicks hv _)
  · intro hr
    refine ⟨_, Function.update_self .., Function.update_self .., ?_⟩
    rw [hrecord] at hr ⊢
    rw [h.started _ a ha]
    have hmatch := segmentPrevticks_matches hread (h.noTicks · _) hticks
      (SameRecord.readable ⟨rfl, rfl, rfl, rfl⟩ hr)
    exact hmatch.congr ⟨rfl, rfl, rfl, rfl⟩

structure Keeps (version : Nat) (segment segment' : Segment) : Prop where
  acquiring : segment'.acquiring = segment.acquiring
  nrSampPerEv : segment'.nrSampPerEv = segment.nrSampPerEv
  noTicks : version ≠ 3302 → segment.prevticks = .null →
    segment'.prevticks = .null
  record : Readable segment' → SameRecord segment segment'

theorem SameRecord.keeps {version : Nat} {segment segment' : Segment}
    (h : SameRecord segment segment')
    (hacq : segment'.acquiring = segment.acquiring) :
    Keeps version segment segment' where
  acquiring := hacq
  nrSampPerEv := h.nrSampPerEv
  noTicks _ hnull := h.prevticks.trans hnull
  record _ := h

theorem RecordInv.frame (h : RecordInv s) (hconf : Configured d.card)
    (hch : d.card.nChannels = s.dev.card.nChannels)
    (hpriv : d.card.privateData = s.dev.card.privateData)
    (hactive : ∀ n, (s.dev.card.segments n).acquiring = true →
      d.card.currSegment = s.dev.card.currSegment ∧
        d.card.nSegments = s.dev.card.nSegments)
    (hkeeps : ∀ n, Keeps s.dev.card.privateData.version
      (s.dev.card.segments n) (d.card.segments n)) :
    RecordInv { s with dev := d } := by
  refine ⟨hconf, hch.trans h.nChannels, ?_, ?_, ?_, ?_, ?_⟩
  · intro n hn
    dsimp only at hn ⊢
    rw [(hkeeps n).acquiring] at hn
    rw [(hactive n hn).1, (hactive n hn).2]
    exact h.active n hn
  · intro n
    dsimp only
    rw [(hkeeps n).acquiring]
    exact h.running n
  · intro n a ha
    dsimp only
    rw [(hkeeps n).nrSampPerEv]
    exact h.started n a ha
  · intro hv n
    dsimp only at hv ⊢
    rw [hpriv] at hv
    exact (hkeeps n).noTicks hv (h.noTicks hv n)
  · intro n hn hr
    dsimp only at hn hr ⊢
    rw [(hkeeps n).acquiring] at hn
    have hsame := (hkeeps n).record hr
    obtain ⟨a, hlast, hcancelled, hmatch⟩ := h.record n hn (hsame.readable hr)
    refine ⟨a, hlast, hcancelled, ?_⟩
    rw [hpriv]
    exact hmatch.congr hsame

theorem RecordInv.irqWork_idle (h : RecordInv s) (hw : Worked w s.dev d)
    (hacq : s.dev.card.curr.acquiring = false) (hdir : ¬ DirRead w) :
    RecordInv { s with dev := d } := by
  refine h.frame (h.config.same hw.config) hw.config.nChannels hw.privateData
    (fun _ _ => ⟨hw.currSegment, hw.config.nSegments⟩) ?_
  intro n
  by_cases hn : n = s.dev.card.currSegment
  · rw [hn, hw.record, h.nChannels]
    have hread := @segmentRead_spec w { s.dev.card.curr with endtime := w.now }
      (sis3320GetSegmentBase s.dev.card s.dev.card.currSegment)
    refine ⟨hacq.symm, ?_, ?_, ?_⟩
    · exact segmentPrevticks_keeps.1.trans hread.nrSampPerEv
    · exact fun hv hnull => segmentPrevticks_noTicks hv hread hnull
    · intro hr
      obtain ⟨⟨events, hev⟩, _⟩ := hr
      replace hev := segmentPrevticks_segmentEvents.symm.trans hev
      exact absurd (hread.readable ⟨events, hev⟩).1 hdir
  · rw [hw.others n hn]
    exact SameRecord.keeps ⟨rfl, rfl, rfl, rfl⟩ rfl

theorem RecordInv.cancel (h : RecordInv s)
    (hr : ¬ Readable s.dev.card.curr) :
    RecordInv
      { s with
        dev := sis3320AcqCancel s.dev
        running := Function.update s.running s.dev.card.currSegment none
        cancelled := Function.update s.cancelled s.dev.card.currSegment true }
    := by
  have hcurr : (sis3320AcqCancel s.dev).card.segments s.dev.card.currSegment =
      { s.dev.card.curr with acquiring := false } := setSegment_same
  refine h.ends ⟨rfl, rfl, rfl, rfl, rfl, rfl⟩ rfl ?_ (by rw [hcurr]) ?_ ?_
  · intro n hn
    exact ⟨setSegment_of_ne hn, rfl, Function.update_of_ne hn ..⟩
  · intro hv
    rw [hcurr]
    exact h.noTicks hv _
  · intro hread
    rw [hcurr] at hread
    exact absurd (SameRecord.readable ⟨rfl, rfl, rfl, rfl⟩ hread) hr

theorem RecordInv.cancel_idle (h : RecordInv s)
    (hacq : s.dev.card.curr.acquiring = false) :
    RecordInv { s with dev := sis3320AcqCancel s.dev } := by
  refine h.frame (h.config.same ⟨rfl, rfl, rfl, rfl, rfl, rfl⟩) rfl rfl
    (fun _ _ => ⟨rfl, rfl⟩) ?_
  intro n
  by_cases hn : n = s.dev.card.currSegment
  · have hcurr : (sis3320AcqCancel s.dev).card.segments n =
        { s.dev.card.curr with acquiring := false } := by
      rw [hn]
      exact setSegment_same
    rw [hcurr, hn]
    exact SameRecord.keeps ⟨rfl, rfl, rfl, rfl⟩ hacq.symm
  · have hother : (sis3320AcqCancel s.dev).card.segments n =
        s.dev.card.segments n := setSegment_of_ne hn
    rw [hother]
    exact SameRecord.keeps ⟨rfl, rfl, rfl, rfl⟩ rfl

theorem RecordInv.storeNSegments {segments : Int} {card : Card Sis3320}
    (h : RecordInv s)
    (hstore : storeNSegments s.dev.card segments = .ok card) :
    RecordInv { s with dev := { s.dev with card := card } } := by
  obtain ⟨hidle, n, rfl⟩ := storeNSegments_idle hstore
  refine h.frame (h.config.storeNSegments hstore) rfl rfl ?_ ?_
  · intro m hm
    rw [hidle m (h.active m hm).2] at hm
    cases hm
  · intro m
    exact SameRecord.keeps ⟨rfl, rfl, rfl, rfl⟩ rfl

theorem RecordInv.fetch {dma : Nat → Except Errno Unit} (h : RecordInv s) :
    RecordInv { s with dev := (sis3320FetchIoctl dma s.dev list).2 } := by
  have hcase := @sis3320FetchIoctl_cases s.dev dma list
  cases hcase with
  | refused e _ hdev =>
    rw [hdev]
    exact h
  | transfers k card _ _ hacc hdev _ =>
    have hseg : ∀ n, SameRecord (s.dev.card.segments n)
        ((fetchDone card list.segment.toNat).segments n) ∧
        ((fetchDone card list.segment.toNat).segments n).acquiring =
          (s.dev.card.segments n).acquiring := by
      intro n
      unfold fetchDone
      rw [hacc.stored]
      by_cases hn : n = list.segment.toNat
      · rw [hn, setSegment_same, setSegment_same]
        exact ⟨⟨rfl, rfl, rfl, rfl⟩, rfl⟩
      · rw [setSegment_of_ne hn, setSegment_of_ne hn]
        exact ⟨⟨rfl, rfl, rfl, rfl⟩, rfl⟩
    rw [hdev]
    rw [hacc.stored] at hseg ⊢
    exact h.frame (h.config.same ⟨rfl, rfl, rfl, rfl, rfl, rfl⟩) rfl rfl
      (fun _ _ => ⟨rfl, rfl⟩) (fun n => (hseg n).1.keeps (hseg n).2)

theorem RecordInv.step (h : RecordInv s) (hop : Undisturbed s op) :
    RecordInv (op.run s) := by
  have hcurr := h.running s.dev.card.currSegment
  cases op with
  | acquire desc =>
    cases hacq : sis3320Acquire s.dev desc with
    | error e =>
      simp only [Sis3320Op.run, hacq]
      exact h
    | ok d =>
      simp only [Sis3320Op.run, hacq]
      exact h.acquire (sis3320Acquire_ok hacq)
  | irqWork w =>
    cases hlev : w.statusLev with
    | false =>
      simp only [Sis3320Op.run, hlev, sis3320IrqWork_of_not_lev hlev]
      exact h
    | true =>
      have hw := @sis3320IrqWork_spec s.dev w hlev
      cases hrun : s.running s.dev.card.currSegment with
      | some a =>
        rw [hrun] at hcurr
        simp only [Sis3320Op.run, hlev, hrun]
        exact h.irqWork hw hcurr.symm
          (fun hdir => (hop hlev hdir).2) hrun
      | none =>
        rw [hrun] at hcurr
        have hidle : s.dev.card.curr.acquiring = false := hcurr.symm
        simp only [Sis3320Op.run, hlev, hrun]
        refine h.irqWork_idle hw hidle ?_
        intro hdir
        rw [(hop hlev hdir).1] at hidle
        cases hidle
  | cancel =>
    cases hrun : s.running s.dev.card.currSegment with
    | some a =>
      rw [hrun] at hcurr
      simp only [Sis3320Op.run, hrun]
      exact h.cancel (hop hcurr.symm)
    | none =>
      rw [hrun] at hcurr
      simp only [Sis3320Op.run, hrun]
      exact h.cancel_idle hcurr.symm
  | storeNSegments segments =>
    cases hstore : Sis33.storeNSegments s.dev.card segments with
    | error e =>
      simp only [Sis3320Op.run, hstore]
      exact h
    | ok card =>
      simp only [Sis3320Op.run, hstore]
      exact h.storeNSegments hstore
  | fetch dma list => exact h.fetch

theorem recordInv_invariant :
    (sis3320System.guarded Undisturbed).Invariant RecordInv where
  init := by
    rintro s ⟨version, rfl⟩
    refine ⟨sis3320Probe_configured _, rfl, ?_, fun n => rfl, ?_,
      fun _ n => rfl, ?_⟩
    · intro n hn
      cases hn
    · intro n a ha
      cases ha
    · intro n _ hr
      obtain ⟨⟨events, hev⟩, _⟩ := hr
      cases hev
  step := by
    rintro s s' op h ⟨hop, rfl⟩
    exact h.step hop

end Invariant

def sis3320Idle : Sis3320State :=
  { dev := ⟨sis3320Probe ⟨200⟩, false, false⟩ }

theorem reachable_run {s : Sis3320State} (h : sis3320System.Reachable s)
    (op : Sis3320Op) : sis3320System.Reachable (op.run s) :=
  .step h rfl

theorem reachable_undisturbed {s : Sis3320State}
    (h : (sis3320System.guarded Undisturbed).Reachable s) (op : Sis3320Op)
    (hop : Undisturbed s op) :
    (sis3320System.guarded Undisturbed).Reachable (op.run s) :=
  .step h ⟨hop, rfl⟩

/-- In a run of undisturbed steps every fetch delivers the last acquisition. -/
theorem sound_of_undisturbed {s : Sis3320State}
    (hreach : (sis3320System.guarded Undisturbed).Reachable s) : Sound s :=
  (recordInv_invariant.reachable hreach).sound

/-- One event of 512 samples is acquired, and can be fetched. -/
theorem sound_after_one_acquisition :
    ∃ s, (sis3320System.guarded Undisturbed).Reachable s ∧ Sound s ∧
      (sis3320FetchIoctl (fun _ => .ok ()) s.dev
        ⟨0, 0, [{ size := 1024 }], 0⟩).1.isOk = true := by
  have hinit : (sis3320System.guarded Undisturbed).Reachable sis3320Idle :=
    .init ⟨200, rfl⟩
  have hstart := reachable_undisturbed hinit (.acquire ⟨0, 1, 512, 0⟩) trivial
  have hend := reachable_undisturbed hstart
    (.irqWork { counter := 1, evDir := fun _ _ => 512 })
    (fun _ _ => ⟨rfl, fun hv => absurd hv (by decide)⟩)
  exact ⟨_, hend, sound_of_undisturbed hend, rfl⟩

/-- A second acquisition, of 1024 samples, is cancelled: the events of the first
are delivered with its length. -/
theorem cancelled_data_fetched :
    ∃ s, sis3320System.Reachable s ∧ ¬ Sound s := by
  have hinit : sis3320System.Reachable sis3320Idle := .init ⟨200, rfl⟩
  have hfirst := reachable_run hinit (.acquire ⟨0, 1, 512, 0⟩)
  have hend := reachable_run hfirst
    (.irqWork { counter := 1, evDir := fun _ _ => 512 })
  have hsecond := reachable_run hend (.acquire ⟨0, 1, 1024, 0⟩)
  refine ⟨_, reachable_run hsecond .cancel, ?_⟩
  intro hsound
  obtain ⟨_, _, a, _, hcancelled, _⟩ :=
    hsound (fun _ => .ok ()) ⟨0, 0, [{ size := 2048 }], 0⟩ 1 _ rfl
  cases hcancelled

end Coht.Sis33
