import Coht.Sis33.Core

/-!
# The sis3300 (`sis3300.c`)

The module samples into one of two memory banks, one for each segment of the
card. A bank has an event directory, a directory of time stamps and the memory
of the four groups of two channels, whose samples share the 32-bit words.

The driver reads these on the first fetch after an acquisition and keeps what
it read: the events and the time stamps with the segment, the words of a group
in `sampcache`. `acq_start` drops all three. The three functions that return a
cache have one form, `cacheGet`: what is there is returned, else it is built,
and what cannot be built is not kept.

An acquisition ends in `sis3300_do_irq()` or in `sis3300_acq_cancel()`, which
work on what they read from the module, an `IrqReading`.
-/

namespace Coht.Sis33

/-- `struct sis3300`: the requested events and, by segment and group, the
cached words. -/
structure Sis3300 where
  reqEvents : BitVec 32 := 0
  sampcache : Nat → Nat → Ptr (List (BitVec 32)) := fun _ _ => .null

/-- The banks of the module: the event directory and the time stamps by bank
and event, and the memory, addressed in words from `MEMBANK1_ADC_0`. -/
structure Banks where
  evDir : Nat → Nat → BitVec 32
  evTstamp : Nat → Nat → BitVec 32
  memory : Nat → BitVec 32

def evDirWrap : BitVec 32 := 0x80000
def evDirAddrMask : BitVec 32 := 0x1ffff
def evTstampMask : BitVec 32 := 0x00ffffff
def adc0DataMask : BitVec 32 := 0xfff0000
def adc0DataShift : Nat := 16
def adc1DataMask : BitVec 32 := 0xfff
def adc1DataShift : Nat := 0

/-- `MEMBANK()`, in words: where a channel's group begins in a bank. -/
def memBank (bank channel : Nat) : Nat := bank * 0x80000 + channel / 2 * 0x20000

/-! ## Starting and ending an acquisition -/

/-- `sis3300_conf_ev()`: the registers written have no part here. -/
def sis3300ConfEv (card : Card Sis3300) (desc : AcqDesc) :
    Except Errno (Card Sis3300) :=
  .ok { card with
    privateData := { card.privateData with reqEvents := desc.nrEvents } }

/-- `sis3300_evcache_free()`, `sis3300_sampcache_free()` and
`sis3300_pt_cache_free()` on one segment. -/
def sis3300CachesFree (card : Card Sis3300) (n : Nat) : Card Sis3300 :=
  { card.setSegment n
      { card.segments n with events := .null, prevticks := .null } with
    privateData :=
      { card.privateData with
        sampcache := Function.update card.privateData.sampcache n
          fun _ => .null } }

/-- `sis3300_acq_start()` -/
def sis3300AcqStart (d : Dev Sis3300) : Dev Sis3300 where
  card := sis3300CachesFree d.card d.card.currSegment
  completion := false
  armed := true

/-- `sis3300_finish_acquisition()` -/
def sis3300FinishAcquisition (now : Nat) (d : Dev Sis3300) : Dev Sis3300 where
  card := d.card.setSegment d.card.currSegment
    { d.card.curr with endtime := now, acquiring := false }
  completion := true
  armed := false

/-- An acquisition is started: the section of the core and `acq_start`. -/
def sis3300Acquire (d : Dev Sis3300) (desc : AcqDesc) :
    Except Errno (Dev Sis3300) := do
  let card ← acqStartLocked sis3300ConfEv d.card desc
  .ok (sis3300AcqStart { d with card := card })

/-- What one pass over the module's registers finds: the event counter, the
busy bit, the two status bits and the time of day. -/
structure IrqReading where
  counter : BitVec 32
  busy : Bool
  statusEv : Bool := false
  statusLev : Bool := false
  now : Nat := 0
  deriving DecidableEq, Repr

/-- The number of events from which the acquisition is over. -/
def eventThreshold (reqEvents : BitVec 32) (r : IrqReading) : BitVec 32 :=
  if r.busy then reqEvents + 1 else reqEvents

/-- The segment's number of events is stored and the acquisition finished. -/
def finishWith (now : Nat) (nrEvents : BitVec 32) (d : Dev Sis3300) :
    Dev Sis3300 :=
  sis3300FinishAcquisition now
    { d with
      card := d.card.setSegment d.card.currSegment
        { d.card.curr with nrEvents := nrEvents } }

/-- The branch of `sis3300_do_irq()` for `INTCTL_ST_EV`; the counters are
compared as `int`. -/
def doIrqEv (r : IrqReading) (d : Dev Sis3300) : Dev Sis3300 :=
  let reqEvents := d.card.privateData.reqEvents
  if (eventThreshold reqEvents r).sle r.counter && d.card.curr.acquiring then
    finishWith r.now reqEvents d
  else d

/-- The branch for `INTCTL_ST_LEV`. -/
def doIrqLev (r : IrqReading) (d : Dev Sis3300) : Dev Sis3300 :=
  if d.card.curr.acquiring then finishWith r.now r.counter d else d

/-- `sis3300_do_irq()` -/
def sis3300DoIrq (r : IrqReading) (d : Dev Sis3300) : Dev Sis3300 :=
  let d := if r.statusEv then doIrqEv r d else d
  if r.statusLev then doIrqLev r d else d

/-- `sis3300_irq_work()`: a pass for each status that was not zero. -/
def sis3300IrqWork (rs : List IrqReading) (d : Dev Sis3300) : Dev Sis3300 :=
  rs.foldl (fun d r => sis3300DoIrq r d) d

/-- `sis3300_acq_cancel()`. The field tested for being negative is unsigned. -/
def sis3300AcqCancel (r : IrqReading) (d : Dev Sis3300) : Dev Sis3300 :=
  if d.card.curr.acquiring then
    let d := sis3300FinishAcquisition r.now d
    let nrEvents := if r.busy then r.counter - 1 else r.counter
    let nrEvents := if nrEvents < 0 then 0 else nrEvents
    { d with
      card := d.card.setSegment d.card.currSegment
        { d.card.curr with nrEvents := nrEvents } }
  else d

/-! ## The caches -/

/-- What a fetch meets: whether the allocations succeed, what the transfers on
the bus return, and whether the samples can be stored in the user's memory. -/
structure FetchEnv where
  eventsKcalloc : Bool := true
  rawKmalloc : Bool := true
  eventsDma : Except Errno Unit := .ok ()
  sampKmalloc : Bool := true
  sampDma : Except Errno Unit := .ok ()
  ptKmalloc : Bool := true
  ptDma : Except Errno Unit := .ok ()
  putUser : Nat → Nat → Bool := fun _ _ => true

/-- The form of the three functions that return a cache. -/
def cacheGet {α : Type} (cache : Ptr α) (fill : Except Errno α) :
    Except Errno α × Ptr α :=
  match cache with
  | .mem a => (.ok a, .mem a)
  | .err e => (.error e, .err e)
  | .null =>
    match fill with
    | .ok a => (.ok a, .mem a)
    | .error e => (.error e, .null)

/-- `sis3300_process_raw_event()` -/
def sis3300ProcessRawEvent (segment : Segment) (rawEvent : BitVec 32)
    (eventNr : Nat) : Event :=
  let nextSample :=
    (rawEvent &&& evDirAddrMask) - BitVec.ofNat 32 eventNr * segment.nrSampPerEv
  if rawEvent &&& evDirWrap != 0 then ⟨segment.nrSampPerEv, nextSample⟩
  else ⟨nextSample, 0⟩

/-- The entries of the event directory, as many as the segment has events. -/
def dirEntries (segment : Segment) : List Nat :=
  List.range segment.nrEvents.toNat

/-- The words of a group that are read; the product is the one of two `u32`. -/
def sampleWords (segment : Segment) : List Nat :=
  List.range (segment.nrEvents * segment.nrSampPerEv).toNat

/-- `sis3300_read_events_dir()` over all the events of the segment. -/
def eventsOf (hw : Banks) (segment : Segment) (n : Nat) : List Event :=
  (dirEntries segment).map fun i =>
    sis3300ProcessRawEvent segment (hw.evDir n i) i

/-- The words of a channel's group, in the order of the processor. -/
def wordsOf (hw : Banks) (segment : Segment) (n channel : Nat) :
    List (BitVec 32) :=
  (sampleWords segment).map fun i => hw.memory (memBank n channel + i)

/-- The time stamps, masked. -/
def ticksOf (hw : Banks) (segment : Segment) (n : Nat) : List (BitVec 64) :=
  (dirEntries segment).map fun i =>
    (hw.evTstamp n i &&& evTstampMask).setWidth 64

/-- What `sis3300_evcache_get()` builds. -/
def evcacheFill (env : FetchEnv) (hw : Banks) (segment : Segment) (n : Nat) :
    Except Errno (List Event) :=
  if !env.eventsKcalloc then .error .enomem
  else if !env.rawKmalloc then .error .enomem
  else
    match env.eventsDma with
    | .error e => .error e
    | .ok () => .ok (eventsOf hw segment n)

/-- What `sis3300_sampcache_get()` builds. -/
def sampcacheFill (env : FetchEnv) (hw : Banks) (segment : Segment)
    (n channel : Nat) : Except Errno (List (BitVec 32)) :=
  if !env.sampKmalloc then .error .enomem
  else
    match env.sampDma with
    | .error e => .error e
    | .ok () => .ok (wordsOf hw segment n channel)

/-- What `sis3300_pt_cache_get()` builds. -/
def ptCacheFill (env : FetchEnv) (hw : Banks) (segment : Segment) (n : Nat) :
    Except Errno (List (BitVec 64)) :=
  if !env.ptKmalloc then .error .enomem
  else
    match env.ptDma with
    | .error e => .error e
    | .ok () => .ok (ticksOf hw segment n)

/-- `sis3300_evcache_get()` -/
def sis3300EvcacheGet (env : FetchEnv) (hw : Banks) (card : Card Sis3300)
    (n : Nat) : Except Errno (List Event) × Card Sis3300 :=
  let segment := card.segments n
  let r := cacheGet segment.events (evcacheFill env hw segment n)
  (r.1, card.setSegment n { segment with events := r.2 })

/-- `sis3300_sampcache_get()` -/
def sis3300SampcacheGet (env : FetchEnv) (hw : Banks) (card : Card Sis3300)
    (n channel : Nat) : Except Errno (List (BitVec 32)) × Card Sis3300 :=
  let cache := card.privateData.sampcache
  let r := cacheGet (cache n (channel / 2))
    (sampcacheFill env hw (card.segments n) n channel)
  (r.1, { card with privateData := { card.privateData with
    sampcache := Function.update cache n
      (Function.update (cache n) (channel / 2) r.2) } })

/-- `sis3300_pt_cache_get()` -/
def sis3300PtCacheGet (env : FetchEnv) (hw : Banks) (card : Card Sis3300)
    (n : Nat) : Except Errno (List (BitVec 64)) × Card Sis3300 :=
  let segment := card.segments n
  let r := cacheGet segment.prevticks (ptCacheFill env hw segment n)
  (r.1, card.setSegment n { segment with prevticks := r.2 })

/-! ## Fetching -/

/-- Why a fetch stops: an error, or a read past the end of a cache. -/
inductive Stop
  | errno (e : Errno)
  | outside
  deriving DecidableEq, Repr

/-- A filled-in `struct sis33_acq` and the samples stored where its `data`
points. -/
structure Fetched where
  acq : Acq
  data : List (BitVec 16) := []
  deriving DecidableEq, Repr

/-- The channel's part of a word. -/
def sampleOf (channel : Nat) (word : BitVec 32) : BitVec 16 :=
  if channel % 2 = 1 then
    ((word &&& adc1DataMask) >>> adc1DataShift).setWidth 16
  else ((word &&& adc0DataMask) >>> adc0DataShift).setWidth 16

/-- The loop of `sis3300_read_event()` over the samples `j`, `j + 1`, … of an
event; `count` are left. -/
def storeSamples (putUser : Nat → Bool) (channel : Nat)
    (rawData : List (BitVec 32)) : Nat → Nat → List (BitVec 16) × Option Stop
  | _, 0 => ([], none)
  | j, count + 1 =>
    match rawData[j]? with
    | none => ([], some .outside)
    | some word =>
      if putUser j then
        let r := storeSamples putUser channel rawData (j + 1) count
        (sampleOf channel word :: r.1, r.2)
      else ([], some (.errno .efault))

/-- `sis3300_read_event()` -/
def sis3300ReadEvent (putUser : Nat → Bool) (acq : Acq) (channel : Nat)
    (rawData : List (BitVec 32)) (prevticks : BitVec 64) (event : Event) :
    Fetched × Option Stop :=
  let r := storeSamples putUser channel rawData 0 event.nrSamples.toNat
  (⟨{ acq with
      nrSamples := event.nrSamples
      firstSamp := event.firstSamp
      prevticks := prevticks
      be := 0 }, r.1⟩, r.2)

/-- The loop of `sis3300_fetch()` from event `i` on. The offset of an event's
words is a product of two `u32`. -/
def fetchLoop (putUser : Nat → Nat → Bool) (channel : Nat)
    (nrSampPerEv : BitVec 32) (events : List Event)
    (bouncebuf : List (BitVec 32)) (ptCache : List (BitVec 64)) :
    Nat → List Acq → List Fetched × Option Stop
  | _, [] => ([], none)
  | i, acq :: acqs =>
    match events[i]?, ptCache[i]? with
    | some event, some prevticks =>
      let offset := BitVec.ofNat 32 i * nrSampPerEv
      match sis3300ReadEvent (putUser i) acq channel
          (bouncebuf.drop offset.toNat) prevticks event with
      | (fetched, some stop) => ([fetched], some stop)
      | (fetched, none) =>
        let r := fetchLoop putUser channel nrSampPerEv events bouncebuf
          ptCache (i + 1) acqs
        (fetched :: r.1, r.2)
    | _, _ => ([], some .outside)

/-- `sis3300_fetch()` on the buffers `acqs`: what is stored, why it stopped,
and the card. -/
def sis3300Fetch (env : FetchEnv) (hw : Banks) (card : Card Sis3300)
    (n channel : Nat) (acqs : List Acq) :
    (List Fetched × Option Stop) × Card Sis3300 :=
  match sis3300EvcacheGet env hw card n with
  | (.error e, card) => (([], some (.errno e)), card)
  | (.ok events, card) =>
    match sis3300SampcacheGet env hw card n channel with
    | (.error e, card) => (([], some (.errno e)), card)
    | (.ok bouncebuf, card) =>
      match sis3300PtCacheGet env hw card n with
      | (.error e, card) => (([], some (.errno e)), card)
      | (.ok ptCache, card) =>
        (fetchLoop env.putUser channel (card.segments n).nrSampPerEv
          events bouncebuf ptCache 0 acqs, card)

/-- `sis33_fetch_ioctl()` by a client that runs alone: a segment that is
acquiring stays so, and the wait ends in an error. Returned are the number of
events and what was stored. -/
def sis3300FetchIoctl (env : FetchEnv) (hw : Banks) (d : Dev Sis3300)
    (list : AcqList) : Except Stop (Nat × List Fetched) × Dev Sis3300 :=
  if flagsClash list.flags || list.acqs.isEmpty then
    (.error (.errno .einval), d)
  else
    match fetchEnter d.card list with
    | .error e => (.error (.errno e), d)
    | .ok true =>
      (.error (.errno (if list.flags &&& acqfTimeout != 0 then .etime
        else if list.flags &&& acqfDontwait != 0 then .ebusy
        else .eintr)), d)
    | .ok false =>
      match fetchLocked d.card list with
      | .error e => (.error (.errno e), d)
      | .ok (nrEvents, card) =>
        let n := list.segment.toNat
        let r := sis3300Fetch env hw card n list.channel.toNat
          (list.acqs.take nrEvents)
        let d := { d with card := fetchDone r.2 n }
        match r.1 with
        | (fetched, none) => (.ok (nrEvents, fetched), d)
        | (_, some stop) => (.error stop, d)

/-! ## What ends an acquisition -/

section Flags

variable {d : Dev Sis3300} {r : IrqReading}

@[simp] theorem finishWith_curr (now : Nat) (nrEvents : BitVec 32)
    (d : Dev Sis3300) :
    (finishWith now nrEvents d).card.curr =
      { d.card.curr with
        nrEvents := nrEvents, endtime := now, acquiring := false } := by
  simp [finishWith, sis3300FinishAcquisition, Card.curr, Card.setSegment]

theorem doIrqEv_of_idle (h : d.card.curr.acquiring = false) :
    doIrqEv r d = d := by
  simp only [doIrqEv, h, Bool.and_false, Bool.false_eq_true, if_false]

theorem doIrqLev_of_idle (h : d.card.curr.acquiring = false) :
    doIrqLev r d = d := by
  simp only [doIrqLev, h, Bool.false_eq_true, if_false]

theorem sis3300DoIrq_of_idle (h : d.card.curr.acquiring = false) :
    sis3300DoIrq r d = d := by
  simp only [sis3300DoIrq, doIrqEv_of_idle h, doIrqLev_of_idle h, ite_self]

theorem sis3300AcqCancel_of_idle (h : d.card.curr.acquiring = false) :
    sis3300AcqCancel r d = d := by
  simp only [sis3300AcqCancel, h, Bool.false_eq_true, if_false]

/-- The event interrupt ends the acquisition by itself. -/
def EvEnds (reqEvents : BitVec 32) (r : IrqReading) : Prop :=
  r.statusEv = true ∧ (eventThreshold reqEvents r).sle r.counter = true

instance (reqEvents : BitVec 32) (r : IrqReading) :
    Decidable (EvEnds reqEvents r) :=
  inferInstanceAs (Decidable (_ ∧ _))

theorem sis3300DoIrq_of_acquiring (h : d.card.curr.acquiring = true) :
    sis3300DoIrq r d =
      if EvEnds d.card.privateData.reqEvents r then
        finishWith r.now d.card.privateData.reqEvents d
      else if r.statusLev = true then finishWith r.now r.counter d
      else d := by
  by_cases hev : EvEnds d.card.privateData.reqEvents r
  · have hends : doIrqEv r d =
        finishWith r.now d.card.privateData.reqEvents d := by
      simp [doIrqEv, hev.2, h]
    have hidle : (doIrqEv r d).card.curr.acquiring = false := by
      rw [hends, finishWith_curr]
    simp only [sis3300DoIrq, hev.1, if_true, doIrqLev_of_idle hidle, ite_self]
    rw [if_pos hev, hends]
  · have hgoes : (if r.statusEv then doIrqEv r d else d) = d := by
      by_cases hst : r.statusEv = true
      · have hsle : (eventThreshold d.card.privateData.reqEvents r).sle
            r.counter = false := by
          cases hs : (eventThreshold d.card.privateData.reqEvents r).sle
              r.counter with
          | false => rfl
          | true => exact absurd ⟨hst, hs⟩ hev
        simp [hst, doIrqEv, hsle]
      · rw [if_neg hst]
    rw [if_neg hev]
    simp only [sis3300DoIrq, hgoes]
    by_cases hlev : r.statusLev = true
    · simp [hlev, doIrqLev, h]
    · simp [hlev]

theorem sis3300AcqCancel_of_acquiring (h : d.card.curr.acquiring = true) :
    sis3300AcqCancel r d =
      finishWith r.now (if r.busy then r.counter - 1 else r.counter) d := by
  unfold sis3300AcqCancel
  rw [if_pos h]
  simp [finishWith, sis3300FinishAcquisition, Card.curr,
    Card.setSegment]

/-- What may end an acquisition leaves the device alone or ends it. -/
inductive EndsOrNot (d d' : Dev Sis3300) : Prop
  | same : d' = d → EndsOrNot d d'
  | ends (now : Nat) (nrEvents : BitVec 32) :
      d.card.curr.acquiring = true → d' = finishWith now nrEvents d →
      EndsOrNot d d'

theorem sis3300DoIrq_endsOrNot : EndsOrNot d (sis3300DoIrq r d) := by
  cases hacq : d.card.curr.acquiring with
  | false => exact .same (sis3300DoIrq_of_idle hacq)
  | true =>
    have hrun := @sis3300DoIrq_of_acquiring d r hacq
    split at hrun
    · exact .ends _ _ hacq hrun
    · split at hrun
      · exact .ends _ _ hacq hrun
      · exact .same hrun

theorem sis3300AcqCancel_endsOrNot : EndsOrNot d (sis3300AcqCancel r d) := by
  cases hacq : d.card.curr.acquiring with
  | false => exact .same (sis3300AcqCancel_of_idle hacq)
  | true => exact .ends _ _ hacq (sis3300AcqCancel_of_acquiring hacq)

end Flags

/-! ## What a start leaves -/

structure Started (d : Dev Sis3300) (desc : AcqDesc) (d₀ : Dev Sis3300) :
    Prop where
  accepted : Accepted d.card desc
  config : SameConfig d.card d₀.card
  currSegment : d₀.card.currSegment = desc.segment.toNat
  acquiring : (d₀.card.segments desc.segment.toNat).acquiring = true
  reqEvents : d₀.card.privateData.reqEvents = desc.nrEvents
  events : (d₀.card.segments desc.segment.toNat).events = .null
  prevticks : (d₀.card.segments desc.segment.toNat).prevticks = .null
  words : ∀ g, d₀.card.privateData.sampcache desc.segment.toNat g = .null
  others : ∀ m, m ≠ desc.segment.toNat →
    d₀.card.segments m = d.card.segments m ∧
      d₀.card.privateData.sampcache m = d.card.privateData.sampcache m

theorem sis3300Acquire_ok {d d₀ : Dev Sis3300} {desc : AcqDesc}
    (h : sis3300Acquire d desc = .ok d₀) : Started d desc d₀ := by
  unfold sis3300Acquire at h
  cases hlocked : acqStartLocked sis3300ConfEv d.card desc with
  | error e =>
    rw [hlocked] at h
    cases h
  | ok card =>
    rw [hlocked] at h
    cases h
    obtain ⟨hacc, configured, hconf, rfl⟩ := acqStartLocked_ok hlocked
    cases hconf
    have hne : ∀ m, m ≠ desc.segment.toNat →
        ∀ {α : Type} (f : Nat → α) (a b : α),
          Function.update (Function.update f desc.segment.toNat a)
            desc.segment.toNat b m = f m := by
      intro m hm α f a b
      rw [Function.update_of_ne hm, Function.update_of_ne hm]
    refine ⟨hacc, ⟨rfl, rfl, rfl, rfl, rfl, rfl⟩, rfl, ?_, rfl, ?_, ?_, ?_, ?_⟩
    · simp [sis3300AcqStart, sis3300CachesFree, acqStartStore,
        Card.setSegment]
    · simp [sis3300AcqStart, sis3300CachesFree, acqStartStore,
        Card.setSegment]
    · simp [sis3300AcqStart, sis3300CachesFree, acqStartStore,
        Card.setSegment]
    · intro g
      simp [sis3300AcqStart, sis3300CachesFree, acqStartStore]
    · intro m hm
      refine ⟨hne m hm _ _ _, ?_⟩
      show Function.update d.card.privateData.sampcache desc.segment.toNat
        (fun _ => .null) m = _
      rw [Function.update_of_ne hm]

/-! ## What a fetch keeps -/

section Fetch

variable {card card' : Card Sis3300} {env : FetchEnv} {hw : Banks}
  {n channel : Nat} {acqs : List Acq}

structure FetchFrame (n : Nat) (card card' : Card Sis3300) : Prop where
  flags : SameFlags card card'
  reqEvents : card'.privateData.reqEvents = card.privateData.reqEvents
  nrSampPerEv : ∀ m,
    (card'.segments m).nrSampPerEv = (card.segments m).nrSampPerEv
  nrEvents : ∀ m, (card'.segments m).nrEvents = (card.segments m).nrEvents
  others : ∀ m, m ≠ n → card'.segments m = card.segments m
  words : ∀ m, m ≠ n →
    card'.privateData.sampcache m = card.privateData.sampcache m

theorem FetchFrame.trans {card'' : Card Sis3300} (h : FetchFrame n card card')
    (h' : FetchFrame n card' card'') : FetchFrame n card card'' where
  flags := h.flags.trans h'.flags
  reqEvents := h'.reqEvents.trans h.reqEvents
  nrSampPerEv m := (h'.nrSampPerEv m).trans (h.nrSampPerEv m)
  nrEvents m := (h'.nrEvents m).trans (h.nrEvents m)
  others m hm := (h'.others m hm).trans (h.others m hm)
  words m hm := (h'.words m hm).trans (h.words m hm)

theorem setSegment_fetchFrame {segment : Segment}
    (hacq : segment.acquiring = (card.segments n).acquiring)
    (htr : segment.transferring = (card.segments n).transferring)
    (hlen : segment.nrSampPerEv = (card.segments n).nrSampPerEv)
    (hnr : segment.nrEvents = (card.segments n).nrEvents) :
    FetchFrame n card (card.setSegment n segment) where
  flags := setSegment_sameFlags hacq htr
  reqEvents := rfl
  nrSampPerEv m := by
    by_cases hm : m = n
    · rw [hm, setSegment_same, hlen]
    · rw [setSegment_of_ne hm]
  nrEvents m := by
    by_cases hm : m = n
    · rw [hm, setSegment_same, hnr]
    · rw [setSegment_of_ne hm]
  others m hm := setSegment_of_ne hm
  words _ _ := rfl

theorem evcacheGet_frame :
    FetchFrame n card (sis3300EvcacheGet env hw card n).2 :=
  setSegment_fetchFrame rfl rfl rfl rfl

theorem sampcacheGet_frame :
    FetchFrame n card (sis3300SampcacheGet env hw card n channel).2 where
  flags := ⟨⟨rfl, rfl, rfl, rfl, rfl, rfl⟩, rfl, fun _ => rfl, fun _ => rfl⟩
  reqEvents := rfl
  nrSampPerEv _ := rfl
  nrEvents _ := rfl
  others _ _ := rfl
  words _ hm := Function.update_of_ne hm _ _

theorem ptCacheGet_frame :
    FetchFrame n card (sis3300PtCacheGet env hw card n).2 :=
  setSegment_fetchFrame rfl rfl rfl rfl

theorem sis3300Fetch_frame :
    FetchFrame n card (sis3300Fetch env hw card n channel acqs).2 := by
  have hev := @evcacheGet_frame card env hw n
  unfold sis3300Fetch
  split
  next heq => rwa [heq] at hev
  next card₁ heq =>
    rw [heq] at hev
    have hsamp := @sampcacheGet_frame card₁ env hw n channel
    split
    next heq₁ =>
      rw [heq₁] at hsamp
      exact hev.trans hsamp
    next card₂ heq₁ =>
      rw [heq₁] at hsamp
      have hpt := @ptCacheGet_frame card₂ env hw n
      split
      all_goals
        next heq₂ =>
          rw [heq₂] at hpt
          exact (hev.trans hsamp).trans hpt

end Fetch

end Coht.Sis33
