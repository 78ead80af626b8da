import Coht.Sis33.Capacity

/-!
# The sis3320 (`sis3320.c`)

An acquisition on the sis3320 ends in the interrupt work, which reads the event
counter, the event directory of every channel and, on the sis3302, the time
stamps into the record of the segment, or when it is cancelled, which writes
nothing there. A fetch delivers from the record and transfers the samples of
each event straight to the client. `IrqWork` is what the interrupt work meets:
the registers, and which allocations and transfers fail.

The pages of the module's memory window are given by number in a `Transfer`;
that the driver leaves out the selection of a page that is selected already
makes no difference to what is transferred.
-/

namespace Coht.Sis33

/-- `struct sis3320`: the version of the board, 200, 250 or 3302. -/
structure Sis3320 where
  version : Nat := 200

def evCounterMask : BitVec 32 := 0xfffff
def sis3320EvDirAddr : BitVec 32 := 0x1ffffff
def sis3320EvDirWrap : BitVec 32 := 0x10000000
def sis3302TstampUpperMask : BitVec 32 := 0xffff
def sis3320PageShift : Nat := 23
def sis3320PageSize : Nat := 0x800000
def sis3320PageSizeSamples : Nat := 0x400000
def adcMemPageMask : Nat := 0x7

/-! ## Starting and ending an acquisition -/

/-- `sis3320_conf_ev()` writes registers only. -/
def sis3320ConfEv (card : Card Sis3320) (_desc : AcqDesc) :
    Except Errno (Card Sis3320) :=
  .ok card

/-- `sis3320_acq_start()` -/
def sis3320AcqStart (d : Dev Sis3320) : Dev Sis3320 :=
  { d with completion := false, armed := true }

/-- `sis3320_acq_complete()` -/
def sis3320AcqComplete (d : Dev Sis3320) : Dev Sis3320 :=
  { d with
    card := d.card.setSegment d.card.currSegment
      { d.card.curr with acquiring := false }
    completion := true }

/-- `sis3320_acq_cancel()` -/
def sis3320AcqCancel (d : Dev Sis3320) : Dev Sis3320 :=
  sis3320AcqComplete { d with armed := false }

/-- An acquisition is started: the section of the core and `acq_start`. -/
def sis3320Acquire (d : Dev Sis3320) (desc : AcqDesc) :
    Except Errno (Dev Sis3320) := do
  let card ← acqStartLocked sis3320ConfEv d.card desc
  .ok (sis3320AcqStart { d with card := card })

/-! ## The interrupt work -/

/-- What the interrupt work reads from the module, and what fails. -/
structure IrqWork where
  statusLev : Bool := true
  now : Nat := 0
  counter : BitVec 32
  evDir : Nat → Nat → BitVec 32
  tstamps : Nat → BitVec 32 := fun _ => 0
  rawKmalloc : Bool := true
  eventsKcalloc : Bool := true
  dirDma : Nat → Bool := fun _ => true
  rawPtKmalloc : Bool := true
  ptKmalloc : Bool := true
  ptDma : Bool := true

/-- `sis3320_process_event()` for event `i`: the directory entry `reg` of an
event of `len` samples in a segment that begins at `base`. -/
def sis3320ProcessEvent (base len reg : BitVec 32) (i : Nat) : Event :=
  let nextSample := (reg &&& sis3320EvDirAddr) - BitVec.ofNat 32 i * len - base
  let nextSample := nextSample &&& ~~~3#32
  if reg &&& sis3320EvDirWrap != 0 then ⟨len, nextSample⟩ else ⟨nextSample, 0⟩

/-- The events of all channels, those of a channel side by side. -/
def sis3320Events (w : IrqWork) (base len : BitVec 32) (channels n : Nat) :
    List Event :=
  (List.range channels).flatMap fun channel =>
    (List.range n).map fun i =>
      sis3320ProcessEvent base len (w.evDir channel i) i

/-- The number of events the counter shows. -/
def IrqWork.nrEvents (w : IrqWork) : BitVec 32 := w.counter &&& evCounterMask

/-- The events of the last acquisition are freed. -/
def dropEvents (segment : Segment) : Segment :=
  match segment.events with
  | .mem _ => { segment with events := .null, nrEvents := 0 }
  | .null | .err _ => segment

/-- What `sis3320_read_segment()` makes of the record of a segment that begins
at `base`. -/
def segmentRead (w : IrqWork) (base : BitVec 32) (channels : Nat)
    (segment : Segment) : Segment :=
  let segment := { dropEvents segment with nrEvents := w.nrEvents }
  if segment.nrEvents = 0 then segment
  else if !w.rawKmalloc then { segment with events := .err .enomem }
  else if !w.eventsKcalloc then { segment with events := .err .enomem }
  else if (List.range channels).all w.dirDma then
    { segment with
      events := .mem (sis3320Events w base segment.nrSampPerEv channels
        segment.nrEvents.toNat) }
  else { segment with events := .null, nrEvents := 0 }

/-- `sis3320_read_segment()` -/
def sis3320ReadSegment (w : IrqWork) (card : Card Sis3320) (n : Nat) :
    Card Sis3320 :=
  card.setSegment n
    (segmentRead w (sis3320GetSegmentBase card n) card.nChannels
      (card.segments n))

/-- `sis3302_pt_cache_fill()`: two words a time stamp, the upper one first. -/
def sis3302PtCacheFill (raw : Nat → BitVec 32) (n : Nat) :
    List (BitVec 64) :=
  (List.range n).map fun i =>
    (raw (i * 2) &&& sis3302TstampUpperMask).setWidth 64 <<< 32 |||
      (raw (i * 2 + 1)).setWidth 64

/-- `sis3302_pt_cache_normalize()`, which subtracts the first element from each
in place, the first one included. -/
def sis3302PtCacheNormalize (ptCache : List (BitVec 64)) : List (BitVec 64) :=
  (List.range ptCache.length).foldl
    (fun pt i => pt.set i (pt.getD i 0 - pt.getD 0 0)) ptCache

/-- What `sis3320_read_prevticks()` makes of the record of a segment. -/
def segmentPrevticks (w : IrqWork) (version : Nat) (segment : Segment) :
    Segment :=
  if version ≠ 3302 ∨ segment.nrEvents = 0 then segment
  else
    { segment with
      prevticks :=
        if !w.rawPtKmalloc then .err .enomem
        else if !w.ptKmalloc then .err .enomem
        else if !w.ptDma then .null
        else .mem (sis3302PtCacheNormalize
          (sis3302PtCacheFill w.tstamps segment.nrEvents.toNat)) }

/-- `sis3320_read_prevticks()` -/
def sis3320ReadPrevticks (w : IrqWork) (card : Card Sis3320) (n : Nat) :
    Card Sis3320 :=
  card.setSegment n
    (segmentPrevticks w card.privateData.version (card.segments n))

/-- `sis3320_irq_work()` -/
def sis3320IrqWork (w : IrqWork) (d : Dev Sis3320) : Dev Sis3320 :=
  if w.statusLev then
    let n := d.card.currSegment
    let card := d.card.setSegment n { d.card.segments n with endtime := w.now }
    let card := sis3320ReadSegment w card n
    let card := sis3320ReadPrevticks w card n
    sis3320AcqComplete { d with card := card }
  else d

/-! ## Fetching -/

/-- A block transfer: the memory page, the offset in it, the number of bytes
and the offset in the client's buffer. -/
structure Transfer where
  page : Nat
  offset : Nat
  size : Nat
  bufOffset : Nat
  deriving DecidableEq, Repr

/-- `sis3320_get_data_smallpage()` with the offset of `sis3320_get_offset()`,
the arithmetic in 32 bits. -/
def getDataSmallpage (base len : BitVec 32) (size i : Nat) : List Transfer :=
  let offset := base * 2 + BitVec.ofNat 32 i * (len * 2)
  [⟨offset.toNat >>> sis3320PageShift &&& adcMemPageMask,
    offset.toNat % sis3320PageSize, size, 0⟩]

/-- `sis3320_get_data_bigpage()` -/
def getDataBigpage (base len : BitVec 32) (i : Nat) : List Transfer :=
  let first := (base + BitVec.ofNat 32 i * len) * 2
  let page0 := first.toNat >>> sis3320PageShift
  (List.range (len.toNat / sis3320PageSizeSamples)).map fun k =>
    ⟨page0 + k &&& adcMemPageMask, 0, sis3320PageSize, k * sis3320PageSize⟩

/-- `sis3320_get_data()` for event `i` -/
def sis3320GetData (base len : BitVec 32) (size i : Nat) : List Transfer :=
  if len.toNat ≤ sis3320PageSizeSamples then getDataSmallpage base len size i
  else getDataBigpage base len i

/-- A filled-in `struct sis33_acq` and the transfers of its samples. -/
structure Delivered where
  acq : Acq
  transfers : List Transfer
  deriving DecidableEq, Repr

/-- The events of a segment, or why `sis3320_read_event()` has none. -/
def segmentEvents (segment : Segment) : Except Errno (List Event) :=
  if segment.nrEvents = 0 then .error .enodata
  else
    match segment.events with
    | .null => .error .enodata
    | .err e => .error e
    | .mem events => .ok events

/-- The time stamp of event `i`, zero where there are none. -/
def segmentTick (segment : Segment) (i : Nat) : Except Errno (BitVec 64) :=
  match segment.prevticks with
  | .err e => .error e
  | .null => .ok 0
  | .mem ticks => .ok (ticks.getD i 0)

/-- `sis3320_read_event()`; whether the transfer of the samples succeeds is
`dma`. -/
def sis3320ReadEvent (dma : Except Errno Unit) (card : Card Sis3320) (n : Nat)
    (acq : Acq) (channel i : Nat) : Except Errno Delivered := do
  let segment := card.segments n
  let events ← segmentEvents segment
  let tick ← segmentTick segment i
  let event := events.getD (channel * segment.nrEvents.toNat + i) ⟨0, 0⟩
  dma
  .ok ⟨{ acq with
      nrSamples := event.nrSamples
      firstSamp := event.firstSamp
      prevticks := tick
      be := 1 },
    sis3320GetData (sis3320GetSegmentBase card n) segment.nrSampPerEv
      acq.size.toNat i⟩

/-- `sis3320_fetch()` from event `i` on. -/
def sis3320Fetch (dma : Nat → Except Errno Unit) (card : Card Sis3320)
    (n channel : Nat) : Nat → List Acq → Except Errno (List Delivered)
  | _, [] => .ok []
  | i, acq :: acqs => do
      let f ← sis3320ReadEvent (dma i) card n acq channel i
      let fs ← sis3320Fetch dma card n channel (i + 1) acqs
      .ok (f :: fs)

/-- `sis33_fetch_ioctl()` by a client that runs alone: a segment that is
acquiring stays so, and the wait ends in an error. Returned are the number of
events and what was delivered. -/
def sis3320FetchIoctl (dma : Nat → Except Errno Unit) (d : Dev Sis3320)
    (list : AcqList) : Except Errno (Nat × List Delivered) × Dev Sis3320 :=
  if flagsClash list.flags || list.acqs.isEmpty then (.error .einval, d)
  else
    match fetchEnter d.card list with
    | .error e => (.error e, d)
    | .ok true =>
      (.error (if list.flags &&& acqfTimeout != 0 then .etime
        else if list.flags &&& acqfDontwait != 0 then .ebusy
        else .eintr), d)
    | .ok false =>
      match fetchLocked d.card list with
      | .error e => (.error e, d)
      | .ok (nrEvents, card) =>
        let n := list.segment.toNat
        let r := sis3320Fetch dma card n list.channel.toNat 0
          (list.acqs.take nrEvents)
        (r.map fun fs => (nrEvents, fs),
          { d with card := fetchDone card n })

end Coht.Sis33
