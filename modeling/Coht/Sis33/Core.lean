import Mathlib.Algebra.Group.Nat.Defs
import Mathlib.Logic.Function.Basic

/-!
# The core of the digitizer drivers (`sis33_core.c`, `sis33_sysfs.c`)

A card owns an array of memory segments of which the first `nSegments` are
active. An acquisition fills one segment; when it has ended a client fetches
the events of one channel of it. The core checks what the clients ask for and
keeps the two flags of a segment, the driver of the card
(`sis3320.c`, `sis3300.c`) does the rest through its operations.

The ioctls drop the card's lock while they wait and while they transfer, so
each is split there. `acqStartLocked` is the section of
`sis33_acq_start_ioctl()` under the lock; `fetchEnter` is the first section of
`sis33_fetch_ioctl()`, `fetchLocked` what it goes on with when the segment is
not acquiring, at once or after the wait, and `fetchDone` the store after the
transfer. The private data of the driver is a parameter.
-/

namespace Coht.Sis33

/-- The error codes the drivers return, without the sign. -/
inductive Errno
  | efault
  | eintr
  | einval
  | enomem
  | ebusy
  | enodata
  | etime
  | eio
  deriving DecidableEq, Repr

/-- A kernel pointer: null, an `ERR_PTR()`, or the memory it leads to. -/
inductive Ptr (α : Type)
  | null
  | err (e : Errno)
  | mem (a : α)
  deriving DecidableEq, Repr

/-- `struct sis33_event` -/
structure Event where
  nrSamples : BitVec 32
  firstSamp : BitVec 32
  deriving DecidableEq, Repr

/-- `struct sis33_segment` -/
structure Segment where
  acquiring : Bool := false
  transferring : Bool := false
  nrSampPerEv : BitVec 32 := 0
  nrEvents : BitVec 32 := 0
  events : Ptr (List Event) := .null
  prevticks : Ptr (List (BitVec 64)) := .null
  endtime : Nat := 0
  deriving DecidableEq, Repr

/-- The fields of `struct sis33_card` that the acquisitions work on. -/
structure Card (P : Type) where
  privateData : P
  maxNrEvents : BitVec 32
  nChannels : Nat
  evLengths : List (BitVec 32)
  nSegmentsMax : Nat
  nSegmentsMin : Nat
  nSegments : Nat
  segments : Nat → Segment := fun _ => {}
  currSegment : Nat := 0

/-- A card with what an acquisition starts and ends in: the completion in the
driver's private data and the sampling logic of the module. -/
structure Dev (P : Type) where
  card : Card P
  completion : Bool := false
  armed : Bool := false

/-- `struct sis33_acq_desc` -/
structure AcqDesc where
  segment : BitVec 32
  nrEvents : BitVec 32
  evLength : BitVec 32
  flags : BitVec 32 := 0
  deriving DecidableEq, Repr

/-- `struct sis33_acq`; what `data` points to is the business of the drivers. -/
structure Acq where
  size : BitVec 32
  nrSamples : BitVec 32 := 0
  prevticks : BitVec 64 := 0
  firstSamp : BitVec 32 := 0
  be : BitVec 32 := 0
  deriving DecidableEq, Repr

/-- `struct sis33_acq_list`, with the array `acqs` points to; `n_acqs` is its
length. -/
structure AcqList where
  segment : BitVec 32
  channel : BitVec 32
  acqs : List Acq
  flags : BitVec 32 := 0
  deriving DecidableEq, Repr

def acqfDontwait : BitVec 32 := 1
def acqfTimeout : BitVec 32 := 2

/-- `DONTWAIT` and `TIMEOUT` cannot coexist. -/
def flagsClash (flags : BitVec 32) : Bool :=
  flags &&& acqfDontwait != 0 && flags &&& acqfTimeout != 0

section Core

variable {P : Type}

def Card.setSegment (card : Card P) (n : Nat) (segment : Segment) : Card P :=
  { card with segments := Function.update card.segments n segment }

/-- `sis33_is_acquiring()` -/
def isAcquiring (card : Card P) : Bool :=
  (List.range card.nSegments).any fun i => (card.segments i).acquiring

/-- `sis33_is_transferring()` -/
def isTransferring (card : Card P) : Bool :=
  (List.range card.nSegments).any fun i => (card.segments i).transferring

/-- The length the memory of a channel has, in samples. -/
def maxEvLength (card : Card P) : BitVec 32 := card.evLengths.headD 0

/-- `sis33_segment_max_nr_samples()` -/
def segmentMaxNrSamples (card : Card P) : BitVec 32 :=
  maxEvLength card /
    BitVec.ofNat 32 (card.nSegments / card.nSegmentsMin)

/-- `sis33_value_is_in_array()` -/
def valueIsInArray (array : List (BitVec 32)) (value : BitVec 32) : Bool :=
  array.contains value

/-- The segment `curr_segment` stands for. -/
def Card.curr (card : Card P) : Segment := card.segments card.currSegment

/-! ## Starting an acquisition -/

/-- The checks of `sis33_acq_start_ioctl()` under the lock. The product is the
one of two `u32`, in 32 bits. -/
def acqStartChecks (card : Card P) (desc : AcqDesc) : Except Errno Unit :=
  if desc.nrEvents > card.maxNrEvents then .error .einval
  else if card.nSegments ≤ desc.segment.toNat then .error .einval
  else if !valueIsInArray card.evLengths desc.evLength then .error .einval
  else if desc.nrEvents * desc.evLength > segmentMaxNrSamples card then
    .error .einval
  else if (card.segments desc.segment.toNat).transferring ||
      isAcquiring card then .error .ebusy
  else .ok ()

/-- What the section under the lock stores once `conf_ev` has succeeded. -/
def acqStartStore (desc : AcqDesc) (card : Card P) : Card P :=
  let n := desc.segment.toNat
  { card.setSegment n
      { card.segments n with acquiring := true, nrSampPerEv := desc.evLength }
    with currSegment := n }

/-- The section of `sis33_acq_start_ioctl()` under the card's lock. -/
def acqStartLocked (confEv : Card P → AcqDesc → Except Errno (Card P))
    (card : Card P) (desc : AcqDesc) : Except Errno (Card P) := do
  acqStartChecks card desc
  let card ← confEv card desc
  .ok (acqStartStore desc card)

/-! ## Fetching -/

/-- The length check of `sis33_check_acq_buffers()`, in bytes. -/
def checkAcqBuffers (segment : Segment) (acqs : List Acq) (n : Nat) :
    Except Errno Unit :=
  if (acqs.take n).any fun acq =>
      acq.size == 0 || acq.size.toNat != segment.nrSampPerEv.toNat * 2 then
    .error .einval
  else .ok ()

/-- The first section of `sis33_fetch_ioctl()`: whether the segment is
acquiring, so that the fetch has to wait. -/
def fetchEnter (card : Card P) (list : AcqList) : Except Errno Bool :=
  if card.nSegments ≤ list.segment.toNat ||
      card.nChannels ≤ list.channel.toNat then .error .einval
  else .ok (card.segments list.segment.toNat).acquiring

/-- From the second check of `acquiring` to the end of the section: the number
of events to transfer. -/
def fetchLocked (card : Card P) (list : AcqList) :
    Except Errno (Nat × Card P) := do
  let n := list.segment.toNat
  let segment := card.segments n
  if segment.acquiring || segment.transferring then .error .ebusy
  else
    let nrEvents := min segment.nrEvents.toNat list.acqs.length
    if nrEvents = 0 then .error .enodata
    else
      checkAcqBuffers segment list.acqs nrEvents
      .ok (nrEvents, card.setSegment n { segment with transferring := true })

/-- The store after the transfer. -/
def fetchDone (card : Card P) (n : Nat) : Card P :=
  card.setSegment n { card.segments n with transferring := false }

/-! ## The number of segments -/

/-- `fls_long()` -/
def flsLong (n : Nat) : Nat := if n = 0 then 0 else Nat.log2 n + 1

/-- `__roundup_pow_of_two()` -/
def roundupPowOfTwo (n : Nat) : Nat := 2 ^ flsLong (n - 1) % 2 ^ 64

/-- `sis33_store_n_segments()`, once the text is read as `segments`. -/
def storeNSegments (card : Card P) (segments : Int) :
    Except Errno (Card P) :=
  if segments < card.nSegmentsMin then .error .einval
  else if isAcquiring card || isTransferring card then .error .ebusy
  else
    let n := roundupPowOfTwo segments.toNat
    let n := if n = 0 then 1
      else if n > card.nSegmentsMax then card.nSegmentsMax else n
    .ok { card with nSegments := n }

/-- Two cards that differ at most in the state of the segments and in the
driver's private data. -/
structure SameConfig (card card' : Card P) : Prop where
  maxNrEvents : card'.maxNrEvents = card.maxNrEvents
  nChannels : card'.nChannels = card.nChannels
  evLengths : card'.evLengths = card.evLengths
  nSegmentsMax : card'.nSegmentsMax = card.nSegmentsMax
  nSegmentsMin : card'.nSegmentsMin = card.nSegmentsMin
  nSegments : card'.nSegments = card.nSegments

/-- Two cards with the same configuration and the same flags. -/
structure SameFlags (card card' : Card P) : Prop where
  config : SameConfig card card'
  currSegment : card'.currSegment = card.currSegment
  acquiring : ∀ m, (card'.segments m).acquiring = (card.segments m).acquiring
  transferring : ∀ m,
    (card'.segments m).transferring = (card.segments m).transferring

end Core

/-! ## What the sections keep -/

section Lemmas

variable {P : Type} {card card' : Card P} {desc : AcqDesc} {list : AcqList}
  {n m : Nat} {segment : Segment}

@[simp] theorem setSegment_same :
    (card.setSegment n segment).segments n = segment := by
  simp only [Card.setSegment, Function.update_self]

theorem setSegment_of_ne (h : m ≠ n) :
    (card.setSegment n segment).segments m = card.segments m := by
  simp only [Card.setSegment, Function.update_of_ne h]

theorem isAcquiring_eq_false :
    isAcquiring card = false ↔
      ∀ i < card.nSegments, (card.segments i).acquiring = false := by
  simp [isAcquiring, List.any_eq_false]

theorem SameConfig.refl (card : Card P) : SameConfig card card :=
  ⟨rfl, rfl, rfl, rfl, rfl, rfl⟩

theorem SameConfig.trans {card'' : Card P} (h : SameConfig card card')
    (h' : SameConfig card' card'') : SameConfig card card'' where
  maxNrEvents := h'.maxNrEvents.trans h.maxNrEvents
  nChannels := h'.nChannels.trans h.nChannels
  evLengths := h'.evLengths.trans h.evLengths
  nSegmentsMax := h'.nSegmentsMax.trans h.nSegmentsMax
  nSegmentsMin := h'.nSegmentsMin.trans h.nSegmentsMin
  nSegments := h'.nSegments.trans h.nSegments

theorem SameFlags.refl (card : Card P) : SameFlags card card :=
  ⟨SameConfig.refl card, rfl, fun _ => rfl, fun _ => rfl⟩

theorem SameFlags.trans {card'' : Card P} (h : SameFlags card card')
    (h' : SameFlags card' card'') : SameFlags card card'' where
  config := h.config.trans h'.config
  currSegment := h'.currSegment.trans h.currSegment
  acquiring m := (h'.acquiring m).trans (h.acquiring m)
  transferring m := (h'.transferring m).trans (h.transferring m)

theorem setSegment_sameFlags
    (hacq : segment.acquiring = (card.segments n).acquiring)
    (htr : segment.transferring = (card.segments n).transferring) :
    SameFlags card (card.setSegment n segment) where
  config := ⟨rfl, rfl, rfl, rfl, rfl, rfl⟩
  currSegment := rfl
  acquiring m := by
    by_cases hm : m = n
    · rw [hm, setSegment_same, hacq]
    · rw [setSegment_of_ne hm]
  transferring m := by
    by_cases hm : m = n
    · rw [hm, setSegment_same, htr]
    · rw [setSegment_of_ne hm]

theorem acqStartStore_sameConfig :
    SameConfig card (acqStartStore desc card) :=
  ⟨rfl, rfl, rfl, rfl, rfl, rfl⟩

/-- What a descriptor that passes the checks satisfies. -/
structure Accepted (card : Card P) (desc : AcqDesc) : Prop where
  nrEvents : desc.nrEvents.toNat ≤ card.maxNrEvents.toNat
  segment : desc.segment.toNat < card.nSegments
  evLength : desc.evLength ∈ card.evLengths
  fits : desc.nrEvents * desc.evLength ≤ segmentMaxNrSamples card
  quiet : (card.segments desc.segment.toNat).transferring = false
  idle : ∀ i < card.nSegments, (card.segments i).acquiring = false

theorem acqStartChecks_ok :
    acqStartChecks card desc = .ok () ↔ Accepted card desc := by
  unfold acqStartChecks valueIsInArray
  constructor
  · intro h
    split at h
    · cases h
    next hnr =>
    split at h
    · cases h
    next hseg =>
    split at h
    · cases h
    next hlen =>
    split at h
    · cases h
    next hfit =>
    split at h
    · cases h
    next hbusy =>
    rw [Bool.or_eq_true, not_or, Bool.not_eq_true, Bool.not_eq_true,
      isAcquiring_eq_false] at hbusy
    refine ⟨?_, by omega, ?_, BitVec.not_lt.mp hfit, hbusy.1, hbusy.2⟩
    · exact BitVec.le_def.mp (BitVec.not_lt.mp hnr)
    · simpa using hlen
  · intro h
    have hidle := isAcquiring_eq_false.mpr h.idle
    have hnr : ¬ desc.nrEvents > card.maxNrEvents :=
      BitVec.not_lt.mpr (BitVec.le_def.mpr h.nrEvents)
    have hlen : card.evLengths.contains desc.evLength = true := by
      simpa using h.evLength
    rw [if_neg hnr, if_neg (Nat.not_le.mpr h.segment), hlen,
      if_neg (by simp), if_neg (BitVec.not_lt.mpr h.fits), h.quiet, hidle]
    rfl

theorem acqStartLocked_ok
    {confEv : Card P → AcqDesc → Except Errno (Card P)}
    (h : acqStartLocked confEv card desc = .ok card') :
    Accepted card desc ∧ ∃ configured,
      confEv card desc = .ok configured ∧
        card' = acqStartStore desc configured := by
  unfold acqStartLocked at h
  cases hchecks : acqStartChecks card desc with
  | error e =>
    rw [hchecks] at h
    cases h
  | ok u =>
    rw [hchecks] at h
    cases hconf : confEv card desc with
    | error e =>
      simp only [hconf] at h
      cases h
    | ok configured =>
      simp only [hconf] at h
      cases h
      exact ⟨acqStartChecks_ok.mp hchecks, configured, rfl, rfl⟩

theorem fetchEnter_ok {waits : Bool} (h : fetchEnter card list = .ok waits) :
    list.segment.toNat < card.nSegments ∧
      list.channel.toNat < card.nChannels ∧
      waits = (card.segments list.segment.toNat).acquiring := by
  unfold fetchEnter at h
  split at h
  · cases h
  next hbad =>
    rw [Bool.or_eq_true, decide_eq_true_eq, decide_eq_true_eq, not_or] at hbad
    exact ⟨by omega, by omega, (Except.ok.inj h).symm⟩

structure FetchAccepted (card : Card P) (list : AcqList) (n : Nat)
    (card' : Card P) : Prop where
  acquiring : (card.segments list.segment.toNat).acquiring = false
  transferring : (card.segments list.segment.toNat).transferring = false
  nrEvents :
    n = min (card.segments list.segment.toNat).nrEvents.toNat list.acqs.length
  pos : 0 < n
  buffers : ∀ acq ∈ list.acqs.take n, acq.size.toNat =
    (card.segments list.segment.toNat).nrSampPerEv.toNat * 2
  stored : card' = card.setSegment list.segment.toNat
    { card.segments list.segment.toNat with transferring := true }

theorem checkAcqBuffers_ok {acqs : List Acq}
    (h : checkAcqBuffers segment acqs n = .ok ()) :
    ∀ acq ∈ acqs.take n, acq.size.toNat = segment.nrSampPerEv.toNat * 2 := by
  unfold checkAcqBuffers at h
  split at h
  · cases h
  next hall =>
    intro acq hacq
    by_contra hne
    apply hall
    rw [List.any_eq_true]
    exact ⟨acq, hacq, by simp [hne]⟩

theorem fetchLocked_ok (h : fetchLocked card list = .ok (n, card')) :
    FetchAccepted card list n card' := by
  unfold fetchLocked at h
  simp only at h
  split at h
  · cases h
  next hflags =>
  split at h
  · cases h
  next hpos =>
  rw [Bool.or_eq_true, not_or, Bool.not_eq_true, Bool.not_eq_true] at hflags
  cases hbuf : checkAcqBuffers (card.segments list.segment.toNat) list.acqs
      (min (card.segments list.segment.toNat).nrEvents.toNat
        list.acqs.length) with
  | error e =>
    rw [hbuf] at h
    cases h
  | ok u =>
    rw [hbuf] at h
    obtain ⟨rfl, rfl⟩ := Prod.mk.inj (Except.ok.inj h)
    exact ⟨hflags.1, hflags.2, rfl, Nat.pos_of_ne_zero hpos,
      checkAcqBuffers_ok hbuf, rfl⟩

theorem storeNSegments_idle {segments : Int}
    (h : storeNSegments card segments = .ok card') :
    (∀ i < card.nSegments, (card.segments i).acquiring = false) ∧
      ∃ n, card' = { card with nSegments := n } := by
  unfold storeNSegments at h
  split at h
  · cases h
  split at h
  · cases h
  next hbusy =>
    rw [Bool.or_eq_true, not_or, Bool.not_eq_true] at hbusy
    exact ⟨isAcquiring_eq_false.mp hbusy.1, _, (Except.ok.inj h).symm⟩

end Lemmas

end Coht.Sis33
