import Coht.Lib.System
import Coht.Sis33.EventCount

/-!
# Cached fetches on the sis3300

A fetch takes the event directory, the words of the channel's group and the
time stamps from what an earlier fetch has kept, or reads them from the module
and keeps them. `SegCaches` is the invariant: each of the three is empty or what
a read of the module's bank would give now. It survives the acquisitions
because only the bank of the acquiring segment is written, whose caches
`acq_start` has dropped; and it survives failing allocations and transfers
because nothing is kept of those.

So a successful fetch is the fetch of a driver without caches, of the bank as
the last acquisition left it (`cached_fetch_direct`). The samples are the
12 bits that the sis3300 converts, where the word's half has 14 bits in the
layout of the sis3301 (`not_fourteen_bits`). The driver takes the sample count of
an event from the directory unchecked: it stays within the client's buffer when
it is at most the length of an event.
-/

namespace Coht.Sis33

open Coht.Lib

/-- The banks agree in what belongs to bank `n`. -/
structure SameBank (n : Nat) (hw hw' : Banks) : Prop where
  evDir : hw'.evDir n = hw.evDir n
  evTstamp : hw'.evTstamp n = hw.evTstamp n
  memory : ∀ a, n * 0x80000 ≤ a → a < (n + 1) * 0x80000 →
    hw'.memory a = hw.memory a

/-- The driver and the module, with the banks as they were when the last
acquisition on a segment ended. -/
structure Sis3300State where
  dev : Dev Sis3300
  hw : Banks
  filled : Nat → Banks

inductive Sis3300Event
  | acquire (desc : AcqDesc)
  /-- The module samples: the bank of the acquiring segment changes. -/
  | sampled (hw : Banks)
  | irq (r : IrqReading)
  | cancel (r : IrqReading)
  | fetch (env : FetchEnv) (list : AcqList)

/-- An operation that may end the acquisition leaves the device `d`. -/
def Sis3300State.ended (s : Sis3300State) (d : Dev Sis3300) : Sis3300State where
  dev := d
  hw := s.hw
  filled :=
    if s.dev.card.curr.acquiring && !d.card.curr.acquiring then
      Function.update s.filled s.dev.card.currSegment s.hw
    else s.filled

/-- Each operation runs to its end. -/
inductive Sis3300Step : Sis3300State → Sis3300Event → Sis3300State → Prop
  | acquire {s : Sis3300State} {desc : AcqDesc} {d : Dev Sis3300} :
      sis3300Acquire s.dev desc = .ok d →
      Sis3300Step s (.acquire desc) { s with dev := d }
  | refused {s : Sis3300State} {desc : AcqDesc} {e : Errno} :
      sis3300Acquire s.dev desc = .error e →
      Sis3300Step s (.acquire desc) s
  | sampled {s : Sis3300State} {hw : Banks} :
      s.dev.card.curr.acquiring = true →
      (∀ m, m ≠ s.dev.card.currSegment → SameBank m s.hw hw) →
      Sis3300Step s (.sampled hw) { s with hw := hw }
  | irq {s : Sis3300State} (r : IrqReading) :
      Sis3300Step s (.irq r) (s.ended (sis3300DoIrq r s.dev))
  | cancel {s : Sis3300State} (r : IrqReading) :
      Sis3300Step s (.cancel r) (s.ended (sis3300AcqCancel r s.dev))
  | fetch {s : Sis3300State} (env : FetchEnv) (list : AcqList) :
      Sis3300Step s (.fetch env list)
        { s with dev := (sis3300FetchIoctl env s.hw s.dev list).2 }

/-- A sis3300 after `sis3300_probe()`, whatever its banks hold. -/
def sis3300System (evLengths : List (BitVec 32)) :
    System Sis3300State Sis3300Event where
  init s := ∃ hw, s = ⟨⟨sis3300Probe evLengths, false, false⟩, hw, fun _ => hw⟩
  step := Sis3300Step

/-- The events that were counted have their samples in the bank. -/
def FitsBank (segment : Segment) : Prop :=
  segment.nrEvents.toNat * segment.nrSampPerEv.toNat ≤ 0x20000

def CacheOf {α : Type} (cache : Ptr α) (direct : α) : Prop :=
  cache = .null ∨ cache = .mem direct

structure SegCaches (hw : Banks) (card : Card Sis3300) (n : Nat) : Prop where
  events : CacheOf (card.segments n).events (eventsOf hw (card.segments n) n)
  prevticks :
    CacheOf (card.segments n).prevticks (ticksOf hw (card.segments n) n)
  words : ∀ channel < 8, FitsBank (card.segments n) →
    CacheOf (card.privateData.sampcache n (channel / 2))
      (wordsOf hw (card.segments n) n channel)

structure NoCaches (card : Card Sis3300) (n : Nat) : Prop where
  events : (card.segments n).events = .null
  prevticks : (card.segments n).prevticks = .null
  words : ∀ g, card.privateData.sampcache n g = .null

/-- Event `i` as a driver without caches delivers it in the buffer `acq`. -/
def directFetched (hw : Banks) (segment : Segment) (n channel i : Nat)
    (acq : Acq) : Fetched :=
  let event := sis3300ProcessRawEvent segment (hw.evDir n i) i
  let first := memBank n channel + i * segment.nrSampPerEv.toNat
  ⟨{ acq with
      nrSamples := event.nrSamples
      firstSamp := event.firstSamp
      prevticks := (hw.evTstamp n i &&& evTstampMask).setWidth 64
      be := 0 },
    (List.range event.nrSamples.toNat).map fun j =>
      sampleOf channel (hw.memory (first + j))⟩

/-- Only the current segment acquires, without caches; every other segment has
the bank its last acquisition left, and caches of that. -/
structure CachesInv (s : Sis3300State) : Prop where
  nSegments : s.dev.card.nSegments = 2
  nChannels : s.dev.card.nChannels = 8
  active : ∀ m, (s.dev.card.segments m).acquiring = true →
    m < s.dev.card.nSegments
  current : ∀ m, (s.dev.card.segments m).acquiring = true →
    m = s.dev.card.currSegment
  dropped : ∀ m, (s.dev.card.segments m).acquiring = true →
    NoCaches s.dev.card m
  caches : ∀ m, SegCaches s.hw s.dev.card m
  filled : ∀ m, (s.dev.card.segments m).acquiring = false →
    SameBank m (s.filled m) s.hw

section Caches

variable {hw hw' : Banks} {card card' : Card Sis3300} {segment : Segment}
  {n m channel : Nat} {env : FetchEnv} {acqs : List Acq}
  {s s' : Sis3300State} {d d' : Dev Sis3300} {desc : AcqDesc} {list : AcqList}
  {e : Sis3300Event} {r : IrqReading}

/-! ## What a bank gives -/

theorem SameBank.refl (n : Nat) (hw : Banks) : SameBank n hw hw :=
  ⟨rfl, rfl, fun _ _ _ => rfl⟩

theorem SameBank.trans {hw'' : Banks} (h : SameBank n hw hw')
    (h' : SameBank n hw' hw'') : SameBank n hw hw'' where
  evDir := h'.evDir.trans h.evDir
  evTstamp := h'.evTstamp.trans h.evTstamp
  memory a hlo hhi := (h'.memory a hlo hhi).trans (h.memory a hlo hhi)

theorem SameBank.eventsOf (h : SameBank n hw hw') :
    eventsOf hw' segment n = eventsOf hw segment n := by
  unfold Sis33.eventsOf
  rw [h.evDir]

theorem SameBank.ticksOf (h : SameBank n hw hw') :
    ticksOf hw' segment n = ticksOf hw segment n := by
  unfold Sis33.ticksOf
  rw [h.evTstamp]

theorem memBank_add_mem (hch : channel < 8) {i : Nat} (hi : i < 0x20000) :
    n * 0x80000 ≤ memBank n channel + i ∧
      memBank n channel + i < (n + 1) * 0x80000 := by
  unfold memBank
  have hg : channel / 2 ≤ 3 := by omega
  omega

theorem FitsBank.product (h : FitsBank segment) :
    (segment.nrEvents * segment.nrSampPerEv).toNat =
      segment.nrEvents.toNat * segment.nrSampPerEv.toNat := by
  unfold FitsBank at h
  rw [BitVec.toNat_mul]
  exact Nat.mod_eq_of_lt (by omega)

theorem SameBank.wordsOf (h : SameBank n hw hw') (hch : channel < 8)
    (hfits : FitsBank segment) :
    wordsOf hw' segment n channel = wordsOf hw segment n channel := by
  unfold Sis33.wordsOf
  apply List.map_congr_left
  intro i hi
  rw [sampleWords, List.mem_range, hfits.product] at hi
  have hmem := memBank_add_mem (n := n) hch (Nat.lt_of_lt_of_le hi hfits)
  exact h.memory _ hmem.1 hmem.2

theorem CacheOf.null {α : Type} {direct : α} : CacheOf .null direct :=
  Or.inl rfl

theorem NoCaches.segCaches (h : NoCaches card n) : SegCaches hw card n where
  events := by
    rw [h.events]
    exact CacheOf.null
  prevticks := by
    rw [h.prevticks]
    exact CacheOf.null
  words channel _ _ := by
    rw [h.words]
    exact CacheOf.null

theorem SegCaches.bank (h : SegCaches hw card n) (hb : SameBank n hw hw') :
    SegCaches hw' card n where
  events := by
    rw [hb.eventsOf]
    exact h.events
  prevticks := by
    rw [hb.ticksOf]
    exact h.prevticks
  words channel hch hfits := by
    rw [hb.wordsOf hch hfits]
    exact h.words channel hch hfits

theorem SegCaches.congr (h : SegCaches hw card n)
    (hev : (card'.segments n).events = (card.segments n).events)
    (hpt : (card'.segments n).prevticks = (card.segments n).prevticks)
    (hnr : (card'.segments n).nrEvents = (card.segments n).nrEvents)
    (hlen : (card'.segments n).nrSampPerEv = (card.segments n).nrSampPerEv)
    (hwords : card'.privateData.sampcache n = card.privateData.sampcache n) :
    SegCaches hw card' n := by
  have heventsOf : eventsOf hw (card'.segments n) n =
      eventsOf hw (card.segments n) n := by
    simp only [eventsOf, dirEntries, sis3300ProcessRawEvent, hnr, hlen]
  have hticksOf : ticksOf hw (card'.segments n) n =
      ticksOf hw (card.segments n) n := by
    simp only [ticksOf, dirEntries, hnr]
  have hwordsOf : ∀ channel, wordsOf hw (card'.segments n) n channel =
      wordsOf hw (card.segments n) n channel := by
    intro channel
    simp only [wordsOf, sampleWords, hnr, hlen]
  have hfits : FitsBank (card'.segments n) = FitsBank (card.segments n) := by
    unfold FitsBank
    rw [hnr, hlen]
  refine ⟨?_, ?_, ?_⟩
  · rw [hev, heventsOf]
    exact h.events
  · rw [hpt, hticksOf]
    exact h.prevticks
  · rw [hfits, hwords]
    intro channel hch hf
    rw [hwordsOf]
    exact h.words channel hch hf

/-! ## What a fetch gives -/

theorem cacheGet_spec {α : Type} {cache : Ptr α} {fill : Except Errno α}
    {direct : α} (hc : CacheOf cache direct)
    (hfill : ∀ a, fill = .ok a → a = direct) :
    CacheOf (cacheGet cache fill).2 direct ∧
      ∀ a, (cacheGet cache fill).1 = .ok a → a = direct := by
  rcases hc with rfl | rfl
  · cases hf : fill with
    | error e => exact ⟨Or.inl rfl, fun a ha => by cases ha⟩
    | ok a =>
      have ha := hfill a hf
      refine ⟨Or.inr (by rw [← ha]; rfl), ?_⟩
      intro b hb
      cases hb
      exact ha
  · refine ⟨Or.inr rfl, ?_⟩
    intro a ha
    cases ha
    rfl

theorem evcacheFill_ok {ev : List Event}
    (h : evcacheFill env hw segment n = .ok ev) :
    ev = eventsOf hw segment n := by
  unfold evcacheFill at h
  split at h
  · cases h
  split at h
  · cases h
  split at h
  · cases h
  · exact (Except.ok.inj h).symm

theorem sampcacheFill_ok {words : List (BitVec 32)}
    (h : sampcacheFill env hw segment n channel = .ok words) :
    words = wordsOf hw segment n channel := by
  unfold sampcacheFill at h
  split at h
  · cases h
  split at h
  · cases h
  · exact (Except.ok.inj h).symm

theorem ptCacheFill_ok {ticks : List (BitVec 64)}
    (h : ptCacheFill env hw segment n = .ok ticks) :
    ticks = ticksOf hw segment n := by
  unfold ptCacheFill at h
  split at h
  · cases h
  split at h
  · cases h
  · exact (Except.ok.inj h).symm

theorem SegCaches.setSegment_of_ne (h : SegCaches hw card m) (hm : m ≠ n) :
    SegCaches hw (card.setSegment n segment) m := by
  have hseg : (card.setSegment n segment).segments m = card.segments m :=
    Sis33.setSegment_of_ne hm
  exact h.congr (by rw [hseg]) (by rw [hseg]) (by rw [hseg]) (by rw [hseg]) rfl

theorem evcacheGet_spec (h : ∀ m, SegCaches hw card m) :
    (∀ m, SegCaches hw (sis3300EvcacheGet env hw card n).2 m) ∧
      ∀ ev, (sis3300EvcacheGet env hw card n).1 = .ok ev →
        ev = eventsOf hw (card.segments n) n := by
  have hget := cacheGet_spec (h n).events
    (fun ev => @evcacheFill_ok hw (card.segments n) n env ev)
  refine ⟨?_, hget.2⟩
  intro m
  by_cases hm : m = n
  · subst hm
    unfold sis3300EvcacheGet
    refine ⟨?_, ?_, ?_⟩
    · simp only [setSegment_same]
      exact hget.1
    · simp only [setSegment_same]
      exact (h m).prevticks
    · simp only [setSegment_same]
      exact (h m).words
  · exact (h m).setSegment_of_ne hm

theorem ptCacheGet_spec (h : ∀ m, SegCaches hw card m) :
    (∀ m, SegCaches hw (sis3300PtCacheGet env hw card n).2 m) ∧
      ∀ ticks, (sis3300PtCacheGet env hw card n).1 = .ok ticks →
        ticks = ticksOf hw (card.segments n) n := by
  have hget := cacheGet_spec (h n).prevticks
    (fun ticks => @ptCacheFill_ok hw (card.segments n) n env ticks)
  refine ⟨?_, hget.2⟩
  intro m
  by_cases hm : m = n
  · subst hm
    unfold sis3300PtCacheGet
    refine ⟨?_, ?_, ?_⟩
    · simp only [setSegment_same]
      exact (h m).events
    · simp only [setSegment_same]
      exact hget.1
    · simp only [setSegment_same]
      exact (h m).words
  · exact (h m).setSegment_of_ne hm

theorem wordsOf_group {channel' : Nat} (h : channel' / 2 = channel / 2) :
    wordsOf hw segment n channel' = wordsOf hw segment n channel := by
  simp only [wordsOf, memBank, h]

theorem sampcacheGet_spec (h : ∀ m, SegCaches hw card m) (hch : channel < 8) :
    (∀ m, SegCaches hw (sis3300SampcacheGet env hw card n channel).2 m) ∧
      ∀ words, (sis3300SampcacheGet env hw card n channel).1 = .ok words →
        FitsBank (card.segments n) →
          words = wordsOf hw (card.segments n) n channel := by
  have hget := fun hfits => cacheGet_spec ((h n).words channel hch hfits)
    (fun words => @sampcacheFill_ok hw (card.segments n) n channel env words)
  refine ⟨?_, fun words hw hfits => (hget hfits).2 words hw⟩
  intro m
  refine ⟨(h m).events, (h m).prevticks, ?_⟩
  intro channel' hch' hfits
  simp only [sis3300SampcacheGet]
  by_cases hm : m = n
  · subst hm
    rw [Function.update_self]
    by_cases hg : channel' / 2 = channel / 2
    · rw [hg, Function.update_self, wordsOf_group hg]
      exact (hget hfits).1
    · rw [Function.update_of_ne hg]
      exact (h m).words channel' hch' hfits
  · rw [Function.update_of_ne hm]
    exact (h m).words channel' hch' hfits

theorem sis3300Fetch_spec (h : ∀ m, SegCaches hw card m) (hch : channel < 8) :
    (∀ m, SegCaches hw (sis3300Fetch env hw card n channel acqs).2 m) ∧
      ∀ fetched,
        (sis3300Fetch env hw card n channel acqs).1 = (fetched, none) →
        FitsBank (card.segments n) →
          fetchLoop env.putUser channel (card.segments n).nrSampPerEv
            (eventsOf hw (card.segments n) n)
            (wordsOf hw (card.segments n) n channel)
            (ticksOf hw (card.segments n) n) 0 acqs = (fetched, none) := by
  have hev := @evcacheGet_spec hw card n env h
  have hevFrame := @evcacheGet_frame card env hw n
  unfold sis3300Fetch
  split
  next heq =>
    rw [heq] at hev
    exact ⟨hev.1, fun _ hr => by cases hr⟩
  next events card₁ heq =>
    rw [heq] at hev hevFrame
    replace hevFrame : FetchFrame n card card₁ := hevFrame
    have hsamp := @sampcacheGet_spec hw card₁ n channel env hev.1 hch
    have hsampFrame := @sampcacheGet_frame card₁ env hw n channel
    split
    next heq₁ =>
      rw [heq₁] at hsamp
      exact ⟨hsamp.1, fun _ hr => by cases hr⟩
    next words card₂ heq₁ =>
      rw [heq₁] at hsamp hsampFrame
      replace hsampFrame : FetchFrame n card₁ card₂ := hsampFrame
      have hpt := @ptCacheGet_spec hw card₂ n env hsamp.1
      have hptFrame := @ptCacheGet_frame card₂ env hw n
      split
      next heq₂ =>
        rw [heq₂] at hpt
        exact ⟨hpt.1, fun _ hr => by cases hr⟩
      next ticks card₃ heq₂ =>
        rw [heq₂] at hpt hptFrame
        replace hptFrame : FetchFrame n card₂ card₃ := hptFrame
        refine ⟨hpt.1, ?_⟩
        intro fetched hr hfits
        have hframe := hevFrame.trans hsampFrame
        have hfits₁ : FitsBank (card₁.segments n) := by
          unfold FitsBank at hfits ⊢
          rwa [hevFrame.nrEvents, hevFrame.nrSampPerEv]
        have hwords : words = wordsOf hw (card.segments n) n channel := by
          rw [hsamp.2 words rfl hfits₁]
          simp only [wordsOf, sampleWords, hevFrame.nrEvents,
            hevFrame.nrSampPerEv]
        have hticks : ticks = ticksOf hw (card.segments n) n := by
          rw [hpt.2 ticks rfl]
          simp only [ticksOf, dirEntries, hframe.nrEvents]
        rw [← hev.2 events rfl, ← hwords, ← hticks]
        rwa [(hframe.trans hptFrame).nrSampPerEv] at hr

theorem storeSamples_ok {putUser : Nat → Bool} {rawData : List (BitVec 32)} :
    ∀ {count j : Nat} {data : List (BitVec 16)},
      storeSamples putUser channel rawData j count = (data, none) →
      data.length = count ∧ ∀ k < count, ∃ word,
        rawData[j + k]? = some word ∧
          data[k]? = some (sampleOf channel word) := by
  intro count
  induction count with
  | zero =>
    intro j data h
    cases h
    exact ⟨rfl, fun k hk => absurd hk (Nat.not_lt_zero k)⟩
  | succ count ih =>
    intro j data h
    rw [storeSamples] at h
    split at h
    · cases h
    next word hword =>
    split at h
    · cases hrest : storeSamples putUser channel rawData (j + 1) count with
      | mk rest stop =>
        rw [hrest] at h
        obtain ⟨rfl, rfl⟩ := Prod.mk.inj h
        obtain ⟨hlen, hdata⟩ := ih hrest
        refine ⟨by rw [List.length_cons, hlen], ?_⟩
        intro k hk
        cases k with
        | zero => exact ⟨word, hword, rfl⟩
        | succ k =>
          obtain ⟨w, hw, hk'⟩ := hdata k (by omega)
          refine ⟨w, ?_, hk'⟩
          rw [← hw]
          congr 1
          omega
    · cases h

theorem fetchLoop_ok {putUser : Nat → Nat → Bool} {nrSampPerEv : BitVec 32}
    {events : List Event} {words : List (BitVec 32)}
    {ticks : List (BitVec 64)} :
    ∀ {acqs : List Acq} {i : Nat} {fetched : List Fetched},
      fetchLoop putUser channel nrSampPerEv events words ticks i acqs =
        (fetched, none) →
      fetched.length = acqs.length ∧ ∀ k acq, acqs[k]? = some acq →
        ∃ event tick f, events[i + k]? = some event ∧
          ticks[i + k]? = some tick ∧ fetched[k]? = some f ∧
          sis3300ReadEvent (putUser (i + k)) acq channel
            (words.drop (BitVec.ofNat 32 (i + k) * nrSampPerEv).toNat) tick
            event = (f, none) := by
  intro acqs
  induction acqs with
  | nil =>
    intro i fetched h
    cases h
    exact ⟨rfl, fun k acq hk => by cases hk⟩
  | cons acq acqs ih =>
    intro i fetched h
    rw [fetchLoop] at h
    split at h
    next event tick hevent htick =>
      simp only at h
      split at h
      · cases h
      next f hf =>
        cases hrest : fetchLoop putUser channel nrSampPerEv events words
            ticks (i + 1) acqs with
        | mk rest stop =>
          rw [hrest] at h
          obtain ⟨rfl, rfl⟩ := Prod.mk.inj h
          obtain ⟨hlen, hread⟩ := ih hrest
          refine ⟨by rw [List.length_cons, List.length_cons, hlen], ?_⟩
          intro k acq' hk
          cases k with
          | zero =>
            cases hk
            exact ⟨event, tick, f, hevent, htick, rfl, hf⟩
          | succ k =>
            have hadd : i + 1 + k = i + (k + 1) := by omega
            have hnext := hread k acq' hk
            rw [hadd] at hnext
            exact hnext
    · cases h

def EventInBank (hw : Banks) (segment : Segment) (n i : Nat) : Prop :=
  ∀ j < (sis3300ProcessRawEvent segment (hw.evDir n i) i).nrSamples.toNat,
    i * segment.nrSampPerEv.toNat + j < 0x20000

theorem getElem?_map_range {α : Type} {f : Nat → α} {len i : Nat} {a : α}
    (h : ((List.range len).map f)[i]? = some a) : i < len ∧ a = f i := by
  obtain ⟨hi, ha⟩ := List.getElem?_eq_some_iff.mp h
  rw [List.length_map, List.length_range] at hi
  refine ⟨hi, ?_⟩
  rw [← ha, List.getElem_map, List.getElem_range]

theorem fetchLoop_direct {putUser : Nat → Nat → Bool} {fetched : List Fetched}
    (hfits : FitsBank segment)
    (h : fetchLoop putUser channel segment.nrSampPerEv
      (eventsOf hw segment n) (wordsOf hw segment n channel)
      (ticksOf hw segment n) 0 acqs = (fetched, none))
    {i : Nat} {acq : Acq} (hi : acqs[i]? = some acq) :
    fetched[i]? = some (directFetched hw segment n channel i acq) ∧
      EventInBank hw segment n i := by
  obtain ⟨event, tick, f, hevent, htick, hf, hread⟩ :=
    (fetchLoop_ok h).2 i acq hi
  rw [Nat.zero_add] at hevent htick hread
  obtain ⟨hlt, rfl⟩ := getElem?_map_range hevent
  obtain ⟨_, rfl⟩ := getElem?_map_range htick
  have hoffset : (BitVec.ofNat 32 i * segment.nrSampPerEv).toNat =
      i * segment.nrSampPerEv.toNat := by
    have hle : i * segment.nrSampPerEv.toNat ≤ 0x20000 :=
      Nat.le_trans (Nat.mul_le_mul_right _ (Nat.le_of_lt hlt)) hfits
    have hnr := segment.nrEvents.isLt
    have hi32 : i % 2 ^ 32 = i := Nat.mod_eq_of_lt (by omega)
    rw [BitVec.toNat_mul, BitVec.toNat_ofNat, hi32]
    exact Nat.mod_eq_of_lt (by omega)
  rw [hoffset] at hread
  unfold sis3300ReadEvent at hread
  generalize hstore : storeSamples (putUser i) channel _ 0 _ = r at hread
  obtain ⟨data, stop⟩ := r
  obtain ⟨hfeq, hstop⟩ := Prod.mk.inj hread
  obtain rfl : stop = none := hstop
  obtain ⟨hlen, hdata⟩ := storeSamples_ok hstore
  -- The loop has not stopped, so every word it read is one of the group.
  have hword : ∀ j <
      (sis3300ProcessRawEvent segment (hw.evDir n i) i).nrSamples.toNat,
      i * segment.nrSampPerEv.toNat + j <
          segment.nrEvents.toNat * segment.nrSampPerEv.toNat ∧
        data[j]? = some (sampleOf channel (hw.memory (memBank n channel +
          i * segment.nrSampPerEv.toNat + j))) := by
    intro j hj
    obtain ⟨word, hword, hdataj⟩ := hdata j hj
    rw [Nat.zero_add, List.getElem?_drop] at hword
    obtain ⟨hbound, rfl⟩ := getElem?_map_range hword
    rw [hfits.product] at hbound
    exact ⟨hbound, by rw [hdataj, Nat.add_assoc]⟩
  constructor
  · rw [hf, ← hfeq]
    unfold directFetched
    congr 2
    apply List.ext_getElem?
    intro j
    by_cases hj : j <
        (sis3300ProcessRawEvent segment (hw.evDir n i) i).nrSamples.toNat
    · rw [(hword j hj).2, List.getElem?_map, List.getElem?_range hj]
      rfl
    · show data[j]? = _
      rw [List.getElem?_eq_none (by omega), List.getElem?_eq_none]
      rw [List.length_map, List.length_range]
      omega
  · intro j hj
    exact Nat.lt_of_lt_of_le (hword j hj).1 hfits

theorem SameBank.directFetched (h : SameBank n hw hw') (hch : channel < 8)
    {i : Nat} {acq : Acq} (hbank : EventInBank hw segment n i) :
    directFetched hw' segment n channel i acq =
      directFetched hw segment n channel i acq := by
  simp only [Sis33.directFetched, h.evDir, h.evTstamp]
  congr 1
  apply List.map_congr_left
  intro j hj
  have hmem := memBank_add_mem (n := n) hch (hbank j (List.mem_range.mp hj))
  rw [← Nat.add_assoc] at hmem
  rw [h.memory _ hmem.1 hmem.2]

/-- A driver without caches, for which every allocation and transfer
succeeds. -/
def directEnv (env : FetchEnv) : FetchEnv := { putUser := env.putUser }

theorem sis3300Fetch_free :
    (sis3300Fetch (directEnv env) hw (sis3300CachesFree card n) n channel
      acqs).1 =
      fetchLoop env.putUser channel (card.segments n).nrSampPerEv
        (eventsOf hw (card.segments n) n)
        (wordsOf hw (card.segments n) n channel)
        (ticksOf hw (card.segments n) n) 0 acqs := by
  simp [sis3300Fetch, sis3300EvcacheGet, sis3300SampcacheGet,
    sis3300PtCacheGet, sis3300CachesFree, cacheGet, evcacheFill,
    sampcacheFill, ptCacheFill, directEnv, Card.setSegment, eventsOf, wordsOf,
    ticksOf, dirEntries, sampleWords, sis3300ProcessRawEvent]

/-! ## The ioctl -/

inductive FetchCase (env : FetchEnv) (hw : Banks) (d : Dev Sis3300)
    (list : AcqList) (res : Except Stop (Nat × List Fetched))
    (d' : Dev Sis3300) : Prop
  | refused (stop : Stop) :
      res = .error stop → d' = d → FetchCase env hw d list res d'
  | transfers (k : Nat) (card : Card Sis3300) :
      list.channel.toNat < d.card.nChannels →
      FetchAccepted d.card list k card →
      d' = { d with
        card := fetchDone (sis3300Fetch env hw card list.segment.toNat
          list.channel.toNat (list.acqs.take k)).2 list.segment.toNat } →
      (∀ k' fetched, res = .ok (k', fetched) → k' = k ∧
        (sis3300Fetch env hw card list.segment.toNat list.channel.toNat
          (list.acqs.take k)).1 = (fetched, none)) →
      FetchCase env hw d list res d'

theorem sis3300FetchIoctl_cases :
    FetchCase env hw d list (sis3300FetchIoctl env hw d list).1
      (sis3300FetchIoctl env hw d list).2 := by
  unfold sis3300FetchIoctl
  split
  · exact .refused _ rfl rfl
  split
  · exact .refused _ rfl rfl
  · exact .refused _ rfl rfl
  next henter =>
    split
    · exact .refused _ rfl rfl
    next k card hlocked =>
      have hch := (fetchEnter_ok henter).2.1
      have hacc := fetchLocked_ok hlocked
      simp only
      split
      next fetched hr =>
        refine .transfers k card hch hacc rfl ?_
        intro k' fetched' hok
        obtain ⟨rfl, rfl⟩ := Prod.mk.inj (Except.ok.inj hok)
        exact ⟨rfl, hr⟩
      next =>
        refine .transfers k card hch hacc rfl ?_
        intro k' fetched' hok
        cases hok

theorem FetchAccepted.segCaches {k : Nat}
    (h : FetchAccepted card list k card') (hc : ∀ m, SegCaches hw card m) :
    ∀ m, SegCaches hw card' m := by
  intro m
  rw [h.stored]
  by_cases hm : m = list.segment.toNat
  · subst hm
    exact (hc _).congr (by simp) (by simp) (by simp) (by simp) rfl
  · exact (hc m).setSegment_of_ne hm

theorem fetchDone_segCaches (hc : ∀ m, SegCaches hw card m) :
    ∀ m, SegCaches hw (fetchDone card n) m := by
  intro m
  unfold fetchDone
  by_cases hm : m = n
  · subst hm
    exact (hc _).congr (by simp) (by simp) (by simp) (by simp) rfl
  · exact (hc m).setSegment_of_ne hm

theorem fetchDone_acquiring (card : Card Sis3300) (n m : Nat) :
    ((fetchDone card n).segments m).acquiring = (card.segments m).acquiring := by
  unfold fetchDone
  by_cases hm : m = n
  · rw [hm, setSegment_same]
  · rw [setSegment_of_ne hm]

/-! ## The invariant -/

theorem CachesInv.sameFlags (h : CachesInv s)
    (hconf : SameConfig s.dev.card d.card)
    (hcurr : d.card.currSegment = s.dev.card.currSegment)
    (hacq : ∀ m, (d.card.segments m).acquiring =
      (s.dev.card.segments m).acquiring)
    (hdropped : ∀ m, (s.dev.card.segments m).acquiring = true →
      NoCaches d.card m)
    (hcaches : ∀ m, SegCaches s.hw d.card m) :
    CachesInv { s with dev := d } where
  nSegments := hconf.nSegments.trans h.nSegments
  nChannels := hconf.nChannels.trans h.nChannels
  active m hm := by
    rw [hacq] at hm
    rw [hconf.nSegments]
    exact h.active m hm
  current m hm := by
    rw [hacq] at hm
    rw [hcurr]
    exact h.current m hm
  dropped m hm := by
    rw [hacq] at hm
    exact hdropped m hm
  caches := hcaches
  filled m hm := by
    rw [hacq] at hm
    exact h.filled m hm

theorem CachesInv.fetch (h : CachesInv s) :
    CachesInv { s with dev := (sis3300FetchIoctl env s.hw s.dev list).2 } := by
  have hcase := @sis3300FetchIoctl_cases s.hw env s.dev list
  cases hcase with
  | refused stop _ hd =>
    rw [hd]
    exact h
  | transfers k card hch hacc hd _ =>
    rw [h.nChannels] at hch
    have hcaches := hacc.segCaches h.caches
    have hstored : ∀ m, m ≠ list.segment.toNat →
        card.segments m = s.dev.card.segments m := by
      intro m hm
      rw [hacc.stored, setSegment_of_ne hm]
    have hframe := @sis3300Fetch_frame card env s.hw list.segment.toNat
      list.channel.toNat (list.acqs.take k)
    have hacquiring : ∀ m, (card.segments m).acquiring =
        (s.dev.card.segments m).acquiring := by
      intro m
      by_cases hm : m = list.segment.toNat
      · rw [hm, hacc.stored, setSegment_same]
      · rw [hstored m hm]
    rw [hd]
    refine h.sameFlags ?_ ?_ ?_ ?_ ?_
    · have hconf : SameConfig s.dev.card card := by
        rw [hacc.stored]
        exact ⟨rfl, rfl, rfl, rfl, rfl, rfl⟩
      exact hconf.trans (hframe.flags.config.trans
        ⟨rfl, rfl, rfl, rfl, rfl, rfl⟩)
    · show (sis3300Fetch ..).2.currSegment = _
      rw [hframe.flags.currSegment, hacc.stored]
      rfl
    · intro m
      rw [fetchDone_acquiring, hframe.flags.acquiring, hacquiring]
    · intro m hm
      have hne : m ≠ list.segment.toNat := by
        rintro rfl
        rw [hacc.acquiring] at hm
        cases hm
      have hold := h.dropped m hm
      have hseg : ((fetchDone (sis3300Fetch env s.hw card
          list.segment.toNat list.channel.toNat (list.acqs.take k)).2
          list.segment.toNat).segments m) = s.dev.card.segments m := by
        unfold fetchDone
        rw [setSegment_of_ne hne, hframe.others m hne, hstored m hne]
      refine ⟨by rw [hseg, hold.events], by rw [hseg, hold.prevticks], ?_⟩
      intro g
      show (sis3300Fetch ..).2.privateData.sampcache m g = _
      rw [hframe.words m hne, hacc.stored]
      exact hold.words g
    · exact fetchDone_segCaches (sis3300Fetch_spec hcaches hch).1

theorem CachesInv.acquire (h : CachesInv s) (hs : Started s.dev desc d) :
    CachesInv { s with dev := d } := by
  have hidle : ∀ m, (s.dev.card.segments m).acquiring = false := by
    intro m
    cases hm : (s.dev.card.segments m).acquiring with
    | false => rfl
    | true =>
      rw [hs.accepted.idle m (h.active m hm)] at hm
      cases hm
  have hseg : ∀ m, m ≠ desc.segment.toNat →
      (d.card.segments m).acquiring = false := by
    intro m hm
    rw [(hs.others m hm).1]
    exact hidle m
  have honly : ∀ m, (d.card.segments m).acquiring = true →
      m = desc.segment.toNat := by
    intro m hacq
    by_contra hne
    rw [hseg m hne] at hacq
    cases hacq
  have hnone : NoCaches d.card desc.segment.toNat :=
    ⟨hs.events, hs.prevticks, hs.words⟩
  refine ⟨hs.config.nSegments.trans h.nSegments,
    hs.config.nChannels.trans h.nChannels, ?_, ?_, ?_, ?_, ?_⟩
  · intro m hm
    rw [honly m hm]
    show _ < d.card.nSegments
    rw [hs.config.nSegments]
    exact hs.accepted.segment
  · intro m hm
    exact (honly m hm).trans hs.currSegment.symm
  · intro m hm
    rw [honly m hm]
    exact hnone
  · intro m
    by_cases hm : m = desc.segment.toNat
    · rw [hm]
      exact hnone.segCaches
    · obtain ⟨hsame, hwords⟩ := hs.others m hm
      exact (h.caches m).congr (by rw [hsame]) (by rw [hsame]) (by rw [hsame])
        (by rw [hsame]) hwords
  · intro m _
    exact h.filled m (hidle m)

theorem CachesInv.sampled (h : CachesInv s)
    (hcurr : s.dev.card.curr.acquiring = true)
    (hbank : ∀ m, m ≠ s.dev.card.currSegment → SameBank m s.hw hw) :
    CachesInv { s with hw := hw } where
  nSegments := h.nSegments
  nChannels := h.nChannels
  active := h.active
  current := h.current
  dropped := h.dropped
  caches m := by
    by_cases hm : m = s.dev.card.currSegment
    · rw [hm]
      exact (h.dropped _ hcurr).segCaches
    · exact (h.caches m).bank (hbank m hm)
  filled m hm := by
    refine (h.filled m hm).trans (hbank m ?_)
    rintro rfl
    rw [show (s.dev.card.segments s.dev.card.currSegment).acquiring = true
      from hcurr] at hm
    cases hm

theorem CachesInv.ended (h : CachesInv s) (hend : EndsOrNot s.dev d) :
    CachesInv (s.ended d) := by
  cases hend with
  | same hd =>
    have hsame : s.ended d = s := by
      unfold Sis3300State.ended
      rw [hd, Bool.and_not_self]
      rfl
    rw [hsame]
    exact h
  | ends now nrEvents hacq hd =>
    have hcurr : (d.card.segments s.dev.card.currSegment).acquiring = false
        := by
      rw [hd]
      exact congrArg Segment.acquiring (finishWith_curr now nrEvents s.dev)
    have hothers : ∀ m, m ≠ s.dev.card.currSegment →
        d.card.segments m = s.dev.card.segments m := by
      intro m hm
      rw [hd]
      simp [finishWith, sis3300FinishAcquisition, Card.setSegment, hm]
    have hidle : ∀ m, (d.card.segments m).acquiring = false := by
      intro m
      by_cases hm : m = s.dev.card.currSegment
      · rw [hm, hcurr]
      · rw [hothers m hm]
        cases hacqm : (s.dev.card.segments m).acquiring with
        | false => rfl
        | true => exact absurd (h.current m hacqm) hm
    have hfilled : (s.ended d).filled =
        Function.update s.filled s.dev.card.currSegment s.hw := by
      have hdone : d.card.curr.acquiring = false := hidle _
      simp only [Sis3300State.ended, hacq, hdone, Bool.not_false,
        Bool.and_self, if_true]
    have hactive : ∀ m {p : Prop}, (d.card.segments m).acquiring = true →
        p := by
      intro m p hm
      rw [hidle m] at hm
      cases hm
    refine ⟨?_, ?_, fun m hm => hactive m hm, fun m hm => hactive m hm,
      fun m hm => hactive m hm, ?_, ?_⟩
    · show d.card.nSegments = 2
      rw [hd]
      exact h.nSegments
    · show d.card.nChannels = 8
      rw [hd]
      exact h.nChannels
    · intro m
      show SegCaches s.hw d.card m
      by_cases hm : m = s.dev.card.currSegment
      · have hold := h.dropped _ hacq
        rw [hm]
        refine NoCaches.segCaches ⟨?_, ?_, ?_⟩
        · rw [hd]
          exact (congrArg Segment.events
            (finishWith_curr now nrEvents s.dev)).trans hold.events
        · rw [hd]
          exact (congrArg Segment.prevticks
            (finishWith_curr now nrEvents s.dev)).trans hold.prevticks
        · rw [hd]
          exact hold.words
      · have hseg := hothers m hm
        exact (h.caches m).congr (by rw [hseg]) (by rw [hseg])
          (by rw [hseg]) (by rw [hseg]) (by rw [hd]; rfl)
    · intro m _
      rw [hfilled]
      by_cases hm : m = s.dev.card.currSegment
      · rw [hm, Function.update_self]
        exact SameBank.refl _ _
      · rw [Function.update_of_ne hm]
        refine h.filled m ?_
        have hsame := hidle m
        rwa [hothers m hm] at hsame

theorem cachesInv_invariant (evLengths : List (BitVec 32)) :
    (sis3300System evLengths).Invariant CachesInv where
  init := by
    rintro s ⟨hw, rfl⟩
    refine ⟨rfl, rfl, ?_, ?_, ?_, ?_, ?_⟩
    · intro m hm
      cases hm
    · intro m hm
      cases hm
    · intro m hm
      cases hm
    · intro m
      exact NoCaches.segCaches ⟨rfl, rfl, fun _ => rfl⟩
    · intro m _
      exact SameBank.refl _ _
  step := by
    intro s s' e h hstep
    cases hstep with
    | acquire hok => exact h.acquire (sis3300Acquire_ok hok)
    | refused => exact h
    | sampled hcurr hbank => exact h.sampled hcurr hbank
    | irq r => exact h.ended sis3300DoIrq_endsOrNot
    | cancel r => exact h.ended sis3300AcqCancel_endsOrNot
    | fetch env list => exact h.fetch

/-! ## The delivered events -/

/-- In any reachable state, after any failed allocations and transfers: a fetch
that returns a number of events has delivered as many as the client has room
for and the segment has, each as a read of the bank without caches would, the
bank being as the last acquisition on the segment left it. Nothing more is
stored than the buffer takes when the event's sample count is at most the
length of an event. -/
theorem cached_fetch_direct {evLengths : List (BitVec 32)} {k : Nat}
    {fetched : List Fetched} (hreach : (sis3300System evLengths).Reachable s)
    (hok : (sis3300FetchIoctl env s.hw s.dev list).1 = .ok (k, fetched))
    (hfits : FitsBank (s.dev.card.segments list.segment.toNat)) :
    let n := list.segment.toNat
    let segment := s.dev.card.segments n
    k = min segment.nrEvents.toNat list.acqs.length ∧
      fetched.length = k ∧
      (sis3300Fetch (directEnv env) s.hw (sis3300CachesFree s.dev.card n) n
        list.channel.toNat (list.acqs.take k)).1 = (fetched, none) ∧
      ∀ i < k, ∀ acq, list.acqs[i]? = some acq →
        fetched[i]? = some (directFetched (s.filled n) segment n
          list.channel.toNat i acq) ∧
        ∀ f, fetched[i]? = some f → f.data.length = f.acq.nrSamples.toNat ∧
          (f.acq.nrSamples.toNat ≤ segment.nrSampPerEv.toNat →
            2 * f.data.length ≤ acq.size.toNat) := by
  intro n segment
  have h := (cachesInv_invariant evLengths).reachable hreach
  have hcase := @sis3300FetchIoctl_cases s.hw env s.dev list
  cases hcase with
  | refused stop hstop _ =>
    rw [hok] at hstop
    cases hstop
  | transfers k' card hch hacc _ hres =>
    obtain ⟨rfl, hfetch⟩ := hres k fetched hok
    rw [h.nChannels] at hch
    have hseg : card.segments n = { segment with transferring := true } := by
      rw [hacc.stored, setSegment_same]
    have hfits' : FitsBank (card.segments n) := by
      rw [hseg]
      exact hfits
    have hloop := (sis3300Fetch_spec (hacc.segCaches h.caches) hch).2
      fetched hfetch hfits'
    have heq : fetchLoop env.putUser list.channel.toNat segment.nrSampPerEv
        (eventsOf s.hw segment n) (wordsOf s.hw segment n list.channel.toNat)
        (ticksOf s.hw segment n) 0 (list.acqs.take k) = (fetched, none) := by
      rw [hseg] at hloop
      exact hloop
    have hlen := (fetchLoop_ok heq).1
    rw [List.length_take] at hlen
    have hk := hacc.nrEvents
    refine ⟨hk, by omega, ?_, ?_⟩
    · rw [sis3300Fetch_free]
      exact heq
    · intro i hi acq hacq
      have htake : (list.acqs.take k)[i]? = some acq := by
        rw [List.getElem?_take_of_lt hi, hacq]
      obtain ⟨hdirect, hbank⟩ := fetchLoop_direct hfits heq htake
      have hfilled := h.filled n hacc.acquiring
      have hbank' : EventInBank (s.filled n) segment n i := by
        unfold EventInBank at hbank ⊢
        rwa [hfilled.evDir] at hbank
      rw [hfilled.directFetched hch hbank'] at hdirect
      refine ⟨hdirect, ?_⟩
      intro f hf
      rw [hdirect] at hf
      obtain rfl := Option.some.inj hf
      have hdata : (directFetched (s.filled n) segment n list.channel.toNat i
          acq).data.length = (directFetched (s.filled n) segment n
            list.channel.toNat i acq).acq.nrSamples.toNat := by
        simp [directFetched]
      refine ⟨hdata, ?_⟩
      intro hle
      have hsize := hacc.buffers acq
        (List.mem_of_getElem? htake)
      rw [hdata, hsize]
      show _ ≤ segment.nrSampPerEv.toNat * 2
      omega

end Caches

/-- The number of events that was asked for has its samples in the bank, and
so has every smaller one. -/
theorem Accepted.fitsBank {card : Card Sis3300} {desc : AcqDesc}
    {segment : Segment} (h : Accepted card desc)
    (hcard : SameConfig (sis3300Probe sis3300EvLengths) card)
    (hlen : segment.nrSampPerEv = desc.evLength)
    (hnr : segment.nrEvents.toNat ≤ desc.nrEvents.toNat) : FitsBank segment := by
  have hmax := h.nrEvents
  have hfits := BitVec.le_def.mp h.fits
  have hev := h.evLength
  rw [hcard.maxNrEvents] at hmax
  rw [hcard.evLengths] at hev
  have hshare : (segmentMaxNrSamples card).toNat = 0x20000 := by
    unfold segmentMaxNrSamples maxEvLength
    rw [hcard.evLengths, hcard.nSegments, hcard.nSegmentsMin]
    rfl
  have hlong : ∀ len ∈ sis3300EvLengths, len.toNat ≤ 131072 := by
    simp [sis3300EvLengths]
  have hle := hlong _ hev
  have hmax' : desc.nrEvents.toNat ≤ 1024 := hmax
  have hproduct : desc.nrEvents.toNat * desc.evLength.toNat < 2 ^ 32 :=
    Nat.lt_of_le_of_lt (Nat.mul_le_mul hmax' hle) (by decide)
  rw [hshare, BitVec.toNat_mul, Nat.mod_eq_of_lt hproduct] at hfits
  unfold FitsBank
  rw [hlen]
  exact Nat.le_trans (Nat.mul_le_mul_right _ hnr) hfits

/-- Banks whose words have every bit of both halves set, with `len` samples in
each event. -/
def saturatedBanks (len : BitVec 32) : Banks where
  evDir _ _ := len
  evTstamp _ _ := 0
  memory _ := 0x3fff3fff

/-- A client with one buffer of 128 samples. -/
def oneBuffer : AcqList := ⟨0, 0, [{ size := 256 }], 0⟩

/-- Events of 128 samples are asked for on segment 0. -/
def startOn (nrEvents : BitVec 32) : Dev Sis3300 :=
  sis3300AcqStart ⟨acqStartStore ⟨0, nrEvents, 128, 0⟩
    { sis3300Probe sis3300EvLengths with
      privateData := { reqEvents := nrEvents } },
    false, false⟩

/-- They are acquired, and the interrupt ends the acquisition. -/
def acquiredOn (hw : Banks) (nrEvents : BitVec 32) : Sis3300State :=
  Sis3300State.ended ⟨startOn nrEvents, hw, fun _ => hw⟩
    (sis3300DoIrq { counter := nrEvents, busy := false, statusEv := true }
      (startOn nrEvents))

theorem acquiredOn_reachable (hw : Banks) {nrEvents : BitVec 32}
    (h : sis3300Acquire ⟨sis3300Probe sis3300EvLengths, false, false⟩
      ⟨0, nrEvents, 128, 0⟩ = .ok (startOn nrEvents)) :
    (sis3300System sis3300EvLengths).Reachable (acquiredOn hw nrEvents) :=
  .step (.step (.init ⟨hw, rfl⟩)
    (@Sis3300Step.acquire ⟨_, hw, _⟩ ⟨0, nrEvents, 128, 0⟩ _ h)) (.irq _)

theorem one_event_fetched :
    ∃ fetched, (sis3300FetchIoctl {} (acquiredOn (saturatedBanks 1) 1).hw
        (acquiredOn (saturatedBanks 1) 1).dev oneBuffer).1 = .ok (1, fetched) ∧
      fetched.length = 1 := by
  refine ⟨_, rfl, ?_⟩
  have hfits : FitsBank
      ((acquiredOn (saturatedBanks 1) 1).dev.card.segments 0) := by
    show (_ : Nat) ≤ _
    decide
  exact (@cached_fetch_direct {} (acquiredOn (saturatedBanks 1) 1) oneBuffer
    _ _ _ (acquiredOn_reachable _ rfl) rfl hfits).2.1

/-- The half of a word in the layout of the sis3301. -/
def fourteenBits (channel : Nat) (word : BitVec 32) : BitVec 16 :=
  if channel % 2 = 1 then (word &&& 0x3fff).setWidth 16
  else ((word &&& 0x3fff0000) >>> 16).setWidth 16

/-- Of 14 set bits the fetch delivers 12; and an event of which the directory
says that it has 130 samples is stored in a buffer of 128. -/
theorem not_fourteen_bits :
    ((sis3300System sis3300EvLengths).Reachable
        (acquiredOn (saturatedBanks 1) 1) ∧
      ∃ f, (sis3300FetchIoctl {} (acquiredOn (saturatedBanks 1) 1).hw
          (acquiredOn (saturatedBanks 1) 1).dev oneBuffer).1 = .ok (1, [f]) ∧
        f.data = [0xfff] ∧
        fourteenBits 0 ((saturatedBanks 1).memory (memBank 0 0)) = 0x3fff) ∧
    ((sis3300System sis3300EvLengths).Reachable
        (acquiredOn (saturatedBanks 130) 2) ∧
      ∃ f, (sis3300FetchIoctl {} (acquiredOn (saturatedBanks 130) 2).hw
          (acquiredOn (saturatedBanks 130) 2).dev oneBuffer).1 = .ok (1, [f]) ∧
        f.acq.size = 256 ∧ f.data.length = 130) :=
  ⟨⟨acquiredOn_reachable _ rfl, _, rfl, rfl, rfl⟩,
    ⟨acquiredOn_reachable _ rfl, _, rfl, rfl, rfl⟩⟩

end Coht.Sis33
