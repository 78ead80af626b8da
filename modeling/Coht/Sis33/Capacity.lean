import Coht.Lib.System
import Coht.Sis33.Core
import Mathlib.Data.Set.Lattice
import Mathlib.Order.CompletePartialOrder
import Mathlib.Order.Interval.Set.Disjoint
import Mathlib.Tactic.Ring

/-!
# What fits in a segment of the sis3320

The memory of a channel, 32 Msamples, is shared out evenly among the active
segments: segment `s` begins at `sis3320GetSegmentBase s`, and the core lets an
acquisition through when its samples do not exceed
`segmentMaxNrSamples`. Both come to the same share: a card whose configuration
is `Configured` has bases `s * share` and room for `share` samples from there.

The core multiplies the number of events by their length in 32 bits and has no
lower bound for the number of events. `acquisition_fits_iff` is the exact
condition: an accepted acquisition has an event and stays in its segment if and
only if it asks for one and the product does not wrap.
`wrapped_acquisition_accepted` asks for 128 events of the whole memory.
-/

namespace Coht.Sis33

open Coht.Lib

/-- `sis3320_ev_lengths` -/
def sis3320EvLengths : List (BitVec 32) :=
  [33554432, 16777216, 4194304, 1048576, 262144, 65536, 16384, 4096, 1024, 512,
    256, 128, 64]

def sis3320MaxNrEvents : BitVec 32 := 512
def sis3320NrChannels : Nat := 8
def sis3320MaxNrSegments : Nat := 2

section Capacity

variable {P : Type}

/-- The card as `sis3320_probe()` fills it in. -/
def sis3320Probe (priv : P) : Card P where
  privateData := priv
  maxNrEvents := sis3320MaxNrEvents
  nChannels := sis3320NrChannels
  evLengths := sis3320EvLengths
  nSegmentsMax := sis3320MaxNrSegments
  nSegmentsMin := 1
  nSegments := 2

/-- `sis3320_get_segment_base()`, in samples. -/
def sis3320GetSegmentBase (card : Card P) (segment : Nat) : BitVec 32 :=
  (BitVec.ofNat 32 segment *
    (maxEvLength card / BitVec.ofNat 32 card.nSegments)) &&& 0x01fffffc

inductive ConfigEvent
  | storeNSegments (segments : Int)
  /-- Anything that leaves the configuration alone. -/
  | other

/-- The configuration of a sis3320 over its life: `n_segments` is written
through sysfs, everything else happens to the segments. -/
def sis3320Config (P : Type) : System (Card P) ConfigEvent where
  init card := ∃ priv, card = sis3320Probe priv
  step card e card' :=
    match e with
    | .storeNSegments segments => storeNSegments card segments = .ok card'
    | .other => SameConfig card card'

/-- The samples an acquisition writes, the product taken in full. -/
def sampleRange (card : Card P) (desc : AcqDesc) : Set Nat :=
  let base := (sis3320GetSegmentBase card desc.segment.toNat).toNat
  Set.Ico base (base + desc.nrEvents.toNat * desc.evLength.toNat)

/-- The acquisition has an event and stays in the memory of the card. -/
structure FitsSegment (card : Card P) (desc : AcqDesc) : Prop where
  nrEvents : 1 ≤ desc.nrEvents.toNat
  memory : (sis3320GetSegmentBase card desc.segment.toNat).toNat +
    desc.nrEvents.toNat * desc.evLength.toNat ≤ (maxEvLength card).toNat

/-- An event is asked for, and the number of samples has 32 bits. -/
structure Widens (desc : AcqDesc) : Prop where
  nrEvents : 1 ≤ desc.nrEvents.toNat
  product : desc.nrEvents.toNat * desc.evLength.toNat < 2 ^ 32

/-! ## The configurations of a sis3320 -/

structure Configured (card : Card P) : Prop where
  maxNrEvents : card.maxNrEvents = sis3320MaxNrEvents
  evLengths : card.evLengths = sis3320EvLengths
  nSegmentsMax : card.nSegmentsMax = sis3320MaxNrSegments
  nSegmentsMin : card.nSegmentsMin = 1
  nSegments : card.nSegments = 1 ∨ card.nSegments = 2

variable {card card' : Card P} {desc desc' : AcqDesc} {segments : Int}

theorem sis3320Probe_configured (priv : P) :
    Configured (sis3320Probe priv) :=
  ⟨rfl, rfl, rfl, rfl, Or.inr rfl⟩

theorem Configured.same (h : Configured card) (hs : SameConfig card card') :
    Configured card' where
  maxNrEvents := hs.maxNrEvents.trans h.maxNrEvents
  evLengths := hs.evLengths.trans h.evLengths
  nSegmentsMax := hs.nSegmentsMax.trans h.nSegmentsMax
  nSegmentsMin := hs.nSegmentsMin.trans h.nSegmentsMin
  nSegments := by
    rw [hs.nSegments]
    exact h.nSegments

theorem storeNSegments_ok (hmax : 1 ≤ card.nSegmentsMax)
    (h : storeNSegments card segments = .ok card') :
    ∃ n, card' = { card with nSegments := n } ∧ 1 ≤ n ∧
      n ≤ card.nSegmentsMax := by
  unfold storeNSegments at h
  split at h
  · cases h
  split at h
  · cases h
  injection h with h
  refine ⟨_, h.symm, ?_, ?_⟩
  · split
    · omega
    · split
      · exact hmax
      · omega
  · split
    · exact hmax
    · split <;> omega

theorem Configured.storeNSegments (h : Configured card)
    (hstore : storeNSegments card segments = .ok card') :
    Configured card' := by
  have hmax : card.nSegmentsMax = 2 := h.nSegmentsMax
  obtain ⟨n, rfl, hpos, hle⟩ := storeNSegments_ok (by omega) hstore
  exact ⟨h.maxNrEvents, h.evLengths, h.nSegmentsMax, h.nSegmentsMin,
    show n = 1 ∨ n = 2 by omega⟩

theorem configured_invariant :
    (sis3320Config P).Invariant Configured where
  init := by
    rintro card ⟨priv, rfl⟩
    exact sis3320Probe_configured priv
  step := by
    intro card card' e h hstep
    cases e with
    | storeNSegments segments => exact h.storeNSegments hstep
    | other => exact h.same hstep

/-! ## The share of a segment -/

def share (card : Card P) : Nat := 33554432 / card.nSegments

theorem Configured.maxEvLength (h : Configured card) :
    maxEvLength card = 33554432 := by
  unfold Sis33.maxEvLength
  rw [h.evLengths]
  rfl

theorem Configured.segmentMaxNrSamples (h : Configured card) :
    (segmentMaxNrSamples card).toNat = share card := by
  unfold Sis33.segmentMaxNrSamples share
  rw [h.maxEvLength, h.nSegmentsMin]
  rcases h.nSegments with hn | hn <;> rw [hn] <;> rfl

theorem Configured.base (h : Configured card) {s : Nat}
    (hs : s < card.nSegments) :
    (sis3320GetSegmentBase card s).toNat = s * share card := by
  unfold sis3320GetSegmentBase share
  rw [h.maxEvLength]
  rcases h.nSegments with hn | hn
  · obtain rfl : s = 0 := by omega
    rw [hn]
    rfl
  · rw [hn] at hs ⊢
    obtain rfl | rfl : s = 0 ∨ s = 1 := by omega
    · rfl
    · rfl

theorem Configured.base_eq (h : Configured card) {s : Nat}
    (hs : s < card.nSegments) :
    sis3320GetSegmentBase card s = BitVec.ofNat 32 (s * 16777216) := by
  unfold sis3320GetSegmentBase
  rw [h.maxEvLength]
  rcases h.nSegments with hn | hn
  · obtain rfl : s = 0 := by omega
    rw [hn]
    rfl
  · rw [hn] at hs ⊢
    obtain rfl | rfl : s = 0 ∨ s = 1 := by omega
    · rfl
    · rfl

theorem Configured.shares (h : Configured card) :
    card.nSegments * share card = 33554432 := by
  unfold share
  rcases h.nSegments with hn | hn <;> rw [hn]

theorem Configured.base_add_le (h : Configured card)
    (hacc : Accepted card desc) {n : Nat} (hn : n ≤ share card) :
    (sis3320GetSegmentBase card desc.segment.toNat).toNat + n ≤ 33554432 := by
  have hsucc : desc.segment.toNat + 1 ≤ card.nSegments := hacc.segment
  calc (sis3320GetSegmentBase card desc.segment.toNat).toNat + n
      ≤ desc.segment.toNat * share card + share card := by
        rw [h.base hacc.segment]
        omega
    _ = (desc.segment.toNat + 1) * share card := by ring
    _ ≤ card.nSegments * share card := Nat.mul_le_mul_right _ hsucc
    _ = 33554432 := h.shares

theorem Configured.product_mod_le (h : Configured card)
    (hacc : Accepted card desc) :
    desc.nrEvents.toNat * desc.evLength.toNat % 2 ^ 32 ≤ share card := by
  have hfits := BitVec.le_def.mp hacc.fits
  rwa [BitVec.toNat_mul, h.segmentMaxNrSamples] at hfits

theorem Widens.le_share (hw : Widens desc) (h : Configured card)
    (hacc : Accepted card desc) :
    desc.nrEvents.toNat * desc.evLength.toNat ≤ share card := by
  have hmod := h.product_mod_le hacc
  rwa [Nat.mod_eq_of_lt hw.product] at hmod

theorem Configured.fitsSegment_iff (h : Configured card)
    (hacc : Accepted card desc) : FitsSegment card desc ↔ Widens desc := by
  constructor
  · intro hfits
    have hmemory := hfits.memory
    rw [h.maxEvLength] at hmemory
    refine ⟨hfits.nrEvents, ?_⟩
    have hlit : (33554432 : BitVec 32).toNat = 33554432 := rfl
    omega
  · intro hw
    refine ⟨hw.nrEvents, ?_⟩
    rw [h.maxEvLength]
    exact h.base_add_le hacc (hw.le_share h hacc)

theorem share_eq (hn : card'.nSegments = card.nSegments) :
    share card' = share card := by
  unfold share
  rw [hn]

theorem Configured.disjoint (h : Configured card) (h' : Configured card')
    (hn : card'.nSegments = card.nSegments)
    (hacc : Accepted card desc) (hacc' : Accepted card' desc')
    (hw : Widens desc) (hw' : Widens desc')
    (hne : desc.segment ≠ desc'.segment) :
    Disjoint (sampleRange card desc) (sampleRange card' desc') := by
  have hle := hw.le_share h hacc
  have hle' := hw'.le_share h' hacc'
  have hshare := share_eq hn
  unfold sampleRange
  rw [h.base hacc.segment, h'.base hacc'.segment]
  rw [hshare] at hle' ⊢
  rw [Set.Ico_disjoint_Ico]
  have hne' : desc.segment.toNat ≠ desc'.segment.toNat :=
    fun heq => hne (BitVec.eq_of_toNat_eq heq)
  rcases Nat.lt_or_gt_of_ne hne' with hlt | hlt
  · have hstep : (desc.segment.toNat + 1) * share card ≤
        desc'.segment.toNat * share card := Nat.mul_le_mul_right _ hlt
    rw [Nat.add_mul, Nat.one_mul] at hstep
    omega
  · have hstep : (desc'.segment.toNat + 1) * share card ≤
        desc.segment.toNat * share card := Nat.mul_le_mul_right _ hlt
    rw [Nat.add_mul, Nat.one_mul] at hstep
    omega

/-- Acquisitions that the core accepts while the number of segments stays the
same: each of them has an event and stays in the memory, and two on different
segments do not meet, if and only if each asks for an event and its number of
samples has 32 bits. -/
theorem acquisition_fits_iff (hreach : (sis3320Config P).Reachable card)
    (hacc : acqStartChecks card desc = .ok ()) :
    (FitsSegment card desc ↔ Widens desc) ∧
      ∀ card' desc', (sis3320Config P).Reachable card' →
        card'.nSegments = card.nSegments →
        acqStartChecks card' desc' = .ok () →
        desc.segment ≠ desc'.segment →
        ((FitsSegment card desc ∧ FitsSegment card' desc' ∧
            Disjoint (sampleRange card desc) (sampleRange card' desc')) ↔
          Widens desc ∧ Widens desc') := by
  have h := configured_invariant.reachable hreach
  have hok := acqStartChecks_ok.mp hacc
  have hfits := h.fitsSegment_iff hok
  refine ⟨hfits, ?_⟩
  intro card' desc' hreach' hn hacc' hne
  have h' := configured_invariant.reachable hreach'
  have hok' := acqStartChecks_ok.mp hacc'
  have hfits' := h'.fitsSegment_iff hok'
  constructor
  · rintro ⟨hf, hf', _⟩
    exact ⟨hfits.mp hf, hfits'.mp hf'⟩
  · rintro ⟨hw, hw'⟩
    exact ⟨hfits.mpr hw, hfits'.mpr hw',
      h.disjoint h' hn hok hok' hw hw' hne⟩

end Capacity

/-- A new sis3320 and one event of 16 Msamples in each of its two segments. -/
theorem two_halves_fit :
    FitsSegment (sis3320Probe ()) ⟨0, 1, 16777216, 0⟩ ∧
      FitsSegment (sis3320Probe ()) ⟨1, 1, 16777216, 0⟩ ∧
      Disjoint (sampleRange (sis3320Probe ()) ⟨0, 1, 16777216, 0⟩)
        (sampleRange (sis3320Probe ()) ⟨1, 1, 16777216, 0⟩) := by
  have hreach : (sis3320Config Unit).Reachable (sis3320Probe ()) :=
    .init ⟨(), rfl⟩
  have h := @acquisition_fits_iff Unit _ ⟨0, 1, 16777216, 0⟩ hreach (by rfl)
  exact (h.2 (sis3320Probe ()) ⟨1, 1, 16777216, 0⟩ hreach rfl (by rfl)
    (by decide)).mpr
    ⟨⟨by decide, by decide⟩, ⟨by decide, by decide⟩⟩

/-- 128 events of 32 Msamples are `2 ^ 32` samples, and no event at all is no
sample: the core accepts both. -/
theorem wrapped_acquisition_accepted :
    (sis3320Config Unit).Reachable (sis3320Probe ()) ∧
      acqStartChecks (sis3320Probe ()) ⟨0, 128, 33554432, 0⟩ = .ok () ∧
      ¬ FitsSegment (sis3320Probe ()) ⟨0, 128, 33554432, 0⟩ ∧
      acqStartChecks (sis3320Probe ()) ⟨0, 0, 64, 0⟩ = .ok () ∧
      ¬ FitsSegment (sis3320Probe ()) ⟨0, 0, 64, 0⟩ := by
  refine ⟨.init ⟨(), rfl⟩, rfl, ?_, rfl, ?_⟩
  · intro h
    exact absurd h.memory (by decide)
  · intro h
    exact absurd h.nrEvents (by decide)

end Coht.Sis33
