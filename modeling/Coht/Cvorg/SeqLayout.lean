import Coht.Cvorg.StoreSeq
import Coht.Lib.Word

/-!
# Where the waveforms of a sequence end up

A sequence is stored (`Stored`) if the blocks are played in order, each block
plays the points of its waveform, and the waveforms share no word of the SRAM
and stay inside it.

The next waveform starts where the bytes of the one before it end, but a
waveform of an odd number of points fills only half of its last word, so the
next one is written over that word. And the length field of a block has 20
bits, one too few for a waveform that fills the whole SRAM.
`cvorgStoreseq_stored_iff` says that nothing else goes wrong.
-/

namespace Coht.Cvorg

open Coht.Lib

namespace CvorgSeq

/-- The size in bytes of waveform `i`. -/
def size (seq : CvorgSeq) (i : Nat) : Nat :=
  ((seq.waves[i]?).map fun wv => wv.size.toNat).getD 0

/-- The normalised points of waveform `i`. -/
def points (seq : CvorgSeq) (i : Nat) : List U16 :=
  ((seq.waves[i]?).map fun wv => wv.form.map normalizePoint).getD []

end CvorgSeq

/-- The words that are written for waveform `i`. -/
def wordsOf (channel : Channel) (seq : CvorgSeq) (i : Nat) : List Nat :=
  (storeWaves channel seq (i + 1)).channel.written.drop
    (storeWaves channel seq i).channel.written.length

structure Stored (channel : Channel) (seq : CvorgSeq) (channel' : Channel) :
    Prop where
  order : channel'.Plays 0 (List.range seq.nWaves)
  points : ∀ i, i < seq.nWaves → channel'.played i = seq.points i
  disjoint : ∀ i j, i < j → j < seq.nWaves →
    List.Disjoint (wordsOf channel seq i) (wordsOf channel seq j)
  inside : ∀ i, i < seq.nWaves → ∀ w ∈ wordsOf channel seq i,
    w * 4 + 4 ≤ CVORG_SRAM_SIZE

section Loop

variable {channel : Channel} {seq : CvorgSeq} {i j k : Nat}

theorem unrollSingle_waves (seq : CvorgSeq) : ∃ f : CvorgWv → CvorgWv,
    (∀ wv, (f wv).size = wv.size ∧ (f wv).form = wv.form ∧
      (f wv).dynamicGain = wv.dynamicGain ∧ (f wv).gainVal = wv.gainVal) ∧
      (unrollSingle seq).waves = seq.waves.map f := by
  unfold unrollSingle
  split
  · next wv h =>
    refine ⟨fun wv => { wv with recurr := wv.recurr * seq.nr },
      fun wv => ⟨rfl, rfl, rfl, rfl⟩, ?_⟩
    rw [h]
    rfl
  · exact ⟨id, fun wv => ⟨rfl, rfl, rfl, rfl⟩, (List.map_id _).symm⟩

theorem unrollSingle_nWaves : (unrollSingle seq).nWaves = seq.nWaves := by
  obtain ⟨f, -, hf⟩ := unrollSingle_waves seq
  unfold CvorgSeq.nWaves
  rw [hf, List.length_map]

theorem unrollSingle_of_ne (h : seq.nWaves ≠ 1) : unrollSingle seq = seq := by
  unfold unrollSingle
  split
  · next wv hwv =>
    rw [CvorgSeq.nWaves, hwv] at h
    exact absurd rfl h
  · rfl

theorem seqSize_eq : seqSize seq = Packing.start seq.size seq.nWaves := by
  have htake : ∀ k, k ≤ seq.nWaves →
      ((seq.waves.take k).map (·.size.toNat)).sum =
        Packing.start seq.size k := by
    intro k
    induction k with
    | zero => intro _; rfl
    | succ k ih =>
      intro hk
      have hlt : k < seq.waves.length := hk
      rw [List.take_succ_eq_append_getElem hlt, List.map_append,
        List.sum_append, ih (Nat.le_of_lt hk)]
      simp [Packing.start, CvorgSeq.size, hlt]
  have h := htake seq.nWaves (Nat.le_refl _)
  rwa [CvorgSeq.nWaves, List.take_length] at h

theorem storeWaves_succ (channel : Channel) (hi : i < seq.nWaves) :
    ∃ wv : CvorgWv, wv.size.toNat = seq.size i ∧
      wv.form.map normalizePoint = seq.points i ∧
      storeWaves channel seq (i + 1) =
        storeWv seq.nWaves (storeWaves channel seq i) wv := by
  obtain ⟨f, hkeep, hf⟩ := unrollSingle_waves seq
  have hlt : i < seq.waves.length := hi
  have hlt' : i < (unrollSingle seq).waves.length := by
    rw [hf, List.length_map]
    exact hlt
  refine ⟨f seq.waves[i], ?_, ?_, ?_⟩
  · rw [(hkeep _).1, CvorgSeq.size, List.getElem?_eq_getElem hlt]
    rfl
  · rw [(hkeep _).2.1, CvorgSeq.points, List.getElem?_eq_getElem hlt]
    rfl
  · have hget : (unrollSingle seq).waves[i] = f seq.waves[i] := by
      simp only [hf, List.getElem_map]
    unfold storeWaves
    dsimp only
    rw [List.take_succ_eq_append_getElem hlt', List.foldl_append, hget,
      unrollSingle_nWaves]
    rfl

structure Laid (seq : CvorgSeq) (k : Nat) (st : StoreLoop) : Prop where
  count : st.stored.length = k
  ramaddr : st.ramaddr.toNat = Packing.start seq.size k
  starts : ∀ b, b < k →
    (st.channel.regs (blockOffset b + CVORG_WFSTART)).toNat =
      Packing.start seq.size b
  lens : ∀ b, b < k →
    (st.channel.regs (blockOffset b + CVORG_WFLEN)).toNat = seq.size b / 2
  nexts : ∀ b, b + 1 < k → st.channel.next b =
    BitVec.ofNat 32 (b + 1) &&& CVORG_WFNEXTBLK_NEXT_MASK
  last : 0 < k → k = seq.nWaves → st.channel.next (k - 1) = CVORG_WFNEXTBLK_LAST

theorem storeWaves_laid (channel : Channel)
    (hfits : Packing.start seq.size seq.nWaves ≤ CVORG_SRAM_SIZE)
    (hk : k ≤ seq.nWaves) : Laid seq k (storeWaves channel seq k) := by
  induction k with
  | zero =>
    exact ⟨rfl, rfl, fun b hb => absurd hb (Nat.not_lt_zero b),
      fun b hb => absurd hb (Nat.not_lt_zero b),
      fun b hb => absurd hb (Nat.not_lt_zero _),
      fun h => absurd h (Nat.lt_irrefl 0)⟩
  | succ k ih =>
    have h := ih (Nat.le_of_lt hk)
    obtain ⟨wv, hsize, -, hstep⟩ := storeWaves_succ channel hk
    rw [hstep]
    have hroom : Packing.start seq.size k + seq.size k ≤ CVORG_SRAM_SIZE :=
      Nat.le_trans (Packing.start_add_size_le _ hk) hfits
    unfold CVORG_SRAM_SIZE at hroom
    constructor
    · show (_ ++ [_]).length = k + 1
      rw [List.length_append, h.count]
      rfl
    · show ((storeWaves channel seq k).ramaddr + wv.size).toNat = _
      rw [BitVec.toNat_add, h.ramaddr, hsize]
      exact Nat.mod_eq_of_lt (Nat.lt_of_le_of_lt hroom (by decide))
    · intro b hb
      rw [storeWv_start, h.count]
      by_cases hbk : b = k
      · rw [if_pos hbk, h.ramaddr, hbk]
      · rw [if_neg hbk]
        exact h.starts b (by omega)
    · intro b hb
      rw [storeWv_len, h.count]
      by_cases hbk : b = k
      · rw [if_pos hbk, BitVec.toNat_udiv, hsize, hbk]
        rfl
      · rw [if_neg hbk]
        exact h.lens b (by omega)
    · intro b hb
      rw [storeWv_next, h.count, if_neg (by omega)]
      by_cases hbk : b + 1 = k
      · rw [if_pos hbk, hbk]
      · rw [if_neg hbk]
        exact h.nexts b (by omega)
    · intro _ hlast
      rw [storeWv_next, h.count, if_pos (by omega)]

theorem wordsOf_eq
    (hfits : Packing.start seq.size seq.nWaves ≤ CVORG_SRAM_SIZE)
    (heven : ∀ i, i < seq.nWaves → seq.size i % 2 = 0) (hi : i < seq.nWaves) :
    wordsOf channel seq i =
      Packing.units 4 (Packing.start seq.size i) (seq.size i) := by
  obtain ⟨wv, hsize, -, hstep⟩ := storeWaves_succ channel hi
  have h := storeWaves_laid channel hfits (Nat.le_of_lt hi)
  have hlen : 2 * wv.form.length = seq.size i := by
    have := heven i hi
    rw [wv.full, hsize]
    omega
  unfold wordsOf
  rw [hstep, storeWv_written, List.drop_left, h.ramaddr, hlen]

end Loop

/-! ## Playing the sequence -/

section Play

variable {channel : Channel} {seq : CvorgSeq} {i j k : Nat}

theorem points_length (hi : i < seq.nWaves) :
    (seq.points i).length = seq.size i / 2 := by
  have hlt : i < seq.waves.length := hi
  unfold CvorgSeq.points CvorgSeq.size
  rw [List.getElem?_eq_getElem hlt]
  exact (List.length_map _).trans seq.waves[i].full

theorem storeWv_empty {st : StoreLoop} {wv : CvorgWv} {n : Nat}
    (h : wv.form = []) :
    (storeWv n st wv).channel.sram = st.channel.sram := by
  rw [storeWv_writes.1, sram]
  simp only [normalizeWv, h, List.map_nil, writePoints]
  rw [Channel.wchan_sram]

theorem storeWaves_point
    (hfits : Packing.start seq.size seq.nWaves ≤ CVORG_SRAM_SIZE)
    (hsnug : Packing.Snug 4 seq.nWaves seq.size) (hk : k ≤ seq.nWaves)
    (hik : i < k) (hj : j < (seq.points i).length) :
    (storeWaves channel seq k).channel.point
      (Packing.start seq.size i + 2 * j) = (seq.points i)[j] := by
  induction k with
  | zero => exact absurd hik (Nat.not_lt_zero i)
  | succ k ih =>
    have h := storeWaves_laid channel hfits (Nat.le_of_lt hk)
    have hi : i < seq.nWaves := Nat.lt_of_lt_of_le hik hk
    have hbytes : 2 * j + 2 ≤ seq.size i := by
      rw [points_length hi] at hj
      omega
    obtain ⟨wv, hsize, hform, hstep⟩ :=
      storeWaves_succ channel hk
    rw [hstep]
    by_cases heq : i = k
    · subst heq
      have halign : (storeWaves channel seq i).ramaddr.toNat % 4 = 0 := by
        rw [h.ramaddr]
        exact hsnug.start_mod hi (by omega)
      have hj' : j < wv.form.length := by
        rw [← hform, List.length_map] at hj
        exact hj
      rw [← h.ramaddr, storeWv_point halign hj']
      simp only [← hform, List.getElem_map]
    · have hlt : i < k := by omega
      have hkeep : (storeWv seq.nWaves (storeWaves channel seq k) wv).channel.sram
          ((Packing.start seq.size i + 2 * j) / 4) =
          (storeWaves channel seq k).channel.sram
            ((Packing.start seq.size i + 2 * j) / 4) := by
        by_cases hzero : seq.size k = 0
        · refine congrFun (storeWv_empty ?_) _
          apply List.eq_nil_of_length_eq_zero
          rw [wv.full, hsize, hzero]
        · apply storeWv_sram
          have halign := hsnug.start_mod hk hzero
          have hend := Packing.start_add_size_le seq.size hlt
          rw [h.ramaddr]
          omega
      rw [point_congr hkeep]
      exact ih (Nat.le_of_lt hk) hlt

theorem plays_order (hn : seq.nWaves ≤ CVORG_MAX_SEQUENCES)
    (h : Laid seq seq.nWaves (storeWaves channel seq seq.nWaves)) {m b : Nat}
    (hm : b + m + 1 = seq.nWaves) :
    (storeWaves channel seq seq.nWaves).channel.Plays b
      (List.range' b (m + 1)) := by
  unfold CVORG_MAX_SEQUENCES at hn
  induction m generalizing b with
  | zero =>
    apply Channel.Plays.last
    have hlast := h.last (by omega) rfl
    rwa [show seq.nWaves - 1 = b by omega] at hlast
  | succ m ih =>
    have hnext := h.nexts b (by omega)
    have hnat : (BitVec.ofNat 32 (b + 1) &&&
        CVORG_WFNEXTBLK_NEXT_MASK).toNat = b + 1 := by
      rw [toNat_and_low (k := 5) rfl, BitVec.toNat_ofNat]
      omega
    rw [List.range'_succ]
    apply Channel.Plays.more
    · intro heq
      rw [hnext] at heq
      rw [heq] at hnat
      have hlast : CVORG_WFNEXTBLK_LAST.toNat = 31 := rfl
      omega
    · rw [hnext, hnat]
      exact ih (by omega)

theorem played_length
    (h : Laid seq seq.nWaves (storeWaves channel seq seq.nWaves))
    (hi : i < seq.nWaves) :
    ((storeWaves channel seq seq.nWaves).channel.played i).length =
      seq.size i / 2 % 2 ^ 20 := by
  unfold Channel.played
  dsimp only
  rw [List.length_map, List.length_range, toNat_and_low (k := 20) rfl]
  exact congrArg (· % 2 ^ 20) (h.lens i hi)

theorem played_points
    (hfits : Packing.start seq.size seq.nWaves ≤ CVORG_SRAM_SIZE)
    (hsnug : Packing.Snug 4 seq.nWaves seq.size)
    (hshort : seq.size i / 2 < 2 ^ 20) (hi : i < seq.nWaves) :
    (storeWaves channel seq seq.nWaves).channel.played i = seq.points i := by
  have h := storeWaves_laid channel hfits (Nat.le_refl _)
  have hlen : ((storeWaves channel seq seq.nWaves).channel.played i).length =
      (seq.points i).length := by
    rw [played_length h hi, points_length hi, Nat.mod_eq_of_lt hshort]
  apply List.ext_getElem hlen
  intro j hj hj'
  have hend := Packing.start_add_size_le seq.size hi
  have hbytes : 2 * j + 2 ≤ seq.size i := by
    rw [points_length hi] at hj'
    omega
  have hstart : ((storeWaves channel seq seq.nWaves).channel.rchan
      (blockOffset i + CVORG_WFSTART) &&& CVORG_WFSTART_MASK).toNat =
        Packing.start seq.size i := by
    unfold CVORG_SRAM_SIZE at hfits
    rw [toNat_and_low (k := 21) rfl, Channel.rchan, h.starts i hi]
    exact Nat.mod_eq_of_lt (by omega)
  unfold Channel.played
  simp only [List.getElem_map, List.getElem_range, hstart]
  exact storeWaves_point hfits hsnug (Nat.le_refl _) hi hj'

end Play

/-! ## When a sequence is stored -/

theorem cvorgStoreseq_zero {status : Fin 10 → U32}
    {channel channel' : Channel} {seq seq' : CvorgSeq}
    (h : cvorgStoreseq status channel seq = (0, channel', seq')) :
    seqSize seq ≤ CVORG_SRAM_SIZE ∧ seq.nWaves ≤ CVORG_MAX_SEQUENCES ∧
      0 < seq.nWaves ∧ (channel', seq') = writeSeq channel seq := by
  unfold cvorgStoreseq at h
  split at h
  · cases congrArg Prod.fst h
  · split at h
    · cases congrArg Prod.fst h
    · next hsize hn =>
      split at h
      · cases congrArg Prod.fst h
      · unfold availSram at hsize
        exact ⟨by omega, by omega, by omega, (congrArg Prod.snd h).symm⟩

/-- A sequence is stored if and only if no waveform of an odd number of points
has a nonempty one after it, and no waveform is as long as the SRAM. -/
theorem cvorgStoreseq_stored_iff {status : Fin 10 → U32}
    {channel channel' : Channel} {seq seq' : CvorgSeq}
    (h : cvorgStoreseq status channel seq = (0, channel', seq'))
    (heven : ∀ i, i < seq.nWaves → seq.size i % 2 = 0) :
    Stored channel seq channel' ↔
      (∀ i j, i < j → j < seq.nWaves → seq.size i % 4 = 0 ∨ seq.size j = 0) ∧
        ∀ i, i < seq.nWaves → seq.size i / 2 < 2 ^ 20 := by
  obtain ⟨hsize, hn, hpos, hwrite⟩ := cvorgStoreseq_zero h
  cases hwrite
  have hfits : Packing.start seq.size seq.nWaves ≤ CVORG_SRAM_SIZE := by
    rwa [← seqSize_eq]
  have hlaid := storeWaves_laid channel hfits (Nat.le_refl _)
  have hwords : ∀ i, i < seq.nWaves → wordsOf channel seq i =
      Packing.units 4 (Packing.start seq.size i) (seq.size i) :=
    fun i hi => wordsOf_eq hfits heven hi
  constructor
  · intro hstored
    constructor
    · apply Packing.snug_of_disjoint (by decide)
      intro i j hij hj
      rw [← hwords i (Nat.lt_trans hij hj), ← hwords j hj]
      exact hstored.disjoint i j hij hj
    · intro i hi
      have hlen := congrArg List.length (hstored.points i hi)
      rw [points_length hi] at hlen
      have hplayed := (played_length hlaid hi).symm.trans hlen
      have := Nat.mod_lt (seq.size i / 2) (show 0 < 2 ^ 20 by decide)
      omega
  · rintro ⟨hsnug, hshort⟩
    refine ⟨?_, fun i hi => played_points hfits hsnug (hshort i hi) hi, ?_, ?_⟩
    · rw [List.range_eq_range']
      obtain ⟨m, hm⟩ : ∃ m, seq.nWaves = m + 1 := ⟨seq.nWaves - 1, by omega⟩
      have := plays_order hn hlaid (m := m) (b := 0) (by omega)
      rwa [← hm] at this
    · intro i j hij hj
      rw [hwords i (Nat.lt_trans hij hj), hwords j hj]
      exact Packing.Snug.disjoint (by decide) hsnug hij hj
    · intro i hi w hw
      rw [hwords i hi] at hw
      have hend := Packing.start_add_size_le seq.size hi
      exact Packing.units_below (by decide) ⟨0x80000, rfl⟩
        (Nat.le_trans hend hfits) hw

/-! Three points and two: the third point of the first waveform and the first
two of the second go to the same word. -/

def clearedChannel : Channel :=
  { regs := fun _ => 0, sram := fun _ => 0, sramaddr := 0, written := [] }

def threeThenTwo : CvorgSeq :=
  { nr := 1
    waves := [⟨1, 6, 0, 0, [4, 8, 12], rfl⟩, ⟨1, 4, 0, 0, [16, 20], rfl⟩] }

def twoThenThree : CvorgSeq :=
  { nr := 1
    waves := [⟨1, 4, 0, 0, [16, 20], rfl⟩, ⟨1, 6, 0, 0, [4, 8, 12], rfl⟩] }

theorem third_point_overwritten :
    ¬ ∀ (status : Fin 10 → U32) (channel channel' : Channel)
        (seq seq' : CvorgSeq),
        cvorgStoreseq status channel seq = (0, channel', seq') →
        (∀ i, i < seq.nWaves → seq.size i % 2 = 0) →
        Stored channel seq channel' := by
  intro h
  have hstored := h (fun _ => 0) clearedChannel _ threeThenTwo _ rfl (by decide)
  have hfirst : 1 ∈ wordsOf clearedChannel threeThenTwo 0 := by decide +kernel
  have hsecond : 1 ∈ wordsOf clearedChannel threeThenTwo 1 := by decide +kernel
  exact hstored.disjoint 0 1 (by decide) (by decide) hfirst hsecond

theorem cvorgStoreseq_stored_iff_two :
    Stored clearedChannel twoThenThree
        (writeSeq clearedChannel twoThenThree).1 ↔
      (∀ i j, i < j → j < 2 →
        twoThenThree.size i % 4 = 0 ∨ twoThenThree.size j = 0) ∧
        ∀ i, i < 2 → twoThenThree.size i / 2 < 2 ^ 20 :=
  @cvorgStoreseq_stored_iff (fun _ => 0) clearedChannel _ twoThenThree _ rfl
    (by decide)

end Coht.Cvorg
