import Coht.Cvorg.SeqLayout

/-!
# How often the waveforms of a stored sequence are played

A start plays the sequence as often as `CVORG_SEQNR` says and in each turn
waveform `i` as often as the recurrence in its block says, where 0 stands for
endless. For more than one waveform the driver writes the requested numbers.
For a lone one it writes 1 and the product of the two, which it takes in 32
bits: a product that does not fit comes out smaller, or as 0.
-/

namespace Coht.Cvorg

/-- The number of times that a start plays block `i`, 0 for without an end. -/
def Channel.playCount (channel : Channel) (i : Nat) : Nat :=
  (channel.rchan CVORG_SEQNR).toNat *
    (channel.rchan (blockOffset i + CVORG_WFRECURR)).toNat

/-- The waveforms are played as often as was requested, or the sequence is
refused. -/
def CountsKept (status : Fin 10 → U32) (channel : Channel) (seq : CvorgSeq) :
    Prop :=
  (cvorgStoreseq status channel seq).1 = 0 →
    ∀ (i : Nat) (hi : i < seq.waves.length),
      (cvorgStoreseq status channel seq).2.1.playCount i =
        seq.nr.toNat * seq.waves[i].recurr.toNat

/-- The sequences that `cvorg_storeseq()` does not store. -/
def Refused (status : Fin 10 → U32) (seq : CvorgSeq) : Prop :=
  seqSize seq > availSram ∨ (seq.nWaves ≤ 0 ∨ seq.nWaves > CVORG_MAX_SEQUENCES) ∨
    cvorgSramBusy status = true

section Count

variable {channel : Channel} {wv : CvorgWv} {st : StoreLoop} {seq : CvorgSeq}
  {status : Fin 10 → U32} {a b f k n r : Nat} {v m : U32}

/-! ## One turn of the loop -/

theorem wchan_low (hr : r < CVORG_BLKOFFSET) :
    (channel.wchan (blockOffset a + f) v).regs r = channel.regs r := by
  rw [Channel.wchan_regs (block_ne_sramaddr a f)]
  apply Function.update_of_ne
  unfold blockOffset
  omega

theorem uchan_low (hr : r < CVORG_BLKOFFSET) :
    (channel.uchan (blockOffset a + f) v m).regs r = channel.regs r :=
  (wchan_low hr).trans (wchan_low hr)

theorem markIf_low {p : Prop} [Decidable p] (hr : r < CVORG_BLKOFFSET) :
    (if p then channel.uchan (blockOffset a + f) v m else channel).regs r =
      channel.regs r := by
  split
  · exact uchan_low hr
  · rfl

theorem gainStore_low (hr : r < CVORG_BLKOFFSET) :
    (cvorgWvGainStore channel (blockOffset a) wv).1.regs r =
      channel.regs r := by
  unfold cvorgWvGainStore
  dsimp only
  split
  · exact wchan_low hr
  · exact (uchan_low hr).trans ((wchan_low hr).trans (wchan_low hr))

theorem storeWv_low (hr : r < CVORG_BLKOFFSET) :
    (storeWv n st wv).channel.regs r = st.channel.regs r := by
  unfold storeWv cvorgWvMarkLast cvorgWvMarkPrev cvorgWvStore
  dsimp only
  rw [markIf_low hr, gainStore_low hr, wchan_low hr, wchan_low hr,
    wchan_low hr,
    show prevBlockOffset st.stored.length =
      blockOffset (st.stored.length - 1) from rfl,
    markIf_low hr, sram_regs]

theorem storeWv_recurr :
    (storeWv n st wv).channel.regs (blockOffset b + CVORG_WFRECURR) =
      if b = st.stored.length then wv.recurr
      else st.channel.regs (blockOffset b + CVORG_WFRECURR) := by
  unfold storeWv cvorgWvMarkLast cvorgWvMarkPrev cvorgWvStore
  dsimp only
  rw [markIf_field (by decide) (by decide),
    gainStore_field (by decide) (by decide),
    wchan_block (by decide) (by decide), wchan_block (by decide) (by decide),
    if_neg (c := b = _ ∧ CVORG_WFRECURR = CVORG_WFLEN) (fun h => by cases h.2),
    wchan_block (by decide) (by decide),
    if_neg (c := b = _ ∧ CVORG_WFRECURR = CVORG_WFSTART)
      (fun h => by cases h.2),
    show prevBlockOffset st.stored.length =
      blockOffset (st.stored.length - 1) from rfl,
    markIf_field (by decide) (by decide), sram_regs]
  simp only [and_true, normalizeWv]

/-! ## The whole sequence -/

structure Counted (seq : CvorgSeq) (k : Nat) (st : StoreLoop) : Prop where
  count : st.stored.length = k
  seqnr : st.channel.regs CVORG_SEQNR = seq.nr
  recurr : ∀ (b : Nat) (hb : b < seq.waves.length), b < k →
    st.channel.regs (blockOffset b + CVORG_WFRECURR) = seq.waves[b].recurr

theorem storeWaves_counted (channel : Channel)
    (hk : k ≤ (unrollSingle seq).waves.length) :
    Counted (unrollSingle seq) k (storeWaves channel seq k) := by
  induction k with
  | zero =>
    refine ⟨rfl, ?_, fun b _ h => absurd h (Nat.not_lt_zero b)⟩
    show (channel.wchan CVORG_SEQNR _).regs CVORG_SEQNR = _
    rw [Channel.wchan_regs (by decide)]
    exact Function.update_self _ _ _
  | succ k ih =>
    have h := ih (Nat.le_of_lt hk)
    have hstep : storeWaves channel seq (k + 1) =
        storeWv (unrollSingle seq).nWaves (storeWaves channel seq k)
          (unrollSingle seq).waves[k] := by
      unfold storeWaves
      dsimp only
      rw [List.take_succ_eq_append_getElem hk, List.foldl_append]
      rfl
    rw [hstep]
    refine ⟨?_, ?_, ?_⟩
    · show (_ ++ [_]).length = k + 1
      rw [List.length_append, h.count]
      rfl
    · rw [storeWv_low (by decide), h.seqnr]
    · intro b hb hbk
      rw [storeWv_recurr, h.count]
      by_cases heq : b = k
      · subst heq
        rw [if_pos rfl]
      · rw [if_neg heq]
        exact h.recurr b hb (by omega)

theorem writeSeq_playCount (channel : Channel) {i : Nat}
    (hi : i < (unrollSingle seq).waves.length) :
    (writeSeq channel seq).1.playCount i =
      (unrollSingle seq).nr.toNat *
        (unrollSingle seq).waves[i].recurr.toNat := by
  have hlen : (unrollSingle seq).waves.length = seq.nWaves := unrollSingle_nWaves
  have h := storeWaves_counted channel (Nat.le_of_eq hlen.symm)
  unfold writeSeq Channel.playCount Channel.rchan
  dsimp only
  rw [h.seqnr, h.recurr i hi (hlen ▸ hi)]

theorem unrollSingle_of_eq (h : seq.waves = [wv]) :
    unrollSingle seq =
      { nr := 1, waves := [{ wv with recurr := wv.recurr * seq.nr }] } := by
  unfold unrollSingle
  rw [h]

theorem storeseq_refused (h : Refused status seq) :
    (cvorgStoreseq status channel seq).1 ≠ 0 := by
  unfold cvorgStoreseq
  by_cases hsize : seqSize seq > availSram
  · rw [if_pos hsize]
    exact (by decide : -ENOMEM ≠ 0)
  rw [if_neg hsize]
  by_cases hcount : seq.nWaves ≤ 0 ∨ seq.nWaves > CVORG_MAX_SEQUENCES
  · rw [if_pos hcount]
    exact (by decide : -EINVAL ≠ 0)
  · rw [if_neg hcount, if_pos ((h.resolve_left hsize).resolve_left hcount)]
    exact (by decide : -EAGAIN ≠ 0)

theorem storeseq_stored (h : ¬Refused status seq) :
    cvorgStoreseq status channel seq = (0, writeSeq channel seq) := by
  unfold cvorgStoreseq
  rw [if_neg (fun hs => h (.inl hs)), if_neg (fun hn => h (.inr (.inl hn))),
    if_neg (fun hb => h (.inr (.inr hb)))]

/-- A sequence of more than one waveform is played as requested, and a lone
waveform if the product of the two numbers fits in the register. -/
theorem cvorgStoreseq_counts (status : Fin 10 → U32) (channel : Channel)
    (seq : CvorgSeq) :
    CountsKept status channel seq ↔
      Refused status seq ∨ seq.nWaves ≠ 1 ∨
        ∀ wv ∈ seq.waves, seq.nr.toNat * wv.recurr.toNat < 2 ^ 32 := by
  by_cases href : Refused status seq
  · exact iff_of_true (fun h0 => absurd h0 (storeseq_refused href)) (.inl href)
  have hkept : CountsKept status channel seq ↔
      ∀ (i : Nat) (hi : i < seq.waves.length),
        (writeSeq channel seq).1.playCount i =
          seq.nr.toNat * seq.waves[i].recurr.toNat := by
    unfold CountsKept
    rw [storeseq_stored href]
    exact ⟨fun h => h rfl, fun h _ => h⟩
  rw [hkept]
  by_cases hone : seq.nWaves = 1
  · obtain ⟨wv, hwv⟩ := List.length_eq_one_iff.mp hone
    have hunroll := unrollSingle_of_eq hwv
    have hi : 0 < (unrollSingle seq).waves.length := by
      rw [hunroll]
      exact Nat.one_pos
    have hcount : (writeSeq channel seq).1.playCount 0 =
        wv.recurr.toNat * seq.nr.toNat % 2 ^ 32 := by
      rw [writeSeq_playCount channel hi]
      simp only [hunroll, List.getElem_cons_zero, BitVec.toNat_mul]
      exact Nat.one_mul _
    have hfits : (∀ wv ∈ seq.waves, seq.nr.toNat * wv.recurr.toNat < 2 ^ 32) ↔
        seq.nr.toNat * wv.recurr.toNat < 2 ^ 32 := by
      rw [hwv]
      exact List.forall_mem_singleton
    constructor
    · intro h
      refine .inr (.inr (hfits.mpr ?_))
      have h0 := h 0 (by rw [hwv]; exact Nat.one_pos)
      simp only [hcount, hwv, List.getElem_cons_zero] at h0
      rw [← h0]
      exact Nat.mod_lt _ (by decide)
    · intro h i hlt
      obtain h | h | h := h
      · exact absurd h href
      · exact absurd hone h
      · have hi0 : i = 0 := by
          simp only [hwv, List.length_singleton] at hlt
          omega
        subst hi0
        simp only [hcount, hwv, List.getElem_cons_zero]
        rw [Nat.mul_comm, Nat.mod_eq_of_lt (hfits.mp h)]
  · refine iff_of_true (fun i hi => ?_) (.inr (.inl hone))
    have hunroll := unrollSingle_of_ne hone
    have hi' : i < (unrollSingle seq).waves.length := by rwa [hunroll]
    rw [writeSeq_playCount channel hi']
    simp only [hunroll]

/-- A waveform of two points that is to be played 2^32 times is played without
an end. -/
theorem cvorgStoreseq_endless :
    ¬∀ status channel seq, CountsKept status channel seq := by
  intro h
  have hcount := h (fun _ => 0) ⟨fun _ => 0, fun _ => 0, 0, []⟩
    { nr := 65536
      waves := [{ recurr := 65536, size := 4, dynamicGain := 0, gainVal := 0,
                  form := [0, 0], full := rfl }] } (by decide) 0 (by decide)
  rw [storeseq_stored (by unfold Refused; decide)] at hcount
  rw [writeSeq_playCount _ (by decide)] at hcount
  revert hcount
  decide

end Count

end Coht.Cvorg
