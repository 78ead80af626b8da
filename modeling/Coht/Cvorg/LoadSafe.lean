import Coht.Cvorg.LoadBooks
import Coht.Cvorg.SeqLayout

/-!
# When a load is safe

A load is safe if what the module was given passes validation, with the number
of points counted without overflow, and if every block of memory that was
allocated for it has been freed once and nothing else has.

Validation and copy read the same descriptors at different moments and the
product of recurrence and size is taken in 32 bits, so the first half depends
on what the memory of the user holds when it is copied (`Playable`). The second
half depends on what the clean-up finds in the array when a copy fails
(`CleanAt`). `cvorgChanLoadseq_safe_iff` is about every world.
-/

namespace Coht.Cvorg

open Coht.Lib

structure Safe (set : Settings) (r : LoadResult) : Prop where
  valid : ∀ seq ∈ r.written,
    cvorgInvalidSeq exactBytes set seq.nr seq.nWaves true seq.read = 0
  freed : r.books.Balanced

/-- The copying begins: the channel is ready, validation finds nothing in what
it reads, and there is memory for the array. -/
structure Begins (w : World) (set : Settings) (user : UserSeq) : Prop where
  ready : cvorgChannelReady w.ready = true
  checked : cvorgInvalidSeq wrappedBytes set user.nr user.nWaves.toNat
    (user.waves ≠ 0) (userRead w) = 0
  array : w.array.isSome

/-- The module takes the sequence of the first `n` descriptors. -/
structure Accepts (w : World) (n : Nat) : Prop where
  fits : ((List.range n).map fun i => (w.desc i).size.toNat).sum ≤ availSram
  count : n ≤ CVORG_MAX_SEQUENCES
  idle : cvorgSramBusy w.status = false

/-- A descriptor that may be played, its gain rounded to one of the module's. -/
structure Playable (set : Settings) (nr : U32) (n : Nat) (wv : WvDesc) :
    Prop where
  gain : wv.dynamicGain ≠ 0 → set.outoff = CVORG_OUT_OFFSET_2_5V →
    cvorgGainApprox wv.gainVal.toInt = 14
  freq : 1 < n → cvorgMustCheckFreqlimit nr n = true → wv.recurr ≠ 0 →
    cvorgFreqlimitCheck (exactBytes wv.recurr wv.size / 2) set.sampfreq = false
  points : set.sampfreq > 50000000 → 2 ≤ wv.size.toNat / 2

/-! ## The sequence as it is stored -/

section Stored

variable {wv : CvorgWv} {seq : CvorgSeq} {gain : Int}

def roundGain (wv : CvorgWv) : CvorgWv :=
  if wv.dynamicGain = 0 then wv
  else { wv with gainVal := BitVec.ofInt 32 (cvorgGainApprox wv.gainVal.toInt) }

theorem gainStore_wv {channel : Channel} {block : Nat} :
    (cvorgWvGainStore channel block wv).2 = roundGain wv := by
  unfold cvorgWvGainStore roundGain
  dsimp only
  split <;> rfl

theorem foldl_stored {n : Nat} {wvs : List CvorgWv} {st : StoreLoop} :
    (wvs.foldl (storeWv n) st).stored =
      st.stored ++ wvs.map fun wv => roundGain (normalizeWv wv) := by
  induction wvs generalizing st with
  | nil => exact (List.append_nil _).symm
  | cons wv wvs ih =>
    have hone : (storeWv n st wv).stored =
        st.stored ++ [roundGain (normalizeWv wv)] := by
      unfold storeWv cvorgWvStore
      dsimp only
      rw [gainStore_wv]
    rw [List.foldl_cons, ih, hone, List.append_assoc, List.map_cons,
      List.singleton_append]

theorem writeSeq_seq {channel : Channel} :
    (writeSeq channel seq).2 =
      { nr := (unrollSingle seq).nr
        waves := (unrollSingle seq).waves.map fun wv =>
          roundGain (normalizeWv wv) } := by
  unfold writeSeq storeWaves
  dsimp only
  have hall : (unrollSingle seq).waves.take seq.nWaves =
      (unrollSingle seq).waves := by
    rw [← unrollSingle_nWaves]
    exact List.take_length
  rw [hall, foldl_stored]
  rfl

theorem cvorgNearest_mem {array : List Int} (hne : array ≠ []) :
    cvorgNearest array gain ∈ array := by
  have hfold : ∀ (l : List Int) (best : Nat × Int), best.2 ∈ array →
      (∀ x ∈ l, x ∈ array) →
      (l.foldl (fun best x =>
        let diff := cvorgAbsdiff x gain
        if diff < best.1 then (diff, x) else best) best).2 ∈ array := by
    intro l
    induction l with
    | nil => intro best hbest _; exact hbest
    | cons x l ih =>
      intro best hbest hl
      apply ih
      · dsimp only
        split
        · exact hl x List.mem_cons_self
        · exact hbest
      · intro y hy
        exact hl y (List.mem_cons_of_mem x hy)
  apply hfold
  · cases array with
    | nil => exact absurd rfl hne
    | cons x array => exact List.mem_cons_self
  · exact fun x hx => hx

theorem cvorgGainApprox_mem : cvorgGainApprox gain ∈ cvorgGains := by
  unfold cvorgGainApprox
  split
  · decide
  · split
    · decide
    · exact cvorgNearest_mem (by decide)

theorem cvorgGainApprox_toInt :
    (BitVec.ofInt 32 (cvorgGainApprox gain)).toInt = cvorgGainApprox gain := by
  have hall : ∀ x ∈ cvorgGains, (BitVec.ofInt 32 x).toInt = x := by decide
  exact hall _ cvorgGainApprox_mem

end Stored

/-! ## Validation of what is stored -/

section Valid

variable {w : World} {set : Settings} {nr : U32} {n i : Nat}

theorem cvorgInvalidSeq_eq_zero {bytes : U32 → U32 → Nat}
    {read : Nat → Check → U32} (hn : n ≠ 0) :
    cvorgInvalidSeq bytes set nr n true read = 0 ↔
      ∀ i, i < n → invalidWv bytes set nr n (read i) = false := by
  unfold cvorgInvalidSeq
  rw [if_neg hn, if_neg (by simp)]
  constructor
  · intro h i hi
    split at h
    · cases h
    · next hany =>
      rw [List.any_eq_true] at hany
      rw [← Bool.not_eq_true]
      exact fun hbad => hany ⟨i, List.mem_range.mpr hi, hbad⟩
  · intro h
    rw [if_neg]
    rw [List.any_eq_true]
    rintro ⟨i, hi, hbad⟩
    rw [h i (List.mem_range.mp hi)] at hbad
    cases hbad

theorem invalidWv_false_iff {read : Check → U32} {wv : WvDesc}
    (hdyn : read .dynamicGain = wv.dynamicGain)
    (hgain : wv.dynamicGain ≠ 0 →
      (read .gainVal).toInt = cvorgGainApprox wv.gainVal.toInt)
    (hrecurr : 1 < n → read .recurr = wv.recurr ∧
      read .recurrAgain = wv.recurr)
    (hone : n = 1 → cvorgMustCheckFreqlimit nr n = false)
    (hn : n ≠ 0) (hsize : read .size = wv.size)
    (hsize' : read .sizeAgain = wv.size) :
    invalidWv exactBytes set nr n read = false ↔ Playable set nr n wv := by
  have hg : cvorgCheckGainOffsetWv set read = false ↔
      (wv.dynamicGain ≠ 0 → set.outoff = CVORG_OUT_OFFSET_2_5V →
        cvorgGainApprox wv.gainVal.toInt = 14) := by
    unfold cvorgCheckGainOffsetWv cvorgInvalidGainOffset
    rw [hdyn]
    by_cases hd : wv.dynamicGain = 0
    · simp [hd]
    · rw [hgain hd]
      simp
  have hf : cvorgInvalidFreqlimit exactBytes set nr n read = false ↔
      (1 < n → cvorgMustCheckFreqlimit nr n = true → wv.recurr ≠ 0 →
        cvorgFreqlimitCheck (exactBytes wv.recurr wv.size / 2) set.sampfreq =
          false) := by
    unfold cvorgInvalidFreqlimit
    by_cases hlone : n = 1
    · rw [if_pos (.inl (by rw [hone hlone]; rfl))]
      exact ⟨fun _ hlt => absurd hlone (by omega), fun _ => rfl⟩
    · have hlt : 1 < n := by omega
      rw [(hrecurr hlt).1, (hrecurr hlt).2, hsize]
      by_cases hmust : cvorgMustCheckFreqlimit nr n = true
      · by_cases hzero : wv.recurr = 0
        · simp [hmust, hzero]
        · simp [hmust, hlt]
      · simp [hmust]
  have hp : decide (set.sampfreq > 50000000 ∧
        (read .sizeAgain).toNat / 2 < 2) = false ↔
      (set.sampfreq > 50000000 → 2 ≤ wv.size.toNat / 2) := by
    rw [hsize', decide_eq_false_iff_not, not_and, Nat.not_lt]
  unfold invalidWv
  rw [Bool.or_eq_false_iff, Bool.or_eq_false_iff, hg, hf, hp]
  exact ⟨fun h => ⟨h.1.1, h.1.2, h.2⟩, fun h => ⟨⟨h.gain, h.freq⟩, h.points⟩⟩

end Valid

section Kernel

variable {w : World} {set : Settings} {nr : U32} {n i : Nat}
  {waves : Nat → WvDesc} {seq : CvorgSeq} {channel : Channel}
  {status : Fin 10 → U32}

theorem entry_fields (hcopy : Copies w i) :
    ∃ p, entry w i = { w.desc i with form := p } := by
  have htorn : ¬ w.copied (.desc i) < sizeofCvorgWv :=
    Nat.not_lt.mpr hcopy.desc
  unfold entry copyWvFromUser World.desc
  dsimp only
  rw [if_neg htorn]
  rcases kmalloc w i ((w.mem (.desc i)).wave i).size {} with ⟨_ | p, books⟩
  · exact ⟨0, rfl⟩
  · refine ⟨p, ?_⟩
    dsimp only
    split <;> rfl

theorem kernelSeq_nWaves : (kernelSeq w nr n waves).nWaves = n := by
  unfold kernelSeq CvorgSeq.nWaves
  rw [List.length_map, List.length_range]

theorem kernelSeq_size (hwaves : ∀ i, i < n → waves i = entry w i)
    (hcopy : ∀ i, i < n → Copies w i) :
    seqSize (kernelSeq w nr n waves) =
      ((List.range n).map fun i => (w.desc i).size.toNat).sum := by
  unfold seqSize kernelSeq
  rw [List.map_map]
  congr 1
  apply List.map_congr_left
  intro i hi
  have hlt := List.mem_range.mp hi
  obtain ⟨p, hp⟩ := entry_fields (hcopy i hlt)
  show (waves i).size.toNat = _
  rw [hwaves i hlt, hp]

theorem unrollSingle_nr (h : seq.nWaves = 1) : (unrollSingle seq).nr = 1 := by
  obtain ⟨wv, hwv⟩ := List.length_eq_one_iff.mp h
  unfold unrollSingle
  rw [hwv]

theorem unrollSingle_recurr (h : 1 < seq.nWaves) :
    (unrollSingle seq).nr = seq.nr ∧ (unrollSingle seq).waves = seq.waves := by
  rw [unrollSingle_of_ne (by omega)]
  exact ⟨rfl, rfl⟩

theorem Playable.congr_nr {nr' : U32} {wv : WvDesc} (h : 1 < n → nr' = nr) :
    Playable set nr' n wv ↔ Playable set nr n wv := by
  constructor
  · intro hp
    refine ⟨hp.gain, fun hlt => ?_, hp.points⟩
    have := hp.freq hlt
    rwa [h hlt] at this
  · intro hp
    refine ⟨hp.gain, fun hlt => ?_, hp.points⟩
    rw [h hlt]
    exact hp.freq hlt

theorem roundGain_read {wv : CvorgWv} :
    (roundGain wv).dynamicGain = wv.dynamicGain ∧
      (roundGain wv).recurr = wv.recurr ∧ (roundGain wv).size = wv.size ∧
      (wv.dynamicGain ≠ 0 → (roundGain wv).gainVal.toInt =
        cvorgGainApprox wv.gainVal.toInt) := by
  unfold roundGain
  split
  · next h => exact ⟨rfl, rfl, rfl, fun hne => absurd h hne⟩
  · exact ⟨rfl, rfl, rfl, fun _ => cvorgGainApprox_toInt⟩

theorem stored_valid_iff (hn : n ≠ 0)
    (hwaves : ∀ i, i < n → waves i = entry w i)
    (hcopy : ∀ i, i < n → Copies w i) (s : CvorgSeq)
    (hs : s = (writeSeq channel (kernelSeq w nr n waves)).2) :
    cvorgInvalidSeq exactBytes set s.nr s.nWaves true s.read = 0 ↔
      ∀ i, i < n → Playable set nr n (w.desc i) := by
  obtain ⟨f, hkeep, hf⟩ := unrollSingle_waves (kernelSeq w nr n waves)
  have hnr : s.nr = (unrollSingle (kernelSeq w nr n waves)).nr := by
    rw [hs, writeSeq_seq]
  have hws : s.waves = (unrollSingle (kernelSeq w nr n waves)).waves.map
      fun wv => roundGain (normalizeWv wv) := by
    rw [hs, writeSeq_seq]
  have hcount : s.nWaves = n := by
    rw [CvorgSeq.nWaves, hws, List.length_map]
    exact unrollSingle_nWaves.trans kernelSeq_nWaves
  rw [hcount, cvorgInvalidSeq_eq_zero hn]
  apply forall₂_congr
  intro i hi
  obtain ⟨p, hp⟩ := entry_fields (hcopy i hi)
  have hget : (unrollSingle (kernelSeq w nr n waves)).waves[i]? =
      some (f (kernelWv w waves i)) := by
    rw [hf]
    simp [kernelSeq, hi]
  have hread : s.read i =
      (roundGain (normalizeWv (f (kernelWv w waves i)))).read := by
    unfold CvorgSeq.read
    rw [hws, List.getElem?_map, hget]
    rfl
  obtain ⟨hsizef, -, hdynf, hgainf⟩ := hkeep (kernelWv w waves i)
  have hdesc : waves i = { w.desc i with form := p } := (hwaves i hi).trans hp
  have hk : (kernelWv w waves i).dynamicGain = (w.desc i).dynamicGain ∧
      (kernelWv w waves i).gainVal = (w.desc i).gainVal ∧
      (kernelWv w waves i).size = (w.desc i).size ∧
      (kernelWv w waves i).recurr = (w.desc i).recurr := by
    simp only [kernelWv, hdesc, and_self]
  have hdyn : (normalizeWv (f (kernelWv w waves i))).dynamicGain =
      (w.desc i).dynamicGain := hdynf.trans hk.1
  have hgain : (normalizeWv (f (kernelWv w waves i))).gainVal =
      (w.desc i).gainVal := hgainf.trans hk.2.1
  have hsize : (normalizeWv (f (kernelWv w waves i))).size =
      (w.desc i).size := hsizef.trans hk.2.2.1
  have hrecurr : 1 < n → (normalizeWv (f (kernelWv w waves i))).recurr =
      (w.desc i).recurr := by
    intro hlt
    rw [(unrollSingle_recurr (by rw [kernelSeq_nWaves]; exact hlt)).2] at hget
    have hsame : f (kernelWv w waves i) = kernelWv w waves i := by
      simpa [kernelSeq, hi] using hget.symm
    exact (congrArg CvorgWv.recurr hsame).trans hk.2.2.2
  rw [hread]
  generalize normalizeWv (f (kernelWv w waves i)) = wv at hdyn hgain hsize hrecurr
  obtain ⟨hdyn', hrecurr', hsize', hgain'⟩ := @roundGain_read wv
  rw [hdyn, hgain] at hgain'
  refine (@invalidWv_false_iff set s.nr n _ (w.desc i) (hdyn'.trans hdyn) hgain'
    (fun hlt => ⟨hrecurr'.trans (hrecurr hlt), hrecurr'.trans (hrecurr hlt)⟩)
    ?_ hn (hsize'.trans hsize) (hsize'.trans hsize)).trans (Playable.congr_nr ?_)
  · intro hone
    rw [hnr, unrollSingle_nr (kernelSeq_nWaves.trans hone), hone]
    decide
  · intro hlt
    rw [hnr, (unrollSingle_recurr (by rw [kernelSeq_nWaves]; exact hlt)).1]
    rfl

end Kernel

/-! ## The call -/

section Call

variable {w : World} {set : Settings} {user : UserSeq} {n k : Nat}
  {channel : Channel} {status : Fin 10 → U32} {seq : CvorgSeq} {p : Block}

theorem loadSeq_zero (hn : seq.nWaves ≠ 0) :
    (loadSeq status channel seq).1 = 0 ↔
      seqSize seq ≤ availSram ∧ seq.nWaves ≤ CVORG_MAX_SEQUENCES ∧
        cvorgSramBusy status = false := by
  unfold loadSeq cvorgStoreseq
  by_cases hsize : seqSize seq > availSram
  · rw [if_pos hsize]
    exact ⟨fun h => (by cases h), fun h => absurd h.1 (Nat.not_le.mpr hsize)⟩
  · rw [if_neg hsize]
    by_cases hcount : seq.nWaves ≤ 0 ∨ seq.nWaves > CVORG_MAX_SEQUENCES
    · rw [if_pos hcount]
      exact ⟨fun h => (by cases h), fun h => (by omega)⟩
    · rw [if_neg hcount]
      by_cases hbusy : cvorgSramBusy status = true
      · rw [if_pos hbusy, hbusy]
        exact ⟨fun h => (by cases h), fun h => (by cases h.2.2)⟩
      · rw [if_neg hbusy]
        exact ⟨fun _ => ⟨by omega, by omega, Bool.not_eq_true _ ▸ hbusy⟩,
          fun _ => rfl⟩

theorem loadSeq_seq (h : (loadSeq status channel seq).1 = 0) :
    (loadSeq status channel seq).2.2 =
      (writeSeq (cvorgQuiesceChannel channel) seq).2 := by
  unfold loadSeq at h ⊢
  dsimp only at h ⊢
  by_cases hret :
      (cvorgStoreseq status (cvorgQuiesceChannel channel) seq).1 = 0
  · rw [if_neg (not_not.mpr hret)]
    have hwrite := (cvorgStoreseq_zero (Prod.ext hret rfl)).2.2.2
    rw [← hwrite]
  · rw [if_pos hret] at h
    cases h

theorem balanced_empty : ({} : Ledger Nat).Balanced := ⟨fun _ => rfl, rfl⟩

theorem safe_of_not_begins (h : ¬ Begins w set user) :
    Safe set (cvorgChanLoadseq w set channel user) := by
  have hnothing : ∀ ret,
      Safe set { ret, channel, written := none, books := {} } :=
    fun _ => ⟨fun _ hmem => (by cases hmem), balanced_empty⟩
  unfold cvorgChanLoadseq
  dsimp only
  by_cases hready : cvorgChannelReady w.ready = true
  · rw [if_neg (by rw [hready]; decide)]
    split
    · exact hnothing _
    · next hchecked =>
      have harray : w.array = none := by
        by_contra hsome
        exact h ⟨hready, not_not.mp hchecked,
          Option.isSome_iff_ne_none.mpr hsome⟩
      unfold seqInit
      simp only [harray]
      exact hnothing _
  · rw [if_pos (by rw [Bool.not_eq_true] at hready; rw [hready]; rfl)]
    exact hnothing _

theorem Begins.pos (h : Begins w set user) : user.nWaves.toNat ≠ 0 := by
  intro h0
  have hchecked := h.checked
  unfold cvorgInvalidSeq at hchecked
  rw [if_pos h0] at hchecked
  cases hchecked

theorem balanced_of_copies (hall : ∀ i, i < n → Copies w i) :
    (Ledger.releaseAll
      (((List.range n).flatMap fun i => freed
          (if 0 ≤ i ∧ i < 0 + n then entry w i else w.stale i)) ++ [p.1])
      (Ledger.acquireAll (p.1 :: (List.range n).flatMap (acquired w))
        {})).Balanced := by
  have hsame : ((List.range n).flatMap fun i => freed
      (if 0 ≤ i ∧ i < 0 + n then entry w i else w.stale i)) =
        (List.range n).flatMap (acquired w) := by
    apply List.flatMap_congr
    intro i hi
    have hlt := List.mem_range.mp hi
    rw [if_pos (by omega)]
    exact freed_entry (hall i hlt).desc
  rw [hsame, Ledger.balanced_iff_perm]
  exact List.perm_append_singleton p.1 _

theorem safe_iff_of_copies (h : Begins w set user)
    (hall : ∀ i, i < user.nWaves.toNat → Copies w i) :
    Safe set (cvorgChanLoadseq w set channel user) ↔
      (Accepts w user.nWaves.toNat → ∀ i, i < user.nWaves.toNat →
        Playable set user.nr user.nWaves.toNat (w.desc i)) := by
  obtain ⟨p, harray⟩ := Option.isSome_iff_exists.mp h.array
  have hn := h.pos
  have hinit : seqInit w user.nWaves.toNat {} =
      (0, (fun j => if 0 ≤ j ∧ j < 0 + user.nWaves.toNat then entry w j
          else w.stale j),
        Ledger.acquireAll
          (p.1 :: (List.range user.nWaves.toNat).flatMap (acquired w)) {}) := by
    unfold seqInit
    simp only [harray]
    rw [copyWaves_ok fun j _ hj => hall j (by omega)]
    rw [if_neg (by simp), List.range_eq_range']
    rfl
  have hbooks := balanced_of_copies (p := p) hall
  rw [← freeSeq_eq hn] at hbooks
  unfold cvorgChanLoadseq
  dsimp only
  rw [if_neg (by rw [h.ready]; decide), if_neg (by rw [h.checked]; simp), hinit,
    if_neg (by simp)]
  dsimp only
  rw [harray]
  have hwaves : ∀ i, i < user.nWaves.toNat →
      (fun j => if 0 ≤ j ∧ j < 0 + user.nWaves.toNat then entry w j
        else w.stale j) i = entry w i := by
    intro i hi
    exact if_pos (by omega)
  generalize (fun j => if 0 ≤ j ∧ j < 0 + user.nWaves.toNat then entry w j
    else w.stale j) = waves at hbooks hwaves
  have hkn : (kernelSeq w user.nr user.nWaves.toNat waves).nWaves ≠ 0 := by
    rw [kernelSeq_nWaves]
    exact hn
  have haccepts : (loadSeq w.status channel
      (kernelSeq w user.nr user.nWaves.toNat waves)).1 = 0 ↔
        Accepts w user.nWaves.toNat := by
    rw [loadSeq_zero hkn, kernelSeq_nWaves, kernelSeq_size hwaves hall]
    exact ⟨fun hacc => ⟨hacc.1, hacc.2.1, hacc.2.2⟩,
      fun hacc => ⟨hacc.fits, hacc.count, hacc.idle⟩⟩
  by_cases hstored : (loadSeq w.status channel
      (kernelSeq w user.nr user.nWaves.toNat waves)).1 = 0
  · rw [if_neg (not_not.mpr hstored)]
    have hvalid := @stored_valid_iff w set user.nr _ waves _ hn hwaves hall _
      (loadSeq_seq hstored)
    constructor
    · intro hsafe _
      exact hvalid.mp (hsafe.valid _ rfl)
    · intro hplay
      refine ⟨?_, hbooks⟩
      rintro seq ⟨⟩
      exact hvalid.mpr (hplay (haccepts.mp hstored))
  · rw [if_pos hstored]
    exact ⟨fun _ hacc => absurd (haccepts.mpr hacc) hstored,
      fun _ => ⟨fun _ hmem => (by cases hmem), hbooks⟩⟩

theorem safe_iff_of_fails (h : Begins w set user)
    (hk : k < user.nWaves.toNat) (hbefore : ∀ j, j < k → Copies w j)
    (hfail : ¬ Copies w k) :
    Safe set (cvorgChanLoadseq w set channel user) ↔
      CleanAt w user.nWaves.toNat k := by
  obtain ⟨p, harray⟩ := Option.isSome_iff_exists.mp h.array
  have hn := h.pos
  have hlt : k < 0 + user.nWaves.toNat := by omega
  have hinit : seqInit w user.nWaves.toNat {} =
      (-1, (fun j => if 0 ≤ j ∧ j ≤ k then entry w j else w.stale j),
        freeSeq user.nWaves.toNat (some p)
          (fun j => if 0 ≤ j ∧ j ≤ k then entry w j else w.stale j)
          (Ledger.acquireAll
            (p.1 :: (List.range (k + 1)).flatMap (acquired w)) {})) := by
    unfold seqInit
    simp only [harray]
    rw [copyWaves_fails (Nat.zero_le k) hlt (fun j _ hj => hbefore j hj) hfail,
      if_pos (by simp), Nat.sub_zero, List.range_eq_range']
    rfl
  unfold cvorgChanLoadseq
  dsimp only
  rw [if_neg (by rw [h.ready]; decide), if_neg (by rw [h.checked]; simp), hinit,
    if_pos (by simp), freeSeq_eq hn]
  have hperm := Ledger.balanced_iff_perm.trans
    (fails_perm_iff (p := p) hk hbefore)
  constructor
  · intro hsafe
    exact hperm.mp hsafe.freed
  · intro hclean
    exact ⟨fun _ hmem => (by cases hmem), hperm.mpr hclean⟩

/-- A load is safe if and only if, where the copying begins, a copy that fails
does so without harm, and a sequence that the module takes is made of
descriptors that may be played when they are copied. -/
theorem cvorgChanLoadseq_safe_iff (w : World) (set : Settings)
    (channel : Channel) (user : UserSeq) :
    Safe set (cvorgChanLoadseq w set channel user) ↔
      (Begins w set user →
        (∀ k, k < user.nWaves.toNat → (∀ j, j < k → Copies w j) →
          ¬ Copies w k → CleanAt w user.nWaves.toNat k) ∧
        ((∀ j, j < user.nWaves.toNat → Copies w j) →
          Accepts w user.nWaves.toNat → ∀ i, i < user.nWaves.toNat →
            Playable set user.nr user.nWaves.toNat (w.desc i))) := by
  by_cases hbegins : Begins w set user
  · by_cases hall : ∀ j, j < user.nWaves.toNat → Copies w j
    · rw [safe_iff_of_copies hbegins hall]
      constructor
      · intro h _
        exact ⟨fun k hk _ hfail => absurd (hall k hk) hfail, fun _ => h⟩
      · intro h
        exact (h hbegins).2 hall
    · classical
      have hex : ∃ k, k < user.nWaves.toNat ∧ ¬ Copies w k := by
        simpa only [not_forall, exists_prop] using hall
      have hspec := Nat.find_spec hex
      have hbefore : ∀ j, j < Nat.find hex → Copies w j := by
        intro j hj
        by_contra hno
        exact Nat.find_min hex hj ⟨Nat.lt_trans hj hspec.1, hno⟩
      generalize Nat.find hex = k at hspec hbefore
      rw [safe_iff_of_fails hbegins hspec.1 hbefore hspec.2]
      constructor
      · intro h _
        refine ⟨fun k' _ hbefore' hfail' => ?_, fun hall' => absurd hall' hall⟩
        rcases Nat.lt_trichotomy k' k with hlt | rfl | hlt
        · exact absurd (hbefore k' hlt) hfail'
        · exact h
        · exact absurd (hbefore' k hlt) hspec.2
      · intro h
        exact (h hbegins).1 k hspec.1 hbefore hspec.2
  · exact ⟨fun _ h => absurd h hbegins, fun _ => safe_of_not_begins hbegins⟩

end Call

/-! Two waveforms, and no memory for the points of the first: the clean-up
frees what the second descriptor of the fresh array happens to point to. -/

def noBuffer : World :=
  { ready := 0x101
    status := fun _ => 0
    mem := fun _ =>
      { wave := fun _ => ⟨1, 4, 0, 0, 0x7000⟩
        points := fun _ _ => Vector.replicate _ 0 }
    copied := fun _ => 24
    array := some ⟨0x20000, by decide⟩
    stale := fun _ => ⟨0, 8, 0, 0, 0x30000⟩
    buffer := fun _ => none
    writeback := fun _ => true }

theorem stale_pointer_freed :
    ¬ ∀ (w : World) (set : Settings) (channel : Channel) (user : UserSeq),
        Safe set (cvorgChanLoadseq w set channel user) := by
  intro h
  have hsafe := h noBuffer ⟨0, 1000000⟩ clearedChannel ⟨1, 2, 0x8000⟩
  have hstray : (cvorgChanLoadseq noBuffer ⟨0, 1000000⟩ clearedChannel
      ⟨1, 2, 0x8000⟩).books.stray = true := by decide +kernel
  exact Ledger.not_balanced_of_stray hstray hsafe.freed

end Coht.Cvorg
