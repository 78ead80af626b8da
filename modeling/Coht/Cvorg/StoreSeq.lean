import Coht.Cvorg.Channel
import Coht.Lib.Packing
import Mathlib.Algebra.GroupWithZero.Nat

/-!
# Storing a sequence of waveforms (`cvorg-func.c`)

`cvorg_storeseq()` checks that a sequence fits and `__cvorg_storeseq()` writes
it: for each waveform the points go to the SRAM, two in an entry, and a
descriptor block gets the start address, the length, the recurrence, the gain
and the number of the next block.

One turn of the loop is `storeWv`, and `storeWv_spec` is all that the rest of
the development needs of it: which registers of the blocks it sets, which
entries it writes, and that everything else stays.
-/

namespace Coht.Cvorg

open Coht.Lib

structure CvorgWv where
  recurr : U32
  size : U32
  dynamicGain : U32
  gainVal : U32
  form : List U16
  /-- the buffer holds `size` bytes -/
  full : form.length = size.toNat / 2

structure CvorgSeq where
  nr : U32
  waves : List CvorgWv

def CvorgSeq.nWaves (seq : CvorgSeq) : Nat := seq.waves.length

/-! ## The output gain -/

def cvorgGains : List Int := [-22, -16, -10, -4, 2, 8, 14, 20]

def cvorgAbsdiff (s1 s2 : Int) : Nat := (s1 - s2).natAbs

/-- The first of the nearest values. -/
def cvorgNearest (array : List Int) (val : Int) : Int :=
  (array.foldl (fun best x =>
      let diff := cvorgAbsdiff x val
      if diff < best.1 then (diff, x) else best)
    (2 ^ 32 - 1, array.headD 0)).2

def cvorgGainApprox (gain : Int) : Int :=
  if gain < cvorgGains.headD 0 then cvorgGains.headD 0
  else if gain > cvorgGains.getLastD 0 then cvorgGains.getLastD 0
  else cvorgNearest cvorgGains gain

def cvorgGainToHw : Int → U32
  | -22 => 0x0
  | -16 => 0x1
  | -10 => 0x2
  | -4 => 0x3
  | 2 => 0x4
  | 8 => 0x5
  | 14 => 0x6
  | _ => 0x7

/-! ## Points -/

/-- The module discards the two low bits, so 3 is rounded up to 4 and the rest
is cut off; rounding up does not overflow. -/
def normalizePoint (data : U16) : U16 :=
  (if data &&& 0x3 ≠ 0 ∧ data ≠ 0xffff then data + 1 else data) &&& ~~~0x3

def normalizeWv (wave : CvorgWv) : CvorgWv :=
  { wave with
    form := wave.form.map normalizePoint
    full := (List.length_map _).trans wave.full }

/-- Two points for each write; a last point without a partner fills the high
half of an entry. -/
def writePoints : List U16 → Channel → Channel
  | data0 :: data1 :: rest, chan =>
    writePoints rest (chan.wchanNoswap (cvorgCpuToHw data0 data1))
  | [data0], chan => chan.wchanNoswap (cvorgCpuToHwSingle data0)
  | [], chan => chan

def sram (chan : Channel) (wave : CvorgWv) (dest : U32) : Channel :=
  writePoints wave.form (chan.wchan CVORG_SRAMADDR dest)

/-! ## Blocks -/

def cvorgWvMarkPrev (channel : Channel) (prevblock : Nat) (currblockIndex : U32) :
    Channel :=
  channel.uchan (prevblock + CVORG_WFNEXTBLK) currblockIndex
    CVORG_WFNEXTBLK_NEXT_MASK

def cvorgWvMarkLast (channel : Channel) (block : Nat) : Channel :=
  channel.uchan (block + CVORG_WFNEXTBLK) CVORG_WFNEXTBLK_LAST
    CVORG_WFNEXTBLK_NEXT_MASK

def cvorgWvGainStore (channel : Channel) (block : Nat) (wv : CvorgWv) :
    Channel × CvorgWv :=
  let offset := block + CVORG_WFNEXTBLK
  let channel := channel.achan offset (~~~CVORG_WFNEXTBLK_CONF_GAIN)
  if wv.dynamicGain = 0 then
    (channel, wv)
  else
    let gain := cvorgGainApprox wv.gainVal.toInt
    let val := cvorgGainToHw gain
    let channel := channel.ochan offset CVORG_WFNEXTBLK_CONF_GAIN
    (channel.uchan offset (val <<< CVORG_WFNEXTBLK_GAIN_SHIFT)
        CVORG_WFNEXTBLK_GAIN_MASK,
      { wv with gainVal := BitVec.ofInt 32 gain })

def cvorgWvStore (channel : Channel) (block : Nat) (wv : CvorgWv) :
    Channel × CvorgWv :=
  let channel := channel.wchan (block + CVORG_WFLEN) (wv.size / 2)
  let channel := channel.wchan (block + CVORG_WFRECURR) wv.recurr
  cvorgWvGainStore channel block wv

/-! ## The loop -/

structure StoreLoop where
  channel : Channel
  ramaddr : U32 := 0
  /-- the waveforms stored so far, as the loop leaves them -/
  stored : List CvorgWv := []

def storeWv (nWaves : Nat) (st : StoreLoop) (wv : CvorgWv) : StoreLoop :=
  let i := st.stored.length
  let wv := normalizeWv wv
  let channel := sram st.channel wv st.ramaddr
  let currblock := blockOffset i
  let channel :=
    if i > 0 then
      cvorgWvMarkPrev channel (prevBlockOffset i) (BitVec.ofNat 32 i)
    else channel
  let channel := channel.wchan (currblock + CVORG_WFSTART) st.ramaddr
  let r := cvorgWvStore channel currblock wv
  let channel :=
    if i = nWaves - 1 then cvorgWvMarkLast r.1 currblock else r.1
  { channel, ramaddr := st.ramaddr + wv.size, stored := st.stored ++ [r.2] }

/-- A lone waveform is repeated by its own recurrence, since the module takes
no other number of sequence cycles than 1 for it. -/
def unrollSingle (seq : CvorgSeq) : CvorgSeq :=
  match seq.waves with
  | [wv] => { nr := 1, waves := [{ wv with recurr := wv.recurr * seq.nr }] }
  | _ => seq

/-- `__cvorg_storeseq()` after its first `k` waveforms. -/
def storeWaves (channel : Channel) (seq : CvorgSeq) (k : Nat) : StoreLoop :=
  let seq := unrollSingle seq
  (seq.waves.take k).foldl (storeWv seq.nWaves)
    { channel := channel.wchan CVORG_SEQNR seq.nr }

/-- `__cvorg_storeseq()`, with the sequence as it is left behind. -/
def writeSeq (channel : Channel) (seq : CvorgSeq) : Channel × CvorgSeq :=
  let st := storeWaves channel seq seq.nWaves
  (st.channel, { nr := (unrollSingle seq).nr, waves := st.stored })

def seqSize (seq : CvorgSeq) : Nat := (seq.waves.map (·.size.toNat)).sum

def availSram : Nat := CVORG_SRAM_SIZE

/-- `__cvorg_sram_busy()`, with the ten values it may read from the status
register. -/
def cvorgSramBusy (status : Fin 10 → U32) : Bool :=
  (List.finRange 10).all fun i => status i &&& CVORG_STATUS_SRAM_BUSY ≠ 0

def cvorgStoreseq (status : Fin 10 → U32) (channel : Channel) (seq : CvorgSeq) :
    Int × Channel × CvorgSeq :=
  if seqSize seq > availSram then
    (-ENOMEM, channel, seq)
  else if seq.nWaves ≤ 0 ∨ seq.nWaves > CVORG_MAX_SEQUENCES then
    (-EINVAL, channel, seq)
  else if cvorgSramBusy status then
    (-EAGAIN, channel, seq)
  else
    (0, writeSeq channel seq)

/-! ## What is written to the SRAM -/

section Points

variable {channel : Channel} {l : List U16} {w k : Nat}

theorem writePoints_regs : (writePoints l channel).regs = channel.regs := by
  fun_induction writePoints l channel with
  | case1 _ _ _ _ ih => exact ih
  | case2 => rfl
  | case3 => rfl

theorem writePoints_written :
    (writePoints l channel).written =
      channel.written ++ Packing.units 4 channel.sramaddr (2 * l.length) := by
  fun_induction writePoints l channel with
  | case1 data0 data1 rest channel ih =>
    rw [ih]
    show channel.written ++ [channel.sramaddr / 4] ++
      Packing.units 4 (channel.sramaddr + 4) _ = _
    have hcount : (2 * (data0 :: data1 :: rest).length + 4 - 1) / 4 =
        (2 * rest.length + 4 - 1) / 4 + 1 := by
      simp only [List.length_cons]
      omega
    rw [List.append_assoc, Packing.units, Packing.units, hcount,
      List.range'_succ, Nat.add_div_right _ (by decide), List.singleton_append]
  | case2 data0 channel =>
    show channel.written ++ [channel.sramaddr / 4] = _
    simp [Packing.units]
  | case3 => exact (List.append_nil _).symm

theorem writePoints_sram (hw : w < channel.sramaddr / 4) :
    (writePoints l channel).sram w = channel.sram w := by
  fun_induction writePoints l channel with
  | case1 _ _ _ channel ih =>
    have hstep : w < (channel.sramaddr + 4) / 4 := by omega
    rw [ih hstep]
    exact Function.update_of_ne (Nat.ne_of_lt hw) _ _
  | case2 => exact Function.update_of_ne (Nat.ne_of_lt hw) _ _
  | case3 => rfl

theorem point_congr {channel' : Channel} {addr : Nat}
    (h : channel'.sram (addr / 4) = channel.sram (addr / 4)) :
    channel'.point addr = channel.point addr := by
  unfold Channel.point
  rw [h]

theorem writePoints_point (halign : channel.sramaddr % 4 = 0)
    (hk : k < l.length) :
    (writePoints l channel).point (channel.sramaddr + 2 * k) = l[k] := by
  fun_induction writePoints l channel generalizing k with
  | case1 data0 data1 rest channel ih =>
    have hentry : (writePoints rest
        (channel.wchanNoswap (cvorgCpuToHw data0 data1))).sram
          (channel.sramaddr / 4) = cvorgCpuToHw data0 data1 := by
      rw [writePoints_sram]
      · exact Function.update_self _ _ _
      · show channel.sramaddr / 4 < (channel.sramaddr + 4) / 4
        omega
    match k with
    | 0 =>
      unfold Channel.point
      rw [Nat.mul_zero, Nat.add_zero, hentry, cvorgHwToCpu_cpuToHw,
        if_pos (by omega)]
      rfl
    | 1 =>
      unfold Channel.point
      rw [show (channel.sramaddr + 2 * 1) / 4 = channel.sramaddr / 4 by
        omega, hentry, cvorgHwToCpu_cpuToHw, if_neg (by omega)]
      rfl
    | k + 2 =>
      have hrest := ih (k := k)
        (show (channel.sramaddr + 4) % 4 = 0 by omega)
        (by simp only [List.length_cons] at hk; omega)
      rw [show channel.sramaddr + 2 * (k + 2) =
        channel.sramaddr + 4 + 2 * k by omega]
      exact hrest
  | case2 data0 channel =>
    have hk0 : k = 0 := by
      simp only [List.length_singleton] at hk
      omega
    subst hk0
    have hentry : (channel.wchanNoswap (cvorgCpuToHwSingle data0)).sram
        (channel.sramaddr / 4) = cvorgCpuToHwSingle data0 :=
      Function.update_self _ _ _
    unfold Channel.point
    rw [Nat.mul_zero, Nat.add_zero, hentry, if_pos (by omega)]
    exact cvorgHwToCpu_single data0
  | case3 => cases hk

end Points

/-! ## What is written to the blocks -/

section Blocks

variable {channel : Channel} {wv : CvorgWv} {a b f g : Nat} {v m : U32}

theorem wchan_block (hf : f < CVORG_BLKSIZE) (hg : g < CVORG_BLKSIZE) :
    (channel.wchan (blockOffset a + f) v).regs (blockOffset b + g) =
      if b = a ∧ g = f then v else channel.regs (blockOffset b + g) := by
  rw [Channel.wchan_regs (block_ne_sramaddr a f)]
  unfold Function.update
  simp only [block_eq_iff hg hf, eq_rec_constant, dite_eq_ite]

theorem uchan_block (hf : f < CVORG_BLKSIZE) (hg : g < CVORG_BLKSIZE) :
    (channel.uchan (blockOffset a + f) v m).regs (blockOffset b + g) =
      if b = a ∧ g = f then
        (channel.regs (blockOffset b + g) &&& ~~~m) ||| v
      else channel.regs (blockOffset b + g) := by
  rw [Channel.uchan_regs (block_ne_sramaddr a f)]
  unfold Function.update
  simp only [block_eq_iff hg hf, eq_rec_constant, dite_eq_ite]
  split
  · next h => rw [h.1, h.2]
  · rfl

theorem mark_next :
    (channel.uchan (blockOffset a + CVORG_WFNEXTBLK) v
        CVORG_WFNEXTBLK_NEXT_MASK).next b =
      if b = a then v &&& CVORG_WFNEXTBLK_NEXT_MASK else channel.next b := by
  unfold Channel.next Channel.rchan
  rw [uchan_block (by decide) (by decide)]
  by_cases h : b = a
  · have hclear : ~~~CVORG_WFNEXTBLK_NEXT_MASK &&& CVORG_WFNEXTBLK_NEXT_MASK =
        0#32 := by decide
    rw [if_pos ⟨h, rfl⟩, if_pos h, BitVec.and_comm, BitVec.and_or_distrib_left,
      BitVec.and_comm _ v, BitVec.and_comm, BitVec.and_assoc, hclear,
      BitVec.and_zero, BitVec.zero_or]
  · rw [if_neg (fun hand => h hand.1), if_neg h]

theorem mark_field (hg : g < CVORG_BLKSIZE) (hne : g ≠ CVORG_WFNEXTBLK) :
    (channel.uchan (blockOffset a + CVORG_WFNEXTBLK) v m).regs
      (blockOffset b + g) = channel.regs (blockOffset b + g) := by
  rw [uchan_block (by decide) hg, if_neg (fun hand => hne hand.2)]

/-! The gain shares a register with the next-block field and leaves it be. -/

theorem achan_next
    (hv : v &&& CVORG_WFNEXTBLK_NEXT_MASK = CVORG_WFNEXTBLK_NEXT_MASK) :
    (channel.achan (blockOffset a + CVORG_WFNEXTBLK) v).next b =
      channel.next b := by
  unfold Channel.achan Channel.next Channel.rchan
  rw [wchan_block (by decide) (by decide)]
  split
  · next h => rw [h.1, BitVec.and_assoc, hv]
  · rfl

theorem ochan_next (hv : v &&& CVORG_WFNEXTBLK_NEXT_MASK = 0#32) :
    (channel.ochan (blockOffset a + CVORG_WFNEXTBLK) v).next b =
      channel.next b := by
  unfold Channel.ochan Channel.next Channel.rchan
  rw [wchan_block (by decide) (by decide)]
  split
  · next h =>
    rw [h.1, BitVec.and_comm, BitVec.and_or_distrib_left, BitVec.and_comm _ v,
      hv, BitVec.or_zero, BitVec.and_comm]
  · rfl

theorem gainToHw_low (gain : Int) :
    cvorgGainToHw gain <<< CVORG_WFNEXTBLK_GAIN_SHIFT &&&
      CVORG_WFNEXTBLK_NEXT_MASK = 0#32 := by
  unfold cvorgGainToHw
  split <;> rfl

theorem gainStore_next :
    (cvorgWvGainStore channel (blockOffset a) wv).1.next b = channel.next b := by
  unfold cvorgWvGainStore
  dsimp only
  split
  · exact achan_next (by decide)
  · show ((((channel.achan _ _).ochan _ _).achan _ _).ochan _ _).next b = _
    rw [ochan_next (gainToHw_low _), achan_next (by decide),
      ochan_next (by decide), achan_next (by decide)]

theorem gainStore_field (hg : g < CVORG_BLKSIZE) (hne : g ≠ CVORG_WFNEXTBLK) :
    (cvorgWvGainStore channel (blockOffset a) wv).1.regs (blockOffset b + g) =
      channel.regs (blockOffset b + g) := by
  have hno : ∀ {p : Prop}, ¬ (p ∧ g = CVORG_WFNEXTBLK) := fun h => hne h.2
  unfold cvorgWvGainStore
  dsimp only
  split
  · rw [Channel.achan, wchan_block (by decide) hg, if_neg hno]
  · rw [uchan_block (by decide) hg, if_neg hno, Channel.ochan,
      wchan_block (by decide) hg, if_neg hno, Channel.achan,
      wchan_block (by decide) hg, if_neg hno]

@[simp] theorem gainStore_sram {block : Nat} :
    (cvorgWvGainStore channel block wv).1.sram = channel.sram := by
  unfold cvorgWvGainStore
  dsimp only
  split <;> simp

@[simp] theorem gainStore_written {block : Nat} :
    (cvorgWvGainStore channel block wv).1.written = channel.written := by
  unfold cvorgWvGainStore
  dsimp only
  split <;> simp

end Blocks

/-! ## One turn of the loop -/

section Turn

variable {st : StoreLoop} {wv : CvorgWv} {channel : Channel}
  {n a b g k w : Nat} {v m : U32} {p : Prop} [Decidable p]

theorem markIf_field (hg : g < CVORG_BLKSIZE) (hne : g ≠ CVORG_WFNEXTBLK) :
    (if p then channel.uchan (blockOffset a + CVORG_WFNEXTBLK) v m
      else channel).regs (blockOffset b + g) =
      channel.regs (blockOffset b + g) := by
  split
  · exact mark_field hg hne
  · rfl

theorem markIf_sram :
    (if p then channel.uchan a v m else channel).sram = channel.sram := by
  split
  · exact Channel.uchan_sram
  · rfl

theorem markIf_written :
    (if p then channel.uchan a v m else channel).written = channel.written := by
  split
  · exact Channel.uchan_written
  · rfl

theorem sram_regs (dest : U32) : (sram channel wv dest).regs = channel.regs := by
  unfold sram
  rw [writePoints_regs, Channel.wchan_sramaddr]

theorem storeWv_start :
    (storeWv n st wv).channel.regs (blockOffset b + CVORG_WFSTART) =
      if b = st.stored.length then st.ramaddr
      else st.channel.regs (blockOffset b + CVORG_WFSTART) := by
  unfold storeWv cvorgWvMarkLast cvorgWvMarkPrev cvorgWvStore
  dsimp only
  rw [markIf_field (by decide) (by decide),
    gainStore_field (by decide) (by decide),
    wchan_block (by decide) (by decide), if_neg (fun h => by cases h.2),
    wchan_block (by decide) (by decide), if_neg (fun h => by cases h.2),
    wchan_block (by decide) (by decide),
    show prevBlockOffset st.stored.length =
      blockOffset (st.stored.length - 1) from rfl,
    markIf_field (by decide) (by decide), sram_regs]
  simp only [and_true]

theorem storeWv_len :
    (storeWv n st wv).channel.regs (blockOffset b + CVORG_WFLEN) =
      if b = st.stored.length then wv.size / 2
      else st.channel.regs (blockOffset b + CVORG_WFLEN) := by
  unfold storeWv cvorgWvMarkLast cvorgWvMarkPrev cvorgWvStore
  dsimp only
  rw [markIf_field (by decide) (by decide),
    gainStore_field (by decide) (by decide),
    wchan_block (by decide) (by decide), if_neg (fun h => by cases h.2),
    wchan_block (by decide) (by decide), wchan_block (by decide) (by decide),
    if_neg (c := b = _ ∧ CVORG_WFLEN = CVORG_WFSTART) (fun h => by cases h.2),
    show prevBlockOffset st.stored.length =
      blockOffset (st.stored.length - 1) from rfl,
    markIf_field (by decide) (by decide), sram_regs]
  simp only [and_true, normalizeWv]

theorem wchan_next (hf : g < CVORG_BLKSIZE) (hne : g ≠ CVORG_WFNEXTBLK) :
    (channel.wchan (blockOffset a + g) v).next b = channel.next b := by
  unfold Channel.next Channel.rchan
  rw [wchan_block hf (by decide), if_neg (fun h => hne h.2.symm)]

theorem storeWv_next :
    (storeWv n st wv).channel.next b =
      if b = st.stored.length ∧ st.stored.length = n - 1 then
        CVORG_WFNEXTBLK_LAST
      else if b + 1 = st.stored.length then
        BitVec.ofNat 32 st.stored.length &&& CVORG_WFNEXTBLK_NEXT_MASK
      else st.channel.next b := by
  have hprev : ∀ c : Channel,
      (if st.stored.length > 0 then
        c.uchan (prevBlockOffset st.stored.length + CVORG_WFNEXTBLK)
          (BitVec.ofNat 32 st.stored.length) CVORG_WFNEXTBLK_NEXT_MASK
      else c).next b =
        if b + 1 = st.stored.length then
          BitVec.ofNat 32 st.stored.length &&& CVORG_WFNEXTBLK_NEXT_MASK
        else c.next b := by
    intro c
    by_cases h0 : st.stored.length > 0
    · rw [if_pos h0]
      refine (mark_next (a := st.stored.length - 1)).trans ?_
      by_cases hb : b + 1 = st.stored.length
      · rw [if_pos (by omega), if_pos hb]
      · rw [if_neg (by omega), if_neg hb]
    · rw [if_neg h0, if_neg (by omega)]
  have hlast : ∀ c : Channel,
      (if st.stored.length = n - 1 then
        c.uchan (blockOffset st.stored.length + CVORG_WFNEXTBLK)
          CVORG_WFNEXTBLK_LAST CVORG_WFNEXTBLK_NEXT_MASK
      else c).next b =
        if b = st.stored.length ∧ st.stored.length = n - 1 then
          CVORG_WFNEXTBLK_LAST
        else c.next b := by
    intro c
    by_cases hn : st.stored.length = n - 1
    · rw [if_pos hn, mark_next]
      by_cases hb : b = st.stored.length
      · rw [if_pos hb, if_pos ⟨hb, hn⟩]
        rfl
      · rw [if_neg hb, if_neg (fun h => hb h.1)]
    · rw [if_neg hn, if_neg (fun h => hn h.2)]
  have hsram : ∀ dest, (sram st.channel (normalizeWv wv) dest).next b =
      st.channel.next b := by
    intro dest
    unfold Channel.next Channel.rchan
    rw [sram_regs]
  unfold storeWv cvorgWvMarkLast cvorgWvMarkPrev cvorgWvStore
  dsimp only
  rw [hlast, gainStore_next, wchan_next (by decide) (by decide),
    wchan_next (by decide) (by decide), wchan_next (by decide) (by decide),
    hprev, hsram]

theorem storeWv_writes :
    (storeWv n st wv).channel.sram =
        (sram st.channel (normalizeWv wv) st.ramaddr).sram ∧
      (storeWv n st wv).channel.written =
        (sram st.channel (normalizeWv wv) st.ramaddr).written := by
  unfold storeWv cvorgWvMarkLast cvorgWvMarkPrev cvorgWvStore
  dsimp only
  constructor
  · rw [markIf_sram, gainStore_sram, Channel.wchan_sram, Channel.wchan_sram,
      Channel.wchan_sram, markIf_sram]
  · rw [markIf_written, gainStore_written, Channel.wchan_written,
      Channel.wchan_written, Channel.wchan_written, markIf_written]

theorem storeWv_written :
    (storeWv n st wv).channel.written = st.channel.written ++
      Packing.units 4 st.ramaddr.toNat (2 * wv.form.length) := by
  rw [storeWv_writes.2, sram, writePoints_written, Channel.wchan_sramaddr]
  simp only [normalizeWv, List.length_map]

theorem storeWv_sram (hw : w < st.ramaddr.toNat / 4) :
    (storeWv n st wv).channel.sram w = st.channel.sram w := by
  rw [storeWv_writes.1, sram, Channel.wchan_sramaddr]
  exact writePoints_sram hw

theorem storeWv_point (halign : st.ramaddr.toNat % 4 = 0)
    (hk : k < wv.form.length) :
    (storeWv n st wv).channel.point (st.ramaddr.toNat + 2 * k) =
      normalizePoint wv.form[k] := by
  have hpoint : (sram st.channel (normalizeWv wv) st.ramaddr).point
      (st.ramaddr.toNat + 2 * k) = normalizePoint wv.form[k] := by
    rw [sram, Channel.wchan_sramaddr]
    refine (@writePoints_point { st.channel with sramaddr := st.ramaddr.toNat }
      _ k halign ((List.length_map _).symm ▸ hk)).trans ?_
    exact List.getElem_map _
  exact (point_congr (congrFun storeWv_writes.1 _)).trans hpoint

end Turn

end Coht.Cvorg
