import Coht.Lib.Staging
import Coht.Sis33.FetchedData

/-!
# The memory pages of the sis3320

The memory of a channel is 64 MB. The bus shows 8 MB of it at a time, in a
window for each channel side by side, and a register of the module selects the
page for all of them. The driver keeps a copy of the register and writes it only
when the page changes.

A short event is read at once, from somewhere in a page; a long one is read page
by page. `delivers` says that either way an event is read from where it is, that
no read leaves the page it begins in, and that the copy is right at every read.
It turns on the lengths, which are powers of two, and on the segments, which
begin at a multiple of 16 Msamples. An address past the memory comes round, as
the sample counter of the module does.
-/

namespace Coht.Sis33

open Coht.Lib

/-- The size of a channel's memory, in bytes. -/
def memorySize : Nat := 0x4000000

/-- The page register, the driver's copy of it, and the memory of each channel
by bytes. -/
structure Paging where
  register : Nat := 0
  currPage : Nat := 0
  memory : Nat → Nat → BitVec 8

/-- `sis3320_put_page()` -/
def Paging.putPage (p : Paging) (pageNr : Nat) : Paging :=
  let pageNr := pageNr &&& adcMemPageMask
  if pageNr = p.currPage then p
  else { p with currPage := pageNr, register := pageNr }

/-- `SIS3320_MEM_ADC()`, the window of a channel from the first one on. -/
def memAdc (channel : Nat) : Nat := channel * sis3320PageSize

/-- What the bus shows at an address past the beginning of the windows. -/
def Paging.byteAt (p : Paging) (addr : Nat) : BitVec 8 :=
  p.memory (addr / sis3320PageSize)
    (p.register * sis3320PageSize + addr % sis3320PageSize)

/-- A block read, with what the register and its copy are then. -/
structure BlockRead where
  addr : Nat
  size : Nat
  register : Nat
  currPage : Nat

/-- The read stays in a page, and the copy of the register is right. -/
def BlockRead.Sound (r : BlockRead) : Prop :=
  r.addr % sis3320PageSize + r.size ≤ sis3320PageSize ∧ r.currPage = r.register

/-- A fetch that is going on, with the client's buffer. -/
structure Fetching where
  paging : Paging
  reads : List BlockRead := []
  data : Nat → BitVec 8

namespace Fetching

/-- One transfer: the page is selected, and a block is read. -/
def readBlock (f : Fetching) (channel : Nat) (t : Transfer) : Fetching :=
  let p := f.paging.putPage t.page
  let addr := memAdc channel + t.offset
  { paging := p
    reads := f.reads ++ [⟨addr, t.size, p.register, p.currPage⟩]
    data := blit f.data t.bufOffset (fun j => p.byteAt (addr + j)) t.size }

/-- The transfers from number `k` on. One that fails ends the fetch, and leaves
what it likes in the buffer. -/
def transfer (dma : Nat → Option (Nat → BitVec 8)) (channel : Nat) :
    Nat → List Transfer → Fetching → Bool × Fetching
  | _, [], f => (true, f)
  | k, t :: ts, f =>
    let f := f.readBlock channel t
    match dma k with
    | some left => (false, { f with data := left })
    | none => transfer dma channel (k + 1) ts f

end Fetching

/-- `sis3320_get_data()` into the buffer `data`. -/
def getData (card : Card Sis3320) (p : Paging) (n channel i : Nat) (size : BitVec 32)
    (dma : Nat → Option (Nat → BitVec 8)) (data : Nat → BitVec 8) : Bool × Fetching :=
  Fetching.transfer dma channel 0
    (sis3320GetData (sis3320GetSegmentBase card n) (card.segments n).nrSampPerEv size.toNat i)
    { paging := p, data := data }

/-! ## The life of a card -/

structure PagedState where
  sis : Sis3320State
  paging : Paging

/-- The operations of the driver, which leave the pages alone, the module that
samples, and each call of `sis3320_get_data()` that a fetch makes. -/
inductive PagedEvent
  | op (op : Sis3320Op)
  | sampled (memory : Nat → Nat → BitVec 8)
  | getData (n channel i : Nat) (size : BitVec 32) (dma : Nat → Option (Nat → BitVec 8))
      (data : Nat → BitVec 8)

def PagedEvent.run (s : PagedState) : PagedEvent → PagedState
  | .op o => { s with sis := o.run s.sis }
  | .sampled memory => { s with paging := { s.paging with memory := memory } }
  | .getData n channel i size dma data =>
    { s with paging := (Sis33.getData s.sis.dev.card s.paging n channel i size dma data).2.paging }

/-- A sis3320 after `sis3320_device_init()`, which selects page zero. -/
def pagedSystem : System PagedState PagedEvent where
  init s := sis3320System.init s.sis ∧ s.paging.register = 0 ∧ s.paging.currPage = 0
  step s e s' := s' = e.run s

/-! ## Transfers that cover a range -/

/-- The transfers read the bytes of a channel from `first` on, in order and
each from within a page; `k` of them are done, and there are `n`. -/
def Covers (first : Nat) : Nat → List Transfer → Nat → Prop
  | k, [], n => k = n
  | k, t :: ts, n =>
    t.bufOffset = k ∧ t.offset + t.size ≤ sis3320PageSize ∧ 0 < t.size ∧
      (t.page &&& adcMemPageMask) * sis3320PageSize + t.offset = (first + k) % memorySize ∧
      Covers first (k + t.size) ts n

section

variable {p : Paging} {f : Fetching} {channel first k k' n i : Nat} {t : Transfer}
  {ts : List Transfer} {dma : Nat → Option (Nat → BitVec 8)} {data : Nat → BitVec 8}

/-- The bytes of a channel from `first` on. -/
def Paging.bytesFrom (p : Paging) (channel first : Nat) (j : Nat) : BitVec 8 :=
  p.memory channel ((first + j) % memorySize)

theorem putPage_currPage {pageNr : Nat} :
    (p.putPage pageNr).currPage = pageNr &&& adcMemPageMask := by
  simp only [Paging.putPage]
  split
  · next h => exact h.symm
  · rfl

theorem putPage_register (h : p.currPage = p.register) {pageNr : Nat} :
    (p.putPage pageNr).register = pageNr &&& adcMemPageMask := by
  simp only [Paging.putPage]
  split
  · next heq => exact h.symm.trans heq.symm
  · rfl

theorem putPage_memory {pageNr : Nat} : (p.putPage pageNr).memory = p.memory := by
  simp only [Paging.putPage]
  split <;> rfl

theorem memAdc_add (h : i < sis3320PageSize) :
    (memAdc channel + i) / sis3320PageSize = channel ∧
      (memAdc channel + i) % sis3320PageSize = i := by
  simp only [memAdc, sis3320PageSize] at h ⊢
  omega

theorem transfer_currPage (h : f.paging.currPage = f.paging.register) :
    (Fetching.transfer dma channel k ts f).2.paging.currPage =
      (Fetching.transfer dma channel k ts f).2.paging.register := by
  induction ts generalizing k f with
  | nil => exact h
  | cons t ts ih =>
    have hnext : (f.readBlock channel t).paging.currPage =
        (f.readBlock channel t).paging.register :=
      putPage_currPage.trans (putPage_register h).symm
    simp only [Fetching.transfer]
    split
    · exact hnext
    · exact ih hnext

theorem readBlock_sound (h : f.paging.currPage = f.paging.register)
    (hcovers : Covers first k (t :: ts) n) (hreads : ∀ r ∈ f.reads, r.Sound) :
    ∀ r ∈ (f.readBlock channel t).reads, r.Sound := by
  obtain ⟨_, hpage, hpos, _, _⟩ := hcovers
  simp only [Fetching.readBlock, List.mem_append, List.mem_singleton]
  rintro r (hr | rfl)
  · exact hreads r hr
  · refine ⟨?_, putPage_currPage.trans (putPage_register h).symm⟩
    rwa [(memAdc_add (by omega)).2]

theorem readBlock_data (h : f.paging.currPage = f.paging.register)
    (hcovers : Covers first k (t :: ts) n)
    (hdata : f.data = blit data 0 (f.paging.bytesFrom channel first) k) :
    (f.readBlock channel t).data =
      blit data 0 (f.paging.bytesFrom channel first) (k + t.size) := by
  obtain ⟨hbuf, hpage, hpos, hplace, _⟩ := hcovers
  have hbytes : ∀ j < t.size, (f.paging.putPage t.page).byteAt (memAdc channel + t.offset + j) =
      f.paging.bytesFrom channel first (k + j) := by
    intro j hj
    have haddr : (memAdc channel + (t.offset + j)) / sis3320PageSize = channel ∧
        (memAdc channel + (t.offset + j)) % sis3320PageSize = t.offset + j :=
      memAdc_add (by omega)
    have hmask : t.page &&& adcMemPageMask ≤ 7 := Nat.and_le_right
    rw [← Nat.add_assoc] at haddr
    rw [Paging.byteAt, haddr.1, haddr.2, putPage_memory, putPage_register h, Paging.bytesFrom]
    congr 1
    simp only [sis3320PageSize, memorySize] at hpage hplace ⊢
    omega
  have hblit : (f.readBlock channel t).data = blit f.data t.bufOffset
      (fun j => f.paging.bytesFrom channel first (k + j)) t.size := by
    funext a
    simp only [Fetching.readBlock, blit]
    split
    · next ha => exact hbytes _ (by omega)
    · rfl
  rw [hblit, hdata, hbuf, ← blit_blit, Nat.zero_add]

theorem transfer_covers (h : f.paging.currPage = f.paging.register)
    (hcovers : Covers first k ts n) (hreads : ∀ r ∈ f.reads, r.Sound)
    (hdata : f.data = blit data 0 (f.paging.bytesFrom channel first) k) :
    (∀ r ∈ (Fetching.transfer dma channel k' ts f).2.reads, r.Sound) ∧
      ((Fetching.transfer dma channel k' ts f).1 = true →
        (Fetching.transfer dma channel k' ts f).2.data =
          blit data 0 (f.paging.bytesFrom channel first) n) := by
  induction ts generalizing k k' f with
  | nil => exact ⟨hreads, fun _ => by rw [← show k = n from hcovers]; exact hdata⟩
  | cons t ts ih =>
    have hnext : (f.readBlock channel t).paging.currPage =
        (f.readBlock channel t).paging.register :=
      putPage_currPage.trans (putPage_register h).symm
    have hsound : ∀ r ∈ (f.readBlock channel t).reads, r.Sound :=
      readBlock_sound h hcovers hreads
    have hbytes : (f.readBlock channel t).paging.bytesFrom channel first =
        f.paging.bytesFrom channel first := by
      funext j
      simp only [Paging.bytesFrom, Fetching.readBlock, putPage_memory]
    simp only [Fetching.transfer]
    split
    · exact ⟨hsound, fun hfalse => nomatch hfalse⟩
    · rw [← hbytes]
      refine ih hnext hcovers.2.2.2.2 hsound ?_
      rw [hbytes]
      exact readBlock_data h hcovers hdata

end

/-! ## Where an event is -/

section

variable {base len : BitVec 32} {i k : Nat}

def firstByte (base len : BitVec 32) (i : Nat) : Nat := 2 * (base.toNat + i * len.toNat)

theorem firstByte_word : BitVec.ofNat 32 (firstByte base len i) =
    (base + BitVec.ofNat 32 i * len) * 2 := by
  rw [firstByte, BitVec.ofNat_mul, BitVec.ofNat_add, BitVec.ofNat_mul, BitVec.ofNat_toNat,
    BitVec.ofNat_toNat, BitVec.setWidth_eq, BitVec.setWidth_eq, BitVec.mul_comm]
  rfl

theorem bigOffset : ((base + BitVec.ofNat 32 i * len) * 2).toNat =
    firstByte base len i % 2 ^ 32 := by
  rw [← firstByte_word, BitVec.toNat_ofNat]

theorem smallOffset : (base * 2 + BitVec.ofNat 32 i * (len * 2)).toNat =
    firstByte base len i % 2 ^ 32 := by
  rw [← BitVec.mul_assoc, ← BitVec.add_mul, bigOffset]

theorem page_offset (a : Nat) : (((a % 2 ^ 32) >>> sis3320PageShift &&& adcMemPageMask) &&&
    adcMemPageMask) * sis3320PageSize + a % 2 ^ 32 % sis3320PageSize = a % memorySize := by
  have hmask : adcMemPageMask = 2 ^ 3 - 1 := rfl
  rw [hmask, Nat.and_two_pow_sub_one_eq_mod, Nat.and_two_pow_sub_one_eq_mod,
    Nat.shiftRight_eq_div_pow]
  simp only [sis3320PageShift, sis3320PageSize, memorySize]
  omega

theorem mod_add_le {a d m : Nat} (ha : d ∣ a) (hm : d ∣ m) (hpos : 0 < m) :
    a % m + d ≤ m := by
  have hrest : d ∣ a % m := (Nat.dvd_mod_iff hm).mpr ha
  have hgap : d ∣ m - a % m := Nat.dvd_sub hm hrest
  have hlt := Nat.mod_lt a hpos
  have := Nat.le_of_dvd (by omega) hgap
  omega

theorem small_covers (hbase : 2 * len.toNat ∣ firstByte base len i)
    (hlen : 2 * len.toNat ∣ sis3320PageSize) (hpos : 0 < len.toNat) :
    Covers (firstByte base len i) 0 (getDataSmallpage base len (2 * len.toNat) i)
      (2 * len.toNat) := by
  have hword : (2 * len.toNat) ∣ 2 ^ 32 := Nat.dvd_trans hlen ⟨512, rfl⟩
  have hrest : 2 * len.toNat ∣ firstByte base len i % 2 ^ 32 :=
    (Nat.dvd_mod_iff hword).mpr hbase
  have hplace := page_offset (firstByte base len i)
  simp only [getDataSmallpage, smallOffset, Covers]
  exact ⟨trivial, mod_add_le hrest hlen (by decide), by omega, hplace, Nat.zero_add _⟩

theorem pages_cover {first pages n : Nat} (hfirst : sis3320PageSize ∣ first)
    (hn : k + n = pages) :
    Covers first (k * sis3320PageSize)
      ((List.range' k n).map fun k =>
        ⟨(first % 2 ^ 32) >>> sis3320PageShift + k &&& adcMemPageMask, 0, sis3320PageSize,
          k * sis3320PageSize⟩)
      (pages * sis3320PageSize) := by
  induction n generalizing k with
  | zero => rw [← hn]; rfl
  | succ n ih =>
    have hnext := ih (k := k + 1) (by omega)
    rw [Nat.succ_mul] at hnext
    have hpos : 0 < sis3320PageSize := by decide
    have hmask : adcMemPageMask = 2 ^ 3 - 1 := rfl
    refine ⟨rfl, Nat.le_of_eq (Nat.zero_add _), hpos, ?_, hnext⟩
    obtain ⟨q, rfl⟩ := hfirst
    show ((_ >>> _ + k &&& adcMemPageMask) &&& adcMemPageMask) * sis3320PageSize + 0 = _
    rw [hmask, Nat.and_two_pow_sub_one_eq_mod, Nat.and_two_pow_sub_one_eq_mod,
      Nat.shiftRight_eq_div_pow]
    simp only [sis3320PageShift, sis3320PageSize, memorySize]
    omega

theorem big_covers (hbase : sis3320PageSize ∣ firstByte base len i)
    (hlen : sis3320PageSizeSamples ∣ len.toNat) :
    Covers (firstByte base len i) 0 (getDataBigpage base len i) (2 * len.toNat) := by
  obtain ⟨pages, hpages⟩ := hlen
  have hcount : len.toNat / sis3320PageSizeSamples = pages := by
    rw [hpages]
    exact Nat.mul_div_cancel_left _ (by decide)
  have hbytes : 2 * len.toNat = pages * sis3320PageSize := by
    rw [hpages]
    simp only [sis3320PageSizeSamples, sis3320PageSize]
    omega
  simp only [getDataBigpage, bigOffset, hcount, hbytes]
  rw [← Nat.zero_mul sis3320PageSize, List.range_eq_range']
  exact pages_cover hbase (Nat.zero_add _)

theorem Configured.base_dvd {card : Card Sis3320} (h : Configured card) (n : Nat) :
    2 ^ 24 ∣ (sis3320GetSegmentBase card n).toNat := by
  have hshare : 2 ^ 24 ∣ (BitVec.ofNat 32 n *
      (Sis33.maxEvLength card / BitVec.ofNat 32 card.nSegments)).toNat := by
    rw [h.maxEvLength, BitVec.toNat_mul, BitVec.toNat_ofNat]
    rcases h.nSegments with hn | hn
    · have hhalf : ((33554432 : BitVec 32) / BitVec.ofNat 32 1).toNat = 33554432 := rfl
      rw [hn, hhalf]
      omega
    · have hhalf : ((33554432 : BitVec 32) / BitVec.ofNat 32 2).toNat = 16777216 := rfl
      rw [hn, hhalf]
      omega
  unfold sis3320GetSegmentBase
  rw [BitVec.toNat_and, Nat.dvd_iff_mod_eq_zero, Nat.and_mod_two_pow,
    Nat.mod_eq_zero_of_dvd hshare, Nat.zero_and]

theorem evLengths_dvd (h : len ∈ sis3320EvLengths) : 0 < len.toNat ∧
    if len.toNat ≤ sis3320PageSizeSamples then len.toNat ∣ sis3320PageSizeSamples
    else sis3320PageSizeSamples ∣ len.toNat := by
  have hall : (sis3320EvLengths.all fun l => decide (0 < l.toNat ∧
      if l.toNat ≤ sis3320PageSizeSamples then l.toNat ∣ sis3320PageSizeSamples
      else sis3320PageSizeSamples ∣ l.toNat)) = true := by decide
  exact of_decide_eq_true (List.all_eq_true.mp hall len h)

theorem getData_covers {card : Card Sis3320} (h : Configured card)
    (hlen : len ∈ sis3320EvLengths) (n : Nat) :
    Covers (firstByte (sis3320GetSegmentBase card n) len i) 0
      (sis3320GetData (sis3320GetSegmentBase card n) len (2 * len.toNat) i)
      (2 * len.toNat) := by
  obtain ⟨hpos, hpage⟩ := evLengths_dvd hlen
  have hbase : sis3320PageSizeSamples ∣ (sis3320GetSegmentBase card n).toNat :=
    Nat.dvd_trans ⟨4, rfl⟩ (h.base_dvd n)
  simp only [sis3320GetData]
  split
  · next hsmall =>
    rw [if_pos hsmall] at hpage
    have hfirst : len.toNat ∣ (sis3320GetSegmentBase card n).toNat + i * len.toNat :=
      Nat.dvd_add (Nat.dvd_trans hpage hbase) (Nat.dvd_mul_left _ _)
    exact small_covers (Nat.mul_dvd_mul_left 2 hfirst) (Nat.mul_dvd_mul_left 2 hpage) hpos
  · next hbig =>
    rw [if_neg hbig] at hpage
    have hfirst : sis3320PageSizeSamples ∣
        (sis3320GetSegmentBase card n).toNat + i * len.toNat :=
      Nat.dvd_add hbase (Nat.dvd_trans hpage (Nat.dvd_mul_left _ _))
    exact big_covers (Nat.mul_dvd_mul_left 2 hfirst) hpage

end

/-! ## The invariant -/

/-- The configuration is one of a sis3320, and every segment has one of its event
lengths or none yet. -/
structure Sized (d : Dev Sis3320) : Prop where
  config : Configured d.card
  nChannels : d.card.nChannels = 8
  lengths : ∀ n, (d.card.segments n).nrSampPerEv = 0 ∨
    (d.card.segments n).nrSampPerEv ∈ sis3320EvLengths

structure PagedInv (s : PagedState) : Prop where
  sized : Sized s.sis.dev
  copy : s.paging.currPage = s.paging.register

section

variable {d d' : Dev Sis3320} {s : PagedState}

theorem Sized.frame (h : Sized d) (hconf : Configured d'.card)
    (hch : d'.card.nChannels = d.card.nChannels)
    (hlen : ∀ n, (d'.card.segments n).nrSampPerEv = (d.card.segments n).nrSampPerEv) :
    Sized d' where
  config := hconf
  nChannels := hch.trans h.nChannels
  lengths n := by
    rw [hlen n]
    exact h.lengths n

theorem Sized.acquire (h : Sized d) {desc : AcqDesc} (hs : Started3320 d desc d') :
    Sized d' where
  config := h.config.same hs.config
  nChannels := hs.config.nChannels.trans h.nChannels
  lengths n := by
    by_cases hn : n = desc.segment.toNat
    · rw [hn, hs.started]
      exact .inr (h.config.evLengths ▸ hs.accepted.evLength)
    · rw [hs.others n hn]
      exact h.lengths n

theorem Sized.irqWork (h : Sized d) (w : IrqWork) : Sized (sis3320IrqWork w d) := by
  cases hlev : w.statusLev with
  | false =>
    rw [sis3320IrqWork_of_not_lev hlev]
    exact h
  | true =>
    have hw := sis3320IrqWork_spec (d := d) hlev
    refine h.frame (h.config.same hw.config) hw.config.nChannels fun n => ?_
    by_cases hn : n = d.card.currSegment
    · rw [hn, hw.record, h.nChannels]
      exact segmentPrevticks_keeps.1.trans segmentRead_spec.nrSampPerEv
    · rw [hw.others n hn]

theorem Sized.cancel (h : Sized d) : Sized (sis3320AcqCancel d) := by
  refine h.frame (h.config.same ⟨rfl, rfl, rfl, rfl, rfl, rfl⟩) rfl fun n => ?_
  by_cases hn : n = d.card.currSegment
  · have hcurr : (sis3320AcqCancel d).card.segments d.card.currSegment =
        { d.card.curr with acquiring := false } := setSegment_same
    rw [hn, hcurr]
    rfl
  · exact congrArg Segment.nrSampPerEv (setSegment_of_ne hn)

theorem Sized.storeNSegments (h : Sized d) {segments : Int} {card : Card Sis3320}
    (hstore : Sis33.storeNSegments d.card segments = .ok card) :
    Sized { d with card := card } := by
  obtain ⟨_, n, rfl⟩ := storeNSegments_idle hstore
  exact h.frame (h.config.storeNSegments hstore) rfl fun _ => rfl

theorem Sized.fetch (h : Sized d) (dma : Nat → Except Errno Unit) (list : AcqList) :
    Sized (sis3320FetchIoctl dma d list).2 := by
  cases @sis3320FetchIoctl_cases d dma list with
  | refused e _ hdev =>
    rw [hdev]
    exact h
  | transfers k card _ _ hacc hdev _ =>
    rw [hdev, hacc.stored]
    refine h.frame (h.config.same ⟨rfl, rfl, rfl, rfl, rfl, rfl⟩) rfl fun n => ?_
    unfold fetchDone
    by_cases hn : n = list.segment.toNat
    · rw [hn, setSegment_same, setSegment_same]
    · rw [setSegment_of_ne hn, setSegment_of_ne hn]

theorem Sized.run {s : Sis3320State} (h : Sized s.dev) (o : Sis3320Op) :
    Sized (o.run s).dev := by
  cases o with
  | acquire desc =>
    simp only [Sis3320Op.run]
    split
    · exact h
    · next d hd => exact h.acquire (sis3320Acquire_ok hd)
  | irqWork w =>
    simp only [Sis3320Op.run]
    split <;> exact h.irqWork w
  | cancel =>
    simp only [Sis3320Op.run]
    split <;> exact h.cancel
  | storeNSegments segments =>
    simp only [Sis3320Op.run]
    split
    · exact h
    · next card hcard => exact h.storeNSegments hcard
  | fetch dma list => exact h.fetch dma list

theorem pagedInv_invariant : pagedSystem.Invariant PagedInv where
  init := by
    rintro s ⟨⟨version, hsis⟩, hregister, hcurr⟩
    refine ⟨?_, hcurr.trans hregister.symm⟩
    rw [hsis]
    exact ⟨sis3320Probe_configured _, rfl, fun _ => .inl rfl⟩
  step := by
    rintro s s' e h rfl
    cases e with
    | op o => exact ⟨h.sized.run o, h.copy⟩
    | sampled memory => exact ⟨h.sized, h.copy⟩
    | getData n channel i size dma data => exact ⟨h.sized, transfer_currPage h.copy⟩

/-- What a call of `sis3320_get_data()` for event `i` does: the reads stay in
their pages, the copy of the page register is right at each of them, and if none
fails the buffer gets the bytes of the event in order. -/
structure Delivers (s : PagedState) (n channel i : Nat) (size : BitVec 32)
    (dma : Nat → Option (Nat → BitVec 8)) (data : Nat → BitVec 8) : Prop where
  reads : ∀ r ∈ (getData s.sis.dev.card s.paging n channel i size dma data).2.reads, r.Sound
  data : (getData s.sis.dev.card s.paging n channel i size dma data).1 = true →
    (getData s.sis.dev.card s.paging n channel i size dma data).2.data =
      blit data 0
        (s.paging.bytesFrom channel
          (2 * ((sis3320GetSegmentBase s.sis.dev.card n).toNat +
            i * (s.sis.dev.card.segments n).nrSampPerEv.toNat)))
        (2 * (s.sis.dev.card.segments n).nrSampPerEv.toNat)

end

/-- A sis3320 of version 200 whose memory counts up. -/
def newSis3320 : PagedState :=
  ⟨{ dev := ⟨sis3320Probe ⟨200⟩, false, false⟩ }, { memory := fun _ a => BitVec.ofNat 8 a }⟩

/-- One event of 64 samples is taken. -/
def oneEvent : PagedState :=
  (PagedEvent.op (.irqWork { counter := 1, evDir := fun _ _ => 0x10000000 })).run
    ((PagedEvent.op (.acquire ⟨1, 1, 64, 0⟩)).run newSis3320)

theorem oneEvent_reachable : pagedSystem.Reachable oneEvent := by
  have hnew : pagedSystem.Reachable newSis3320 := .init ⟨⟨200, rfl⟩, rfl, rfl⟩
  have hacquired := System.Reachable.step hnew (e := .op (.acquire ⟨1, 1, 64, 0⟩)) rfl
  exact hacquired.step (e := .op (.irqWork { counter := 1, evDir := fun _ _ => 0x10000000 })) rfl

end Coht.Sis33
