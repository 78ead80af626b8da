import Coht.Lib.Word

/-!
# Reading the samples of a shot (`vd80.c`)

A shot is recorded until the module is stopped: `shotlength` samples, of which the last
`actpostrig` came after the trigger. `VD80_READ_SAMPLE` answers a request for a buffer of
samples around the trigger: it works out a window of the shot, tells the module in blocks
of 32 samples where to start and how much to put into its FIFO, and fetches the samples by
DMA. All counts are `uint32_t`.

The module is its registers and what it puts into the FIFO when it is told to read. A
register reads what was written to it last, except that `TCR2`, the number of post samples,
keeps what `latch` leaves of it.
-/

namespace Coht.Vd80

/-! ## The registers (`vd80hard.h`) -/

inductive Reg
  | gcr1 | tcr2 | tsr | ssr | mcr1 | mcr2 | ptsr | ptcr
  deriving DecidableEq

def commandRead : BitVec 32 := 4
def commandSubstop : BitVec 32 := 8
def commandStop : BitVec 32 := 0xe
def operantShift : Nat := 4
def operantMask : BitVec 32 := 0xf <<< operantShift

def postsamplesMask : BitVec 32 := 0x7ffff
def actpostsamplesShift : Nat := 0
def actpostsamplesMask : BitVec 32 := 0x1ffffff <<< actpostsamplesShift
def shotlenShift : Nat := 0
def shotlenMask : BitVec 32 := 0x1ffffff <<< shotlenShift
def readstartShift : Nat := 0
def readstartMask : BitVec 32 := 0x7ffff <<< readstartShift
def readlenShift : Nat := 0
def readlenMask : BitVec 32 := 0x7ffff <<< readstartShift

def psCntClkOnSmpl : BitVec 32 := 1 <<< 2
def psRegClrOnRead : BitVec 32 := 1 <<< 1
def psCntClrOnStart : BitVec 32 := 1 <<< 0

/-- A device: its base address on the bus and its registers. -/
structure Dev where
  vmeb : BitVec 32
  latch : BitVec 32 → BitVec 32 := fun valu => valu
  regs : Reg → BitVec 32

def getreg (dev : Dev) (reg : Reg) : BitVec 32 := dev.regs reg

def setreg (dev : Dev) (reg : Reg) (valu : BitVec 32) : Dev :=
  { dev with regs := fun r =>
      if r = reg then (if reg = .tcr2 then dev.latch valu else valu) else dev.regs r }

@[simp] theorem getreg_setreg_of_ne {dev : Dev} {r reg : Reg} {valu : BitVec 32}
    (h : r ≠ reg) : getreg (setreg dev reg valu) r = getreg dev r := if_neg h

@[simp] theorem getreg_setreg_self {dev : Dev} {reg : Reg} {valu : BitVec 32}
    (h : reg ≠ .tcr2) : getreg (setreg dev reg valu) reg = valu := by
  simp [getreg, setreg, h]

@[simp] theorem getreg_setreg_tcr2 {dev : Dev} {valu : BitVec 32} :
    getreg (setreg dev .tcr2 valu) .tcr2 = dev.latch valu := rfl

/-! ## The number of post samples -/

/-- `VD80_SET_POSTSAMPLES` -/
def setPostsamples (dev : Dev) (ival : BitVec 32) : Dev :=
  let tval := getreg dev .ptcr ||| psCntClrOnStart
  let dev := setreg dev .ptcr (tval &&& ~~~(psCntClkOnSmpl ||| psRegClrOnRead))
  setreg dev .tcr2 (if ival ≠ 0 then (ival - 1) / 32 else 0)

/-- `VD80_GET_POSTSAMPLES` -/
def getPostsamples (dev : Dev) : BitVec 32 := (getreg dev .tcr2 + 1) * 32

/-- A shot as the module has it when it is stopped. The registers have bits besides the
counts; a channel is known by its number from 0 on. -/
structure Shot where
  tsr : BitVec 32
  ssr : BitVec 32
  ptsr : BitVec 32
  samples : Nat → Nat → BitVec 16
  post_le : tsr.toNat % 2 ^ 25 ≤ ssr.toNat % 2 ^ 25

namespace Shot

def length (shot : Shot) : Nat := shot.ssr.toNat % 2 ^ 25

/-- How many of the samples came after the trigger. -/
def post (shot : Shot) : Nat := shot.tsr.toNat % 2 ^ 25

end Shot

/-- The module records a shot. -/
def Dev.acquire (dev : Dev) (shot : Shot) : Dev :=
  { dev with regs := fun
      | .tsr => shot.tsr
      | .ssr => shot.ssr
      | .ptsr => shot.ptsr
      | reg => dev.regs reg }

/-! ## `VD80_READ_SAMPLE` -/

/-- `struct vd80_sample_buf_s` -/
structure SampleBuf where
  channel : BitVec 32
  bufSizeSamples : BitVec 32
  trigPosition : BitVec 32
  samplesRead : BitVec 32 := 0
  preTrigStat : BitVec 32 := 0
  sampleBuf : BitVec 64

/-- What `build_dma_desc()` fills in: from the module at one address, by `VME_A24_USER_MBLT`
in blocks of 4096 bytes. -/
structure VmeDma where
  dataWidth : Nat := 32
  am : Nat := 0x38
  novmeinc : Bool := true
  blockSize : Nat := 4096
  srcAddru : BitVec 32
  srcAddrl : BitVec 32
  dstAddru : BitVec 32
  dstAddrl : BitVec 32
  length : BitVec 32

/-- `split_address()` -/
def splitAddress (ptr : BitVec 64) : BitVec 32 × BitVec 32 :=
  ((ptr >>> 32).setWidth 32, ptr.setWidth 32)

def buildDmaDesc (dev : Dev) (dest : BitVec 64) (len : BitVec 32) : VmeDma :=
  let (srcAddru, srcAddrl) := splitAddress (dev.vmeb.setWidth 64)
  let (dstAddru, dstAddrl) := splitAddress dest
  { srcAddru, srcAddrl, dstAddru, dstAddrl, length := len }

/-- The part of a shot that is read: where it begins, its number of samples, and the two
numbers of blocks the module is told. -/
structure Window where
  samplesRead : BitVec 32
  trigPosition : BitVec 32
  readstart : BitVec 32
  readlen : BitVec 32

/-- The window for a shot of `shotlength` samples, `actpostrig` of them behind the trigger,
and a buffer of `n` samples with the trigger at `t`. -/
def window (shotlength actpostrig n t : BitVec 32) : Window :=
  let actpretrig := shotlength - actpostrig
  let t := if t > actpretrig then actpretrig else t
  let samplestrt := shotlength - (actpostrig + t)
  let samplesRead := if samplestrt + n > shotlength then shotlength - samplestrt else n
  let readstart := ((samplestrt / 32) <<< readstartShift) &&& readstartMask
  let tval := if samplesRead < 32 then 0 else (samplesRead - 1) / 32
  { samplesRead := samplesRead
    trigPosition := actpretrig - readstart * 32
    readstart := readstart
    readlen := (tval <<< readlenShift) &&& readlenMask }

/-- What the ioctl leaves: its result, the module, the argument, and what was asked of the
DMA. -/
structure Answer where
  cc : Int
  dev : Dev
  sbuf : SampleBuf
  dma : Option VmeDma := none

def eacces : Int := 13

/-- `VD80_READ_SAMPLE`, where `vmeDoDma` is what the bus driver makes of a DMA. -/
def readSample (vmeDoDma : VmeDma → Int) (dev : Dev) (sbuf : SampleBuf) : Answer :=
  if getreg dev .tcr2 = 0 then { cc := -eacces, dev := dev, sbuf := sbuf }
  else
    let dev := setreg dev .gcr1 commandSubstop
    let dev := setreg dev .gcr1 commandStop
    -- `wait_for_idle()` comes back whether the module got idle or not.
    let actpostrig := (getreg dev .tsr <<< actpostsamplesShift) &&& actpostsamplesMask
    let shotlength := (getreg dev .ssr <<< shotlenShift) &&& shotlenMask
    let w := window shotlength actpostrig sbuf.bufSizeSamples sbuf.trigPosition
    let sbuf :=
      { sbuf with
        preTrigStat := getreg dev .ptsr
        trigPosition := w.trigPosition
        samplesRead := w.samplesRead }
    let dev := setreg dev .mcr1 w.readstart
    let dev := setreg dev .mcr2 w.readlen
    let operant : BitVec 32 := ((sbuf.channel - 1#32) <<< operantShift) &&& operantMask
    let dev := setreg dev .gcr1 (commandRead ||| operant)
    let desc := buildDmaDesc dev sbuf.sampleBuf (w.samplesRead * 2)
    { cc := if vmeDoDma desc ≠ 0 then -eacces else 0
      dev := dev
      sbuf := sbuf
      dma := some desc }

/-! ## What the module and the DMA deliver -/

namespace Dev

/-- The sample the module starts reading at. -/
def start (dev : Dev) : Nat := 32 * (getreg dev .mcr1 &&& readstartMask).toNat

/-- How many samples the module is told to read. -/
def told (dev : Dev) : Nat := 32 * ((getreg dev .mcr2 &&& readlenMask).toNat + 1)

/-- The channel the module is told to read. -/
def channel (dev : Dev) : Nat := ((getreg dev .gcr1 >>> operantShift) &&& 0xf#32).toNat

/-- What the module puts into its FIFO. -/
def fifo (dev : Dev) (shot : Shot) : List (BitVec 16) :=
  (List.range' dev.start dev.told).map (shot.samples dev.channel)

end Dev

/-- The samples that get into the buffer. -/
def Answer.delivered (answer : Answer) (shot : Shot) : List (BitVec 16) :=
  match answer.dma with
  | none => []
  | some desc => (answer.dev.fifo shot).take (desc.length.toNat / 2)

/-- The request gets the samples of the shot from `start` on that the window promises. -/
structure Answer.Serves (answer : Answer) (shot : Shot) (request : SampleBuf)
    (channel start : Nat) : Prop where
  success : answer.cc = 0
  named : 1 ≤ request.channel.toNat → request.channel.toNat ≤ 16 →
    channel + 1 = request.channel.toNat
  delivered : answer.delivered shot =
    (List.range' start answer.sbuf.samplesRead.toNat).map (shot.samples channel)
  aligned : 32 ∣ start
  fits : answer.sbuf.samplesRead.toNat ≤ request.bufSizeSamples.toNat
  inside : start + answer.sbuf.samplesRead.toNat ≤ shot.length
  moved : ∃ desc, answer.dma = some desc ∧
    desc.length.toNat = 2 * answer.sbuf.samplesRead.toNat
  told : answer.sbuf.samplesRead.toNat ≤ answer.dev.told
  trigger : answer.sbuf.trigPosition.toNat + start + shot.post = shot.length
  near : answer.sbuf.trigPosition.toNat ≤ request.trigPosition.toNat + 31
  inBuffer : request.trigPosition.toNat < request.bufSizeSamples.toNat → 0 < shot.post →
    answer.sbuf.trigPosition.toNat < answer.sbuf.samplesRead.toNat

namespace Shot

variable (shot : Shot)

/-- How many of the `t` samples asked for before the trigger there are. -/
def before (t : Nat) : Nat := min t (shot.length - shot.post)

/-- The sample a window with `t` samples before the trigger begins with, before it is
rounded down. -/
def first (t : Nat) : Nat := shot.length - shot.post - shot.before t

/-- How many samples there are for a buffer of `n`. -/
def count (n t : Nat) : Nat := min n (shot.post + shot.before t)

theorem first_add_before (t : Nat) : shot.first t + shot.before t + shot.post = shot.length := by
  have hpost := shot.post_le
  simp only [first, before, length, post] at *
  omega

theorem length_lt : shot.length < 2 ^ 25 := Nat.mod_lt _ (by decide)

end Shot

/-! ## The window in numbers -/

section Counts

variable {shot : Shot}

theorem toNat_shotlength : ((shot.ssr <<< shotlenShift) &&& shotlenMask).toNat = shot.length := by
  rw [Lib.toNat_and_low (k := 25) (by decide)]
  simp [shotlenShift, Shot.length]

theorem toNat_actpostrig :
    ((shot.tsr <<< actpostsamplesShift) &&& actpostsamplesMask).toNat = shot.post := by
  rw [Lib.toNat_and_low (k := 25) (by decide)]
  simp [actpostsamplesShift, Shot.post]

theorem toNat_readstart {x : BitVec 32} :
    ((x <<< readstartShift) &&& readstartMask).toNat = x.toNat % 2 ^ 19 := by
  rw [Lib.toNat_and_low (k := 19) (by decide)]
  simp [readstartShift]

theorem toNat_readlen {x : BitVec 32} :
    ((x <<< readlenShift) &&& readlenMask).toNat = x.toNat % 2 ^ 19 := by
  rw [Lib.toNat_and_low (k := 19) (by decide)]
  simp [readlenShift]

end Counts

section Window

variable {shot : Shot} {shotlength actpostrig n t : BitVec 32} {k : Nat}

theorem toNat_trigPosition (hlength : shotlength.toNat = shot.length)
    (hpost : actpostrig.toNat = shot.post) :
    (if t > shotlength - actpostrig then shotlength - actpostrig else t).toNat =
      shot.before t.toNat := by
  have hle := shot.first_add_before t.toNat
  have hlt := shot.length_lt
  have hsub : (shotlength - actpostrig).toNat = shot.length - shot.post := by
    rw [BitVec.toNat_sub, hlength, hpost]
    omega
  simp only [Shot.before, gt_iff_lt, BitVec.lt_def, hsub]
  split
  · rw [hsub]
    omega
  · omega

theorem toNat_samplestrt (hlength : shotlength.toNat = shot.length)
    (hpost : actpostrig.toNat = shot.post) (ht : t.toNat = shot.before k) :
    (shotlength - (actpostrig + t)).toNat = shot.first k := by
  have hle := shot.first_add_before k
  have hlt := shot.length_lt
  rw [BitVec.toNat_sub, BitVec.toNat_add, hlength, hpost, ht]
  omega

theorem toNat_samplesRead {samplestrt : BitVec 32} (hlength : shotlength.toNat = shot.length)
    (hfirst : samplestrt.toNat = shot.first k) :
    (if samplestrt + n > shotlength then shotlength - samplestrt else n).toNat =
      if shot.first k + n.toNat < 2 ^ 32 then shot.count n.toNat k else n.toNat := by
  have hle := shot.first_add_before k
  have hlt := shot.length_lt
  have hsub : (shotlength - samplestrt).toNat = shot.post + shot.before k := by
    rw [BitVec.toNat_sub, hlength, hfirst]
    omega
  simp only [gt_iff_lt, BitVec.lt_def, BitVec.toNat_add, hlength, hfirst, Shot.count]
  split
  · rw [hsub]
    split
    · omega
    · omega
  · split
    · omega
    · rfl

theorem window_readstart_masked : (window shotlength actpostrig n t).readstart &&& readstartMask =
    (window shotlength actpostrig n t).readstart := by
  rw [window, BitVec.and_assoc, BitVec.and_self]

theorem window_readlen_masked : (window shotlength actpostrig n t).readlen &&& readlenMask =
    (window shotlength actpostrig n t).readlen := by
  rw [window, BitVec.and_assoc, BitVec.and_self]

/-- What the window is: the start and the number of blocks lose the bits their fields have no
room for. -/
structure Window.Spec (w : Window) (shot : Shot) (n t : Nat) : Prop where
  readstart : w.readstart.toNat = shot.first t / 32 % 2 ^ 19
  trigPosition : w.trigPosition.toNat + 32 * w.readstart.toNat + shot.post = shot.length
  samplesRead : w.samplesRead.toNat =
    if shot.first t + n < 2 ^ 32 then shot.count n t else n
  readlen : w.readlen.toNat = (w.samplesRead.toNat - 1) / 32 % 2 ^ 19

theorem window_spec (hlength : shotlength.toNat = shot.length)
    (hpost : actpostrig.toNat = shot.post) :
    (window shotlength actpostrig n t).Spec shot n.toNat t.toNat := by
  have ht := toNat_trigPosition (t := t) hlength hpost
  have hfirst := toNat_samplestrt hlength hpost ht
  have hread := toNat_samplesRead (n := n) hlength hfirst
  have hle := shot.first_add_before t.toNat
  have hlt := shot.length_lt
  have hstart : (window shotlength actpostrig n t).readstart.toNat =
      shot.first t.toNat / 32 % 2 ^ 19 := by
    simp only [window, toNat_readstart, BitVec.toNat_udiv, hfirst]
    rfl
  refine ⟨hstart, ?_, hread, ?_⟩
  · have heq : (window shotlength actpostrig n t).trigPosition =
        shotlength - actpostrig - (window shotlength actpostrig n t).readstart * 32 := rfl
    have hblock : (32 : BitVec 32).toNat = 32 := rfl
    rw [heq, BitVec.toNat_sub, BitVec.toNat_sub, BitVec.toNat_mul, hstart, hlength, hpost, hblock]
    omega
  · have heq : (window shotlength actpostrig n t).readlen =
        ((if (window shotlength actpostrig n t).samplesRead < 32 then (0 : BitVec 32)
          else ((window shotlength actpostrig n t).samplesRead - 1) / 32) <<< readlenShift) &&&
          readlenMask := rfl
    rw [heq, toNat_readlen]
    congr 1
    generalize (window shotlength actpostrig n t).samplesRead = k
    have hk := k.isLt
    split
    · rename_i hsmall
      have : k.toNat < 32 := hsmall
      have hzero : (0 : BitVec 32).toNat = 0 := rfl
      omega
    · rename_i hbig
      have : ¬ k.toNat < 32 := hbig
      have hone : (1 : BitVec 32).toNat = 1 := rfl
      have hblock : (32 : BitVec 32).toNat = 32 := rfl
      rw [BitVec.toNat_udiv, BitVec.toNat_sub, hone, hblock]
      omega

end Window

structure Window.Fits (w : Window) (shot : Shot) (n t : Nat) : Prop where
  fits : w.samplesRead.toNat ≤ n
  inside : 32 * w.readstart.toNat + w.samplesRead.toNat ≤ shot.length
  told : w.samplesRead.toNat ≤ 32 * (w.readlen.toNat + 1)
  near : w.trigPosition.toNat ≤ t + 31
  inBuffer : t < n → 0 < shot.post → w.trigPosition.toNat < w.samplesRead.toNat

/-- What the counts of the request and of the shot have to be for that. -/
structure Shot.Holds (shot : Shot) (n t : Nat) : Prop where
  first_lt : shot.first t < 2 ^ 24
  sum_lt : shot.first t + n < 2 ^ 32
  count_le : shot.count n t ≤ 2 ^ 24
  trigger : t < n → 0 < shot.post →
    shot.first t % 32 < shot.post ∧ shot.before t + shot.first t % 32 < n

theorem Window.Spec.fits_iff {w : Window} {shot : Shot} {n t : Nat} (hspec : w.Spec shot n t) :
    w.Fits shot n t ↔ shot.Holds n t := by
  obtain ⟨hstart, htrigger, hread, hlen⟩ := hspec
  have hsplit := shot.first_add_before t
  have hlt := shot.length_lt
  have hbefore : shot.before t = min t (shot.length - shot.post) := rfl
  simp only [Shot.count] at hread
  constructor
  · rintro ⟨hfits, hinside, htold, hnear, hbuffer⟩
    have hfirst : shot.first t < 2 ^ 24 := by omega
    have hsum : shot.first t + n < 2 ^ 32 := by
      by_cases hsum : shot.first t + n < 2 ^ 32
      · exact hsum
      · rw [if_neg hsum] at hread
        omega
    rw [if_pos hsum] at hread
    refine ⟨hfirst, hsum, ?_, fun ht hp => ?_⟩
    · rw [Shot.count, ← hread]
      omega
    · have := hbuffer ht hp
      omega
  · rintro ⟨hfirst, hsum, hcount, htrig⟩
    rw [if_pos hsum] at hread
    rw [Shot.count] at hcount
    refine ⟨by omega, by omega, by omega, by omega, fun ht hp => ?_⟩
    have := htrig ht hp
    omega

/-! ## The answer -/

section Answers

variable {vmeDoDma : VmeDma → Int} {dev : Dev} {shot : Shot} {post : BitVec 32}
  {request : SampleBuf}

theorem getreg_tcr2_set : getreg (setPostsamples dev post) .tcr2 =
    dev.latch (BitVec.ofNat 32 ((post.toNat - 1) / 32)) := by
  have hvalue : (if post ≠ 0 then (post - 1) / 32 else 0 : BitVec 32) =
      BitVec.ofNat 32 ((post.toNat - 1) / 32) := by
    have hone : (1 : BitVec 32).toNat = 1 := rfl
    have hblock : (32 : BitVec 32).toNat = 32 := rfl
    have hpost := post.isLt
    apply BitVec.eq_of_toNat_eq
    rw [BitVec.toNat_ofNat]
    split
    · rename_i hne
      have hpos : post.toNat ≠ 0 := fun h => hne (BitVec.eq_of_toNat_eq h)
      rw [BitVec.toNat_udiv, BitVec.toNat_sub, hone, hblock]
      omega
    · rename_i hzero
      have heq : post = 0 := Decidable.not_not.mp hzero
      rw [heq]
      rfl
  rw [← hvalue]
  rfl

theorem getreg_tcr2_acquire : getreg ((setPostsamples dev post).acquire shot) .tcr2 =
    dev.latch (BitVec.ofNat 32 ((post.toNat - 1) / 32)) :=
  getreg_tcr2_set

theorem getPostsamples_set (hlatch : ∀ x : BitVec 32, x.toNat < 2 ^ 19 → dev.latch x = x)
    (hpos : 0 < post.toNat) (hle : post.toNat ≤ 2 ^ 24) :
    (getPostsamples (setPostsamples dev post)).toNat = Lib.roundUp 32 post.toNat := by
  have hone : (1 : BitVec 32).toNat = 1 := rfl
  have hblock : (32 : BitVec 32).toNat = 32 := rfl
  have hcount : (BitVec.ofNat 32 ((post.toNat - 1) / 32)).toNat = (post.toNat - 1) / 32 := by
    rw [BitVec.toNat_ofNat]
    omega
  rw [getPostsamples, getreg_tcr2_set, hlatch _ (by omega), BitVec.toNat_mul, BitVec.toNat_add,
    hcount, hone, hblock, Lib.roundUp, Lib.padTo]
  omega

theorem operant_of_channel {channel : BitVec 32} (hpos : 1 ≤ channel.toNat)
    (hle : channel.toNat ≤ 16) :
    (((commandRead ||| (((channel - 1#32) <<< operantShift) &&& operantMask)) >>> operantShift)
      &&& 0xf#32).toNat + 1 = channel.toNat := by
  have hsub : (channel - 1#32).toNat = channel.toNat - 1 := by
    have hlt := channel.isLt
    rw [BitVec.toNat_sub, BitVec.toNat_ofNat]
    omega
  let operant : Lib.Field := ⟨4, 4⟩
  have hholds : operant.Holds (channel - 1#32) := by
    have hlt : channel.toNat - 1 < 2 ^ 4 := by omega
    rwa [← hsub] at hlt
  have hget : operant.get (commandRead ||| operant.put (channel - 1#32)) = channel - 1#32 := by
    have hcommand : operant.get commandRead = 0#32 := by decide
    rw [Lib.Field.get_or, Lib.Field.get_put operant (by decide) hholds, hcommand,
      BitVec.zero_or]
  have heq : ((commandRead ||| (((channel - 1#32) <<< operantShift) &&& operantMask))
      >>> operantShift) &&& 0xf#32 = channel - 1#32 := hget
  rw [heq, hsub]
  omega

theorem readSample_of_zero (h : getreg dev .tcr2 = 0) :
    readSample vmeDoDma dev request = { cc := -eacces, dev := dev, sbuf := request } :=
  if_pos h

structure Answer.Follows (answer : Answer) (w : Window) (vmeDoDma : VmeDma → Int)
    (request : SampleBuf) : Prop where
  start : answer.dev.start = 32 * w.readstart.toNat
  told : answer.dev.told = 32 * (w.readlen.toNat + 1)
  named : 1 ≤ request.channel.toNat → request.channel.toNat ≤ 16 →
    answer.dev.channel + 1 = request.channel.toNat
  samplesRead : answer.sbuf.samplesRead = w.samplesRead
  trigPosition : answer.sbuf.trigPosition = w.trigPosition
  dma : ∃ desc, answer.dma = some desc ∧ desc.length = w.samplesRead * 2 ∧
    (vmeDoDma desc = 0 ↔ answer.cc = 0)

theorem vmeDoDma_iff {res : Int} : res = 0 ↔ (if res ≠ 0 then -eacces else 0) = 0 := by
  by_cases h : res = 0
  · simp [h]
  · simp [h, eacces]

theorem readSample_of_ne_zero
    (h : getreg ((setPostsamples dev post).acquire shot) .tcr2 ≠ 0) :
    ∃ w : Window, w.Spec shot request.bufSizeSamples.toNat request.trigPosition.toNat ∧
      (readSample vmeDoDma ((setPostsamples dev post).acquire shot) request).Follows w
        vmeDoDma request := by
  refine ⟨_, window_spec toNat_shotlength toNat_actpostrig, ?_⟩
  rw [readSample, if_neg h]
  refine ⟨?_, ?_, operant_of_channel, rfl, rfl, _, rfl, rfl, vmeDoDma_iff⟩
  · exact congrArg (fun x => 32 * BitVec.toNat x) window_readstart_masked
  · exact congrArg (fun x => 32 * (BitVec.toNat x + 1)) window_readlen_masked

theorem delivered_eq {answer : Answer} {desc : VmeDma} {k : Nat} (hdma : answer.dma = some desc)
    (hlength : desc.length.toNat = 2 * k) (htold : k ≤ answer.dev.told) :
    answer.delivered shot =
      (List.range' answer.dev.start k).map (shot.samples answer.dev.channel) := by
  have hhalf : desc.length.toNat / 2 = k := by omega
  rw [Answer.delivered, hdma]
  simp only [hhalf, Dev.fifo]
  rw [← List.map_take, List.take_range'_of_length_ge htold]

theorem Answer.Follows.serves_iff {w : Window} {answer : Answer}
    (hfollows : answer.Follows w vmeDoDma request)
    (hspec : w.Spec shot request.bufSizeSamples.toNat request.trigPosition.toNat)
    (hdone : ∀ desc, answer.dma = some desc → vmeDoDma desc = 0) :
    (∃ channel start, answer.Serves shot request channel start) ↔
      w.Fits shot request.bufSizeSamples.toNat request.trigPosition.toNat := by
  have hread := hfollows.samplesRead
  have htrig := hfollows.trigPosition
  have htold := hfollows.told
  have hstart := hfollows.start
  have hsplit := hspec.trigPosition
  constructor
  · rintro ⟨channel, start, hserves⟩
    obtain ⟨-, -, -, -, hfits, hinside, -, hreads, htrigger, hnear, hbuffer⟩ := hserves
    rw [hread] at hfits hinside hreads hbuffer
    rw [htrig] at htrigger hnear hbuffer
    rw [htold] at hreads
    exact { fits := hfits, inside := by omega, told := hreads, near := hnear, inBuffer := hbuffer }
  · intro hok
    obtain ⟨desc, hdesc, hlength, hcc⟩ := hfollows.dma
    obtain ⟨hfits, hinside, hreads, hnear, hbuffer⟩ := hok
    have hlt := shot.length_lt
    have hmoved : desc.length.toNat = 2 * w.samplesRead.toNat := by
      have htwo : (2 : BitVec 32).toNat = 2 := rfl
      rw [hlength, BitVec.toNat_mul, htwo]
      omega
    refine ⟨answer.dev.channel, answer.dev.start, ?_⟩
    constructor
    case success => exact hcc.mp (hdone desc hdesc)
    case named => exact hfollows.named
    case delivered =>
      rw [hread]
      exact delivered_eq hdesc hmoved (by omega)
    case aligned => exact ⟨_, hstart⟩
    case moved => exact ⟨desc, hdesc, by rw [hread, hmoved]⟩
    all_goals
      simp only [hread, htrig, htold, hstart]
      omega

/-- A request for the samples of a shot is served, with the window of the shot that is
promised, if and only if the post samples register reads other than 0, neither the start nor
the number of samples is too big for its register, no sum wraps around, and the samples the
start is rounded down over push the trigger neither behind the last sample read nor out of
the buffer. -/
theorem readSample_serves_iff (vmeDoDma : VmeDma → Int) (dev : Dev) (shot : Shot)
    (post : BitVec 32) (request : SampleBuf)
    (hdone : ∀ desc,
      (readSample vmeDoDma ((setPostsamples dev post).acquire shot) request).dma = some desc →
        vmeDoDma desc = 0) :
    (∃ channel start,
      (readSample vmeDoDma ((setPostsamples dev post).acquire shot) request).Serves shot request
        channel start) ↔
      dev.latch (BitVec.ofNat 32 ((post.toNat - 1) / 32)) ≠ 0 ∧
        shot.Holds request.bufSizeSamples.toNat request.trigPosition.toNat := by
  rw [← @getreg_tcr2_acquire _ shot]
  by_cases h : getreg ((setPostsamples dev post).acquire shot) .tcr2 = 0
  · have hrefused := @readSample_of_zero vmeDoDma _ request h
    constructor
    · rintro ⟨channel, start, hserves⟩
      have hcc := hserves.success
      rw [hrefused] at hcc
      exact absurd hcc (by simp [eacces])
    · exact fun hok => absurd h hok.1
  · obtain ⟨w, hspec, hfollows⟩ := @readSample_of_ne_zero vmeDoDma _ _ _ _ h
    rw [hfollows.serves_iff hspec hdone, hspec.fits_iff]
    exact (and_iff_right h).symm

end Answers

/-- A module after power up: its post samples register keeps 19 bits. -/
def fresh : Dev :=
  { vmeb := 0x600000
    latch := fun valu => valu &&& postsamplesMask
    regs := fun _ => 0 }

/-- A shot of 64 samples, the last 32 of them behind the trigger. -/
def halfShot : Shot :=
  { tsr := 32
    ssr := 64
    ptsr := 0
    samples := fun _ i => BitVec.ofNat 16 i
    post_le := by decide }

/-- The whole buffer for the samples behind the trigger. -/
def behindTrigger : SampleBuf :=
  { channel := 1
    bufSizeSamples := 32
    trigPosition := 0
    sampleBuf := 0x1000 }

/-- 64 post samples have been set, and 32 samples are read. -/
theorem readSample_serves_iff_half :
    (∃ channel start,
      (readSample (fun _ => 0) ((setPostsamples fresh 64).acquire halfShot) behindTrigger).Serves
        halfShot behindTrigger channel start) ↔
      fresh.latch (BitVec.ofNat 32 (((64 : BitVec 32).toNat - 1) / 32)) ≠ 0 ∧
        halfShot.Holds behindTrigger.bufSizeSamples.toNat behindTrigger.trigPosition.toNat :=
  readSample_serves_iff (fun _ => 0) fresh halfShot 64 behindTrigger (fun _ _ => rfl)

/-- 32 post samples have been set, and the request is refused as if none had been. -/
theorem readSample_not_serves :
    ¬ ∃ channel start,
      (readSample (fun _ => 0) ((setPostsamples fresh 32).acquire halfShot) behindTrigger).Serves
        halfShot behindTrigger channel start := by
  rintro ⟨channel, start, hserves⟩
  have hcc := hserves.success
  rw [readSample_of_zero (by decide)] at hcc
  exact absurd hcc (by decide)

end Coht.Vd80
