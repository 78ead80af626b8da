import Coht.Cvorg.StoreSeq
import Coht.Lib.Ledger
import Mathlib.Algebra.Group.Int.Defs

/-!
# Loading a sequence from user memory (`cvorg-func.c`)

`cvorg_chan_loadseq()` validates the sequence where it is, in the memory of
the user, and then copies it: an array of descriptors is allocated, and for
each waveform its descriptor is copied into the array, a buffer is allocated
whose address goes into the descriptor, and the points are copied into the
buffer. Then the sequence is stored, and whatever happened the common clean-up
walks the whole array and frees what its descriptors point to.

User memory may change at any time, so every read of it has a `Moment`, and a
world says what the memory holds at each. It also says which allocations fail,
how many bytes each copy manages, and what the array of descriptors held when
it was allocated. The addresses of buffers are kept in a ledger from their
allocation to their release.

`LoadSafe.lean` has the condition under which the call is safe.
-/

namespace Coht.Cvorg

open Coht.Lib

/-! ## Validation -/

/-- What validation depends on beside the sequence. -/
structure Settings where
  outoff : Nat
  sampfreq : U32

def CVORG_OUT_OFFSET_2_5V : Nat := 1

/-- The fields of a descriptor, in the order in which validation reads them;
`recurr` and `size` are read twice. -/
inductive Check
  | dynamicGain
  | gainVal
  | recurr
  | recurrAgain
  | size
  | sizeAgain
  deriving DecidableEq

def cvorgInvalidGainOffset (gain : Int) (offset : Nat) : Bool :=
  offset = CVORG_OUT_OFFSET_2_5V ∧ gain ≠ 14

def cvorgCheckGainOffsetWv (set : Settings) (read : Check → U32) : Bool :=
  read .dynamicGain ≠ 0 ∧
    cvorgInvalidGainOffset (read .gainVal).toInt set.outoff

def cvorgMustCheckFreqlimit (nr : U32) (nWaves : Nat) : Bool :=
  nr = 0 ∨ nWaves > 2

structure CvorgLimit where
  freq : U32
  len : U32

def cvorgFreqlimits : List CvorgLimit :=
  [⟨1, 16⟩, ⟨10, 60⟩, ⟨25, 1250⟩, ⟨50, 3300⟩, ⟨60, 4700⟩, ⟨80, 9300⟩,
    ⟨100, 23200⟩]

def freqlimit (i : Nat) : CvorgLimit := cvorgFreqlimits.getD i ⟨0, 0⟩

def CVORG_NR_FREQLIMITS : Nat := 7

def cvorgFreqlimitRange (mhz : U32) : Nat :=
  match (List.range (CVORG_NR_FREQLIMITS - 1)).find? fun i =>
      (freqlimit i).freq > mhz ∧ mhz < (freqlimit (i + 1)).freq with
  | some i => i
  | none =>
    if mhz ≤ (freqlimit 0).freq then 0 else CVORG_NR_FREQLIMITS - 2

def cvorgFreqlimitCheck (length : Nat) (hz : U32) : Bool :=
  if hz > 100002000 then true
  else
    let mhz := hz / 1000000 + (if hz % 1000000 ≠ 0 then 1 else 0)
    let mhz := if mhz > 100 then 100 else mhz
    let i := cvorgFreqlimitRange mhz
    let l1 := freqlimit i
    let l2 := freqlimit (i + 1)
    let m := (l2.len - l1.len) / (l2.freq - l1.freq)
    let minimum := if m = 0 then l2.len else m * (mhz - l1.freq) + l1.len
    length < minimum.toNat

/-- The number of bytes that are played for a waveform: the driver multiplies
in 32 bits. -/
def wrappedBytes (recurr size : U32) : Nat := (recurr * size).toNat

def exactBytes (recurr size : U32) : Nat := recurr.toNat * size.toNat

def cvorgInvalidFreqlimit (bytes : U32 → U32 → Nat) (set : Settings) (nr : U32)
    (nWaves : Nat) (read : Check → U32) : Bool :=
  if !cvorgMustCheckFreqlimit nr nWaves ∨ read .recurr = 0 then false
  else
    cvorgFreqlimitCheck (bytes (read .recurrAgain) (read .size) / 2) set.sampfreq

def invalidWv (bytes : U32 → U32 → Nat) (set : Settings) (nr : U32)
    (nWaves : Nat) (read : Check → U32) : Bool :=
  cvorgCheckGainOffsetWv set read ||
    cvorgInvalidFreqlimit bytes set nr nWaves read ||
    (set.sampfreq > 50000000 ∧ (read .sizeAgain).toNat / 2 < 2)

/-- `cvorg_invalid_seq()`. `bytes` is how the product of recurrence and size is
taken and `hasWaves` whether the pointer to the waveforms is not `NULL`. -/
def cvorgInvalidSeq (bytes : U32 → U32 → Nat) (set : Settings) (nr : U32)
    (nWaves : Nat) (hasWaves : Bool) (read : Nat → Check → U32) : Int :=
  if nWaves = 0 then -EINVAL
  else if !hasWaves then -EINVAL
  else if (List.range nWaves).any fun i => invalidWv bytes set nr nWaves (read i)
    then -EINVAL
  else 0

/-- The checks on a sequence in the memory of the kernel, where a field is the
same whenever it is read. -/
def CvorgWv.read (wv : CvorgWv) : Check → U32
  | .dynamicGain => wv.dynamicGain
  | .gainVal => wv.gainVal
  | .recurr => wv.recurr
  | .recurrAgain => wv.recurr
  | .size => wv.size
  | .sizeAgain => wv.size

def CvorgSeq.read (seq : CvorgSeq) (i : Nat) : Check → U32 :=
  ((seq.waves[i]?).map CvorgWv.read).getD fun _ => 0

/-! ## User memory and allocations -/

/-- `struct cvorg_wv` in memory, with `form` an address. -/
structure WvDesc where
  recurr : U32
  size : U32
  dynamicGain : U32
  gainVal : U32
  form : Nat

/-- The first `n` bytes of a word, the others zero. -/
def lowBytes (n : Nat) (x : U32) : U32 := BitVec.ofNat 32 (x.toNat % 256 ^ n)

/-- A descriptor of which `copy_from_user()` managed the first `n` bytes: it
clears the rest. -/
def WvDesc.upTo (n : Nat) (wv : WvDesc) : WvDesc :=
  { recurr := lowBytes n wv.recurr
    size := lowBytes (n - 4) wv.size
    dynamicGain := lowBytes (n - 8) wv.dynamicGain
    gainVal := lowBytes (n - 12) wv.gainVal
    form := wv.form % 256 ^ (n - 16) }

def WvDesc.read (wv : WvDesc) : Check → U32
  | .dynamicGain => wv.dynamicGain
  | .gainVal => wv.gainVal
  | .recurr => wv.recurr
  | .recurrAgain => wv.recurr
  | .size => wv.size
  | .sizeAgain => wv.size

def sizeofCvorgWv : Nat := 24

/-- The reads of user memory: a field during validation, a descriptor that is
copied, its pointer to the points, and the points. -/
inductive Moment
  | check (i : Nat) (c : Check)
  | desc (i : Nat)
  | form (i : Nat)
  | data (i : Nat)

structure UserMem where
  wave : Nat → WvDesc
  points : Nat → (size : U32) → Vector U16 (size.toNat / 2)

def ZERO_SIZE_PTR : Nat := 16

/-- The address of a block that `kmalloc()` has handed out. -/
abbrev Block := { p : Nat // ZERO_SIZE_PTR < p }

structure World where
  /-- the status register when `__cvorg_channel_ready()` reads it -/
  ready : U32
  /-- the status register when `__cvorg_sram_busy()` reads it -/
  status : Fin 10 → U32
  mem : Moment → UserMem
  /-- the bytes that `copy_from_user()` manages before it fails -/
  copied : Moment → Nat
  array : Option Block
  /-- what the array of descriptors holds when it is allocated -/
  stale : Nat → WvDesc
  buffer : Nat → Option Block
  writeback : Nat → Bool

/-- `struct cvorg_seq` of the user. It is in a buffer of the kernel, unlike the
descriptors that it points to. -/
structure UserSeq where
  nr : U32
  nWaves : U32
  waves : Nat

/-- What `kmalloc()` returns for waveform `i`, `none` for `NULL`, and the books
after it: no memory is allocated for a size of 0. -/
def kmalloc (w : World) (i : Nat) (size : U32) (books : Ledger Nat) :
    Option Nat × Ledger Nat :=
  if size = 0 then (some ZERO_SIZE_PTR, books)
  else
    match w.buffer i with
    | none => (none, books)
    | some p => (some p.1, books.acquire p.1)

def kfree (p : Nat) (books : Ledger Nat) : Ledger Nat :=
  if p ≤ ZERO_SIZE_PTR then books else books.release p

/-! ## Copying and freeing -/

def freeWv (wv : WvDesc) (books : Ledger Nat) : Ledger Nat :=
  if wv.form = 0 ∨ wv.size = 0 then books else kfree wv.form books

def freeWaves (waves : Nat → WvDesc) (n : Nat) (books : Ledger Nat) :
    Ledger Nat :=
  (List.range n).foldl (fun books i => freeWv (waves i) books) books

/-- `free_seq()`; `array` is the pointer to the descriptors. -/
def freeSeq (nWaves : Nat) (array : Option Block) (waves : Nat → WvDesc)
    (books : Ledger Nat) : Ledger Nat :=
  match array with
  | none => kfree 0 books
  | some p =>
    if nWaves = 0 then kfree p.1 books
    else kfree p.1 (freeWaves waves nWaves books)

/-- `copy_wv_from_user()` for waveform `i`: what it returns, and what it leaves
in the array and the books. -/
def copyWvFromUser (w : World) (i : Nat) (books : Ledger Nat) :
    Int × WvDesc × Ledger Nat :=
  let desc := (w.mem (.desc i)).wave i
  if w.copied (.desc i) < sizeofCvorgWv then
    (-EFAULT, desc.upTo (w.copied (.desc i)), books)
  else
    match kmalloc w i desc.size books with
    | (none, books) => (-ENOMEM, { desc with form := 0 }, books)
    | (some p, books) =>
      if w.copied (.data i) < desc.size.toNat then
        (-EFAULT, { desc with form := p }, books)
      else
        (0, { desc with form := p }, books)

/-- The loop of `seq_init()` over the waveforms from `i` on. -/
def copyWaves (w : World) : Nat → Nat → (Nat → WvDesc) → Ledger Nat →
    Int × (Nat → WvDesc) × Ledger Nat
  | 0, _, waves, books => (0, waves, books)
  | m + 1, i, waves, books =>
    let r := copyWvFromUser w i books
    let waves := Function.update waves i r.2.1
    if r.1 ≠ 0 then (-1, waves, r.2.2)
    else copyWaves w m (i + 1) waves r.2.2

/-- `seq_init()`: the array of descriptors as it is filled, and the books, with
what it allocated freed if it fails. -/
def seqInit (w : World) (nWaves : Nat) (books : Ledger Nat) :
    Int × (Nat → WvDesc) × Ledger Nat :=
  match w.array with
  | none => (-ENOMEM, w.stale, freeSeq nWaves none w.stale books)
  | some p =>
    let r := copyWaves w nWaves 0 w.stale (books.acquire p.1)
    if r.1 ≠ 0 then (-1, r.2.1, freeSeq nWaves (some p) r.2.1 r.2.2)
    else (0, r.2.1, r.2.2)

/-! ## The call -/

/-- The points that are in the buffer of waveform `i` when all copies have
succeeded. -/
def kernelWv (w : World) (waves : Nat → WvDesc) (i : Nat) : CvorgWv :=
  let from' := ((w.mem (.form i)).wave i).form
  { recurr := (waves i).recurr
    size := (waves i).size
    dynamicGain := (waves i).dynamicGain
    gainVal := (waves i).gainVal
    form := ((w.mem (.data i)).points from' (waves i).size).toList
    full := Vector.length_toList }

def kernelSeq (w : World) (nr : U32) (nWaves : Nat) (waves : Nat → WvDesc) :
    CvorgSeq :=
  { nr, waves := (List.range nWaves).map (kernelWv w waves) }

def CVORG_CTL : Nat := 0x024
def CVORG_CTL_CHAN_STOP : U32 := 1 <<< 5
def CVORG_CTL_CHAN_LOADSEQ : U32 := 1 <<< 8
def CVORG_CONFIG : Nat := 0x044
def CVORG_CONFIG_MODE : U32 := 0xf
def CVORG_CONFIG_MODE_NORMAL : U32 := 0x1
def CVORG_CONFIG_SEQREADY : U32 := 1 <<< 4

def cvorgQuiesceChannel (channel : Channel) : Channel :=
  (channel.achan CVORG_CONFIG (~~~CVORG_CONFIG_SEQREADY)).wchan CVORG_CTL
    CVORG_CTL_CHAN_STOP

def playWv (channel : Channel) : Channel :=
  (channel.uchan CVORG_CONFIG
      (CVORG_CONFIG_MODE_NORMAL ||| CVORG_CONFIG_SEQREADY)
      CVORG_CONFIG_MODE).wchan CVORG_CTL CVORG_CTL_CHAN_LOADSEQ

/-- `__cvorg_loadseq()`. -/
def loadSeq (status : Fin 10 → U32) (channel : Channel) (seq : CvorgSeq) :
    Int × Channel × CvorgSeq :=
  let r := cvorgStoreseq status (cvorgQuiesceChannel channel) seq
  if r.1 ≠ 0 then (-1, r.2) else (0, playWv r.2.1, r.2.2)

def CVORG_STATUS_READY : U32 := 1 <<< 0
def CVORG_STATUS_BUSY : U32 := 1 <<< 2
def CVORG_STATUS_ERR : U32 := 1 <<< 4
def CVORG_STATUS_CLKOK : U32 := 1 <<< 8

def cvorgChannelReady (status : U32) : Bool :=
  status &&& CVORG_STATUS_READY ≠ 0 ∧ status &&& CVORG_STATUS_BUSY = 0 ∧
    status &&& CVORG_STATUS_ERR = 0 ∧ status &&& CVORG_STATUS_CLKOK ≠ 0

/-- `seq_user_writeback()`: only gains that may have been rounded are written
back. -/
def seqUserWriteback (w : World) (seq : CvorgSeq) : Int :=
  if (List.range seq.nWaves).all fun i =>
      seq.read i .dynamicGain = 0 || w.writeback i
    then 0 else -EFAULT

/-- What a call leaves behind: `written` is the sequence that the module was
given, if it was given one. -/
structure LoadResult where
  ret : Int
  channel : Channel
  written : Option CvorgSeq
  books : Ledger Nat

/-- The fields of the user's descriptors as validation reads them. -/
def userRead (w : World) (i : Nat) (c : Check) : U32 :=
  ((w.mem (.check i c)).wave i).read c

def cvorgChanLoadseq (w : World) (set : Settings) (channel : Channel)
    (user : UserSeq) : LoadResult :=
  let n := user.nWaves.toNat
  if !cvorgChannelReady w.ready then
    { ret := -EBUSY, channel, written := none, books := {} }
  else
    let ret :=
      cvorgInvalidSeq wrappedBytes set user.nr n (user.waves ≠ 0) (userRead w)
    if ret ≠ 0 then
      { ret, channel, written := none, books := {} }
    else
      let r := seqInit w n {}
      if r.1 ≠ 0 then
        { ret := -1, channel, written := none, books := r.2.2 }
      else
        let waves := r.2.1
        let stored := loadSeq w.status channel (kernelSeq w user.nr n waves)
        let books := freeSeq n w.array waves r.2.2
        if stored.1 ≠ 0 then
          { ret := -1, channel := stored.2.1, written := none, books }
        else
          let ret := if seqUserWriteback w stored.2.2 ≠ 0 then -1 else 0
          { ret, channel := stored.2.1, written := some stored.2.2, books }

/-!
## The least number of points at a sampling frequency

`cvorg_freqlimit_check()` interpolates between the pairs of a table. The search
for the range asks for a first pair *above* the frequency, so what it finds is
the range behind the one that is meant, and the line of that range is followed
below its first pair, under zero in many cases. Where no pair is above the
frequency the cases out of range apply, and the last range is the right one;
so is the first one at 0 MHz. `cvorgFreqlimitCheck_interpolates` says that the
check is what it is meant to be there and nowhere else.
-/

/-! ### The limit that is meant -/

/-- The frequency in MHz, rounded up, at most 100. -/
def mhzOf (hz : U32) : Nat := min ((hz.toNat + 999999) / 1000000) 100

/-- The range that contains a frequency, from its first pair to before its
second: all pairs but the first and the last may begin a range further on. -/
def rangeOf (mhz : Nat) : Nat :=
  ((List.range (CVORG_NR_FREQLIMITS - 2)).filter fun i =>
    (freqlimit (i + 1)).freq.toNat ≤ mhz).length

/-- The line through the pairs of a range, with an integer slope. -/
def lineOf (i mhz : Nat) : Int :=
  let x1 : Int := (freqlimit i).freq.toNat
  let y1 : Int := (freqlimit i).len.toNat
  let x2 : Int := (freqlimit (i + 1)).freq.toNat
  let y2 : Int := (freqlimit (i + 1)).len.toNat
  (y2 - y1) / (x2 - x1) * (mhz - x1) + y1

def minimumOf (hz : U32) : Int := lineOf (rangeOf (mhzOf hz)) (mhzOf hz)

theorem rangeOf_contains : ∀ mhz ≤ 100,
    rangeOf mhz + 1 < CVORG_NR_FREQLIMITS ∧
      (mhz ≠ 0 → (freqlimit (rangeOf mhz)).freq.toNat ≤ mhz) ∧
      (mhz ≠ 100 → mhz < (freqlimit (rangeOf mhz + 1)).freq.toNat) := by
  decide

def accepts (hz length : U32) : Prop :=
  cvorgFreqlimitCheck length.toNat hz = false

/-- What is expected of the check at a frequency. -/
def Interpolates (hz : U32) : Prop :=
  ∀ length : U32, accepts hz length ↔ minimumOf hz ≤ length.toNat

/-! ### The limit of the code -/

def codeMinimum (mhz : U32) : U32 :=
  let i := cvorgFreqlimitRange mhz
  let l1 := freqlimit i
  let l2 := freqlimit (i + 1)
  let m := (l2.len - l1.len) / (l2.freq - l1.freq)
  if m = 0 then l2.len else m * (mhz - l1.freq) + l1.len

section Limit

variable {hz hz' : U32}

theorem mhzOf_le : mhzOf hz ≤ 100 := Nat.min_le_right _ _

theorem mhzOf_eq (h : hz ≤ 100002000) :
    (let mhz := hz / 1000000 + (if hz % 1000000 ≠ 0 then 1 else 0)
     if mhz > 100 then 100 else mhz) = BitVec.ofNat 32 (mhzOf hz) := by
  have hle : hz.toNat ≤ 100002000 := by simpa [BitVec.le_def] using h
  have hdiv : (hz / 1000000).toNat = hz.toNat / 1000000 := BitVec.toNat_udiv
  have hmod : (hz % 1000000).toNat = hz.toNat % 1000000 := BitVec.toNat_umod
  have hrest : (if hz % 1000000 ≠ 0 then (1 : U32) else 0).toNat =
      if hz.toNat % 1000000 ≠ 0 then 1 else 0 := by
    rw [← hmod, apply_ite BitVec.toNat]
    simp [← BitVec.toNat_inj]
  have hsum : (hz / 1000000 + (if hz % 1000000 ≠ 0 then 1 else 0)).toNat =
      (hz.toNat + 999999) / 1000000 := by
    rw [BitVec.toNat_add, hdiv, hrest]
    split <;> omega
  have hcap : hz / 1000000 + (if hz % 1000000 ≠ 0 then 1 else 0) > 100 ↔
      (hz.toNat + 999999) / 1000000 > 100 := by
    rw [← hsum]
    exact BitVec.lt_def
  have h100 : (100 : U32).toNat = 100 := rfl
  apply BitVec.eq_of_toNat_eq
  rw [BitVec.toNat_ofNat, mhzOf]
  dsimp only
  by_cases hgt : (hz.toNat + 999999) / 1000000 > 100
  · rw [if_pos (hcap.mpr hgt), h100]
    omega
  · rw [if_neg (mt hcap.mp hgt), hsum]
    omega

theorem accepts_iff (h : hz ≤ 100002000) (length : U32) :
    accepts hz length ↔
      (codeMinimum (BitVec.ofNat 32 (mhzOf hz))).toNat ≤ length.toNat := by
  have hcheck : cvorgFreqlimitCheck length.toNat hz =
      decide (length.toNat <
        (codeMinimum (BitVec.ofNat 32 (mhzOf hz))).toNat) := by
    rw [← mhzOf_eq h]
    unfold cvorgFreqlimitCheck
    rw [if_neg (by simpa using h)]
    rfl
  rw [accepts, hcheck, decide_eq_false_iff_not, Nat.not_lt]

theorem codeMinimum_iff : ∀ mhz ≤ 100,
    ((codeMinimum (BitVec.ofNat 32 mhz)).toNat : Int) =
        lineOf (rangeOf mhz) mhz ↔
      mhz = 0 ∨ 80 ≤ mhz := by
  decide

theorem lineOf_bounds : ∀ mhz ≤ 100,
    0 ≤ lineOf (rangeOf mhz) mhz ∧ lineOf (rangeOf mhz) mhz < 2 ^ 32 := by
  decide

theorem lineOf_step : ∀ mhz < 100,
    lineOf (rangeOf mhz) mhz ≤ lineOf (rangeOf (mhz + 1)) (mhz + 1) := by
  decide

theorem lineOf_mono {mhz mhz' : Nat} (hle : mhz ≤ mhz') (hmax : mhz' ≤ 100) :
    lineOf (rangeOf mhz) mhz ≤ lineOf (rangeOf mhz') mhz' := by
  induction mhz', hle using Nat.le_induction with
  | base => exact Int.le_refl _
  | succ n _ ih => exact Int.le_trans (ih (by omega)) (lineOf_step n (by omega))

theorem minimumOf_mono (h : hz ≤ hz') : minimumOf hz ≤ minimumOf hz' := by
  have hmhz : mhzOf hz ≤ mhzOf hz' := by
    have hle : hz.toNat ≤ hz'.toNat := h
    unfold mhzOf
    omega
  exact lineOf_mono hmhz mhzOf_le

theorem interpolates_iff_eq (h : hz ≤ 100002000) :
    Interpolates hz ↔
      ((codeMinimum (BitVec.ofNat 32 (mhzOf hz))).toNat : Int) =
        minimumOf hz := by
  constructor
  · intro hall
    obtain ⟨hlo, hhi⟩ := lineOf_bounds (mhzOf hz) mhzOf_le
    have hmin : minimumOf hz = lineOf (rangeOf (mhzOf hz)) (mhzOf hz) := rfl
    have hcode := (hall (codeMinimum (BitVec.ofNat 32 (mhzOf hz)))).mp
      ((accepts_iff h _).mpr (Nat.le_refl _))
    have hlen : (BitVec.ofNat 32 (minimumOf hz).toNat).toNat =
        (minimumOf hz).toNat := by
      rw [BitVec.toNat_ofNat]
      omega
    have hmeant := (accepts_iff h _).mp
      ((hall (BitVec.ofNat 32 (minimumOf hz).toNat)).mpr (by omega))
    omega
  · intro heq length
    rw [accepts_iff h, ← heq, Int.ofNat_le]

theorem interpolates_iff (h : hz ≤ 100002000) :
    Interpolates hz ↔ hz = 0 ∨ 79000000 < hz := by
  rw [interpolates_iff_eq h, minimumOf, codeMinimum_iff _ mhzOf_le]
  have hzero : hz = 0 ↔ hz.toNat = 0 := by
    rw [← BitVec.toNat_inj]
    rfl
  have hlt : 79000000 < hz ↔ 79000000 < hz.toNat := BitVec.lt_def
  rw [hzero, hlt]
  unfold mhzOf
  omega

/-- For two frequencies, of which the first is not above the second: the check
is the interpolation at both, with what follows for the two, if and only if
each of them is 0 or in the last range. -/
theorem cvorgFreqlimitCheck_interpolates (hz hz' : U32) (hle : hz ≤ hz')
    (hmax : hz' ≤ 100002000) :
    (Interpolates hz ∧ Interpolates hz' ∧ minimumOf hz ≤ minimumOf hz' ∧
        ∀ length, accepts hz' length → accepts hz length) ↔
      (hz = 0 ∨ 79000000 < hz) ∧ (hz' = 0 ∨ 79000000 < hz') := by
  have hmax0 : hz ≤ 100002000 := BitVec.le_trans hle hmax
  rw [← interpolates_iff hmax, ← interpolates_iff hmax0]
  constructor
  · intro h
    exact ⟨h.1, h.2.1⟩
  · intro h
    refine ⟨h.1, h.2, minimumOf_mono hle, ?_⟩
    intro length hacc
    rw [h.1 length]
    exact Int.le_trans (minimumOf_mono hle) ((h.2 length).mp hacc)

/-- 80 MHz and 100 MHz, where 9300 and 23200 points are needed. -/
theorem cvorgFreqlimitCheck_interpolates_high :
    (80000000 : U32) ≤ 100000000 ∧ (100000000 : U32) ≤ 100002000 ∧
      ∀ length, accepts 100000000 length → accepts 80000000 length :=
  ⟨by decide, by decide,
    ((cvorgFreqlimitCheck_interpolates 80000000 100000000 (by decide)
      (by decide)).mpr ⟨.inr (by decide), .inr (by decide)⟩).2.2.2⟩

/-- At 50 MHz, where the table has 3300 points, 2400 are enough. -/
theorem cvorgFreqlimitCheck_50MHz : ¬∀ hz ≤ 100002000, Interpolates hz := by
  intro h
  have hacc := (h 50000000 (by decide) 2400).mp (by unfold accepts; decide)
  revert hacc
  decide

end Limit

end Coht.Cvorg
