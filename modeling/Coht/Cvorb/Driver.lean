import Coht.Lib.Buffers
import Mathlib.Data.BitVec
import Mathlib.Algebra.Order.Floor.Ring
import Mathlib.Data.Rat.Floor

/-!
# Functions of the CVORB module: the driver (`cvorb_func.c`)

A function is a table of 16-bit words in a slot of the SRAM: a header of three
words (the number of vectors, one that is not used, the initial amplitude), three
words a vector (number of steps, step size, amplitude) and a footer. The driver
moves it by 32-bit words; `word` and `half` are the two views of a buffer on a
little-endian host.

`Outcomes` holds what comes from outside during one call: whether allocations and
user copies succeed, whether the module is busy with its SRAM, and what the
kernel stack and the page of the sysfs file hold from before. `cvorb_sysfs_set_fcn()`
leaves the size of the function in its `struct cvorb_hw_fcn` uninitialised, so that
it writes as many words as `stray` says.

Buffers for functions are counted in 16-bit words, the SRAM of a submodule in
32-bit words. What lies past the end of the SRAM is not documented; here the
addresses go on.
-/

namespace Coht.Cvorb

open Coht.Lib

def CVORB_MAX_VECTOR : Nat := 680
def CVORB_FCT_HEADER_SZ : Nat := 3
def CVORB_VCT_SZ : Nat := 3
def CVORB_FOOTER_SZ : Nat := 6
def CVORB_SUBMODULE_SRAM_CHAN_SHIFT : Nat := 18
def CVORB_SUBMODULE_SRAM_FUNC_SHIFT : Nat := 12
def PAGE_SIZE : Nat := 4096

def EAGAIN : Int := 11
def ENOMEM : Int := 12
def EFAULT : Int := 14
def EBADSLT : Int := 57

/-- The caller's tables, the buffer of the library, the page of the sysfs file, the
driver's buffer, and the SRAM of a submodule. -/
inductive Buffer
  | value | buff | fcn | page | hwFcn
  | sram (submodulenr : Nat)
  deriving DecidableEq

/-- The 16-bit words of a buffer. -/
abbrev Halves := Nat → BitVec 16

/-- The SRAM of each submodule. -/
abbrev Sram := Nat → Nat → BitVec 32

/-- The 32-bit word `i` of a buffer. -/
def word (hwFcn : Halves) (i : Nat) : BitVec 32 := hwFcn (2 * i + 1) ++ hwFcn (2 * i)

/-- The lower or the upper half of a word. -/
def half (x : BitVec 32) (j : Nat) : BitVec 16 :=
  if j % 2 = 0 then x.setWidth 16 else (x >>> 16).setWidth 16

/-- `struct cvorb_hw_fcn` but for the pointer -/
structure CvorbHwFcn where
  submodulenr : BitVec 16
  channr : BitVec 16
  fcnnr : BitVec 16
  nVector : BitVec 16
  hwFcnSize32 : BitVec 16
  deriving DecidableEq

structure Outcomes where
  /-- `calloc()` in the library -/
  memory : Bool := true
  opened : Bool := true
  closed : Bool := true
  /-- `copy_from_user()` of the `struct cvorb_hw_fcn` -/
  argCopied : Bool := true
  /-- `kzalloc()` -/
  kernelMemory : Bool := true
  /-- the copy of the function from or to user space -/
  fcnCopied : Bool := true
  /-- `copy_to_user()` of the `struct cvorb_hw_fcn` -/
  argReturned : Bool := true
  busy : Bool := false
  stray : BitVec 16 := 0
  page : Halves := fun _ => 0

variable (o : Outcomes) (sram : Sram)

/-- `ramaddr`, in 32-bit words -/
def CvorbHwFcn.ramaddr (fcn : CvorbHwFcn) : Nat :=
  (fcn.channr.setWidth 32 <<< CVORB_SUBMODULE_SRAM_CHAN_SHIFT |||
    fcn.fcnnr.setWidth 32 <<< CVORB_SUBMODULE_SRAM_FUNC_SHIFT).toNat / 4

/-! ## Storing -/

/-- Writes the words of a buffer from `i` on to the SRAM. -/
def writeWords (submodulenr addr : Nat) (source : Buffer) (hwFcn : Halves) :
    Nat → Nat → Sram → Traced Buffer Sram
  | _, 0, sram => pure sram
  | i, n + 1, sram => do
      .touch source (2 * i)
      .touch source (2 * i + 1)
      .touch (.sram submodulenr) (addr + i)
      writeWords submodulenr addr source hwFcn (i + 1) n
        (Function.update sram submodulenr
          (Function.update (sram submodulenr) (addr + i) (word hwFcn i)))

/-- The critical section of `__cvorb_set_fcn()` -/
def storeFcn (fcn : CvorbHwFcn) (source : Buffer) (hwFcn : Halves) :
    Traced Buffer (Int × Sram) :=
  if o.busy then pure (-EAGAIN, sram)
  else do
    let sram ← writeWords fcn.submodulenr.toNat fcn.ramaddr source hwFcn 0
      fcn.hwFcnSize32.toNat sram
    pure (0, sram)

/-- `__cvorb_set_fcn()`; the function is in the library's buffer or, without ioctl, in
the page. -/
def cvorbSetFcn (isIoctl : Bool) (fcn : CvorbHwFcn) (hwFcn : Halves) :
    Traced Buffer (Int × Sram) :=
  let size := 2 * fcn.hwFcnSize32.toNat
  if !isIoctl then storeFcn o sram fcn .page hwFcn
  else if !o.kernelMemory then pure (-ENOMEM, sram)
  else
    .withBuffer .hwFcn size do
      .touchMany .fcn 0 size
      .touchMany .hwFcn 0 size
      if !o.fcnCopied then pure (-EFAULT, sram)
      else storeFcn o sram fcn .hwFcn hwFcn

def cvorbIoctlSetFcn (fcn : CvorbHwFcn) (user : Halves) : Traced Buffer (Int × Sram) :=
  if !o.argCopied then pure (-EFAULT, sram) else cvorbSetFcn o sram true fcn user

/-- `write()` to the attribute of a function: what fits in the page is copied there,
and `cvorb_sysfs_set_fcn()` is called. -/
def cvorbSysfsSetFcn (fcn : CvorbHwFcn) (user : Halves) (sz32 : Nat) :
    Traced Buffer (Int × Sram) :=
  let count := min (2 * sz32) (PAGE_SIZE / 2)
  .withBuffer .page (PAGE_SIZE / 2) do
    .touchMany .fcn 0 count
    .touchMany .page 0 count
    if !o.fcnCopied then pure (-EFAULT, sram)
    else
      cvorbSetFcn o sram false { fcn with hwFcnSize32 := o.stray }
        fun j => if j < count then user j else o.page j

/-! ## Loading -/

/-- Reads words of the SRAM to a buffer from its word `i` on. -/
def readWords (submodulenr addr : Nat) (target : Buffer) :
    Nat → Nat → Halves → Traced Buffer Halves
  | _, 0, hwFcn => pure hwFcn
  | i, n + 1, hwFcn => do
      .touch (.sram submodulenr) (addr + i)
      .touch target (2 * i)
      .touch target (2 * i + 1)
      let x := sram submodulenr (addr + i)
      readWords submodulenr addr target (i + 1) n
        (Function.update (Function.update hwFcn (2 * i) (half x 0)) (2 * i + 1) (half x 1))

/-- `sz16`, the size of a function with `n` vectors in 16-bit words -/
def sz16 (n : Nat) : Nat :=
  let sz16 := CVORB_FCT_HEADER_SZ + n * CVORB_VCT_SZ
  (if sz16 % 2 = 1 then sz16 + 1 else sz16) + CVORB_FOOTER_SZ

/-- `hw_fcn_sz32` -/
def hwFcnSz32 (n : Nat) : Nat := sz16 n / 2

/-- The number of vectors that is found in the slot. -/
def CvorbHwFcn.hwNVector (fcn : CvorbHwFcn) (sram : Sram) : Nat :=
  (sram fcn.submodulenr.toNat fcn.ramaddr).toNat

/-- `hw_n_vector <= 0 || hw_n_vector >= CVORB_MAX_VECTOR` -/
def badSlot (n : Nat) : Bool := n = 0 || CVORB_MAX_VECTOR ≤ n

/-- The function of the slot is copied to a buffer: `hw_fcn[0]`, then the words from 1
to `hw_fcn_sz32`, that one included. -/
def fetch (fcn : CvorbHwFcn) (target : Buffer) (hwFcn : Halves) : Traced Buffer Halves := do
  let x := sram fcn.submodulenr.toNat fcn.ramaddr
  .touch target 0
  .touch target 1
  readWords sram fcn.submodulenr.toNat fcn.ramaddr target 1 (hwFcnSz32 (fcn.hwNVector sram))
    (Function.update (Function.update hwFcn 0 (half x 0)) 1 (half x 1))

/-- `__cvorb_get_fcn()`: what it returns, `n_vector` of the `struct cvorb_hw_fcn`, and the
function in the library's buffer or, without ioctl, in the page. A copy that fails leaves
the driver's buffer behind. -/
def cvorbGetFcn (isIoctl : Bool) (fcn : CvorbHwFcn) (user : Halves) :
    Traced Buffer (Int × BitVec 16 × Halves) :=
  if o.busy then pure (-EAGAIN, fcn.nVector, user)
  else do
    .touch (.sram fcn.submodulenr.toNat) fcn.ramaddr
    let n := fcn.hwNVector sram
    let size := 2 * hwFcnSz32 n
    if badSlot n then pure (-EBADSLT, fcn.nVector, user)
    else if !isIoctl then do
      let hwFcn ← fetch sram fcn .page user
      pure (0, BitVec.ofNat 16 n, hwFcn)
    else if !o.kernelMemory then pure (-ENOMEM, fcn.nVector, user)
    else do
      .alloc .hwFcn size
      let hwFcn ← fetch sram fcn .hwFcn fun _ => 0
      .touchMany .hwFcn 0 size
      if o.memory && o.fcnCopied then do
        .touchMany .fcn 0 size
        .free .hwFcn
        pure (0, BitVec.ofNat 16 n, fun j => if j < size then hwFcn j else user j)
      else pure (-EFAULT, BitVec.ofNat 16 n, user)

def cvorbIoctlGetFcn (fcn : CvorbHwFcn) (user : Halves) :
    Traced Buffer (Int × BitVec 16 × Halves) :=
  if !o.argCopied then pure (-EFAULT, fcn.nVector, user)
  else do
    let (ret, nVector, user) ← cvorbGetFcn o sram true fcn user
    if !o.argReturned then pure (-EFAULT, fcn.nVector, user) else pure (ret, nVector, user)

/-- `read()` of the attribute of a function: `cvorb_sysfs_get_fcn()` fills the page, and what
it counts is copied to the caller. -/
def cvorbSysfsGetFcn (fcn : CvorbHwFcn) (user : Halves) : Traced Buffer (Int × Halves) :=
  .withBuffer .page (PAGE_SIZE / 2) do
    let (ret, _, hwFcn) ← cvorbGetFcn o sram false fcn o.page
    let count := 2 * hwFcnSz32 (fcn.hwNVector sram)
    if ret ≠ 0 then pure (ret, user)
    else do
      .touchMany .page 0 count
      if o.memory && o.fcnCopied then do
        .touchMany .fcn 0 count
        pure (0, fun j => if j < count then hwFcn j else user j)
      else pure (-EFAULT, user)

end Coht.Cvorb

/-!
## Functions of the CVORB module: the library (`cvorb.c`)

`cvorb_ch_set_fcn()` makes the table of the hardware from a table of times and
amplitudes and gives it to the driver, by ioctl or through the sysfs file of the
function; `cvorb_ch_get_fcn()` reads the slot and goes back. Times are rational
numbers here, in ms as in the code.
-/

namespace Coht.Cvorb

open Coht.Lib

def CVORB_MAX_CH_NR : Nat := 16
def CVORB_MAX_FCT_NR : Nat := 64
def CVORB_MIN_STEP_SIZE : Nat := 5
def CVORB_MAX_STEPS : Nat := 2 ^ 16 - 1
def CVORB_MAX_STEP_SIZE : Nat := 2 ^ 15 - 1
def CVORB_MAX_TIME_MIN_STEP : Nat := CVORB_MAX_STEPS * CVORB_MIN_STEP_SIZE

def ENOBUFS : Int := 105

structure CvorbVectorFcn where
  t : ℚ := 0
  v : BitVec 16 := 0
  deriving DecidableEq

inductive Transport
  | sysfs | ioctl
  deriving DecidableEq

/-- `max_vector_time`, in us -/
def maxVectorTime : Nat := CVORB_MAX_STEPS * CVORB_MAX_STEP_SIZE * CVORB_MIN_STEP_SIZE

/-- Number of steps and step size; `none` is -1. -/
def computeHwVector (startPt endPt : CvorbVectorFcn) : Option (BitVec 16 × BitVec 16) :=
  if endPt.t = 0 then some (0, -1)
  else if endPt.t ≤ startPt.t then none
  else
    let lldt := (endPt.t - startPt.t) * 1000
    if maxVectorTime < lldt then none
    else
      let lldtInt := CVORB_MIN_STEP_SIZE * ⌊lldt / CVORB_MIN_STEP_SIZE + 1 / 2⌋.toNat
      -- unsigned: an interval that is rounded to 0 wraps
      let ss := BitVec.ofNat 16 ((lldtInt + (2 ^ 64 - 1)) % 2 ^ 64 / CVORB_MAX_TIME_MIN_STEP + 1)
      let lldtInt := lldtInt - lldtInt % (ss.toNat * CVORB_MIN_STEP_SIZE)
      some (BitVec.ofNat 16 (lldtInt / (ss.toNat * CVORB_MIN_STEP_SIZE)), ss)

/-- The size of a function in 32-bit words; 0 vectors stand for the maximum. -/
def getHwFcnSize32 (nVector : Nat) : Nat :=
  let nVect := if nVector = 0 then CVORB_MAX_VECTOR else nVector
  let sz := (CVORB_FCT_HEADER_SZ + nVect * CVORB_VCT_SZ) % 2 ^ 32
  let sz := if sz % 2 = 1 then (sz + 1) % 2 ^ 32 else sz
  (sz + CVORB_FOOTER_SZ) % 2 ^ 32 / 2

/-- `WITHIN_RANGE(1, chnr, CVORB_MAX_CH_NR)` and the same for `fcnnr` -/
def withinRange (chnr fcnnr : Nat) : Bool :=
  1 ≤ chnr && chnr ≤ CVORB_MAX_CH_NR && 1 ≤ fcnnr && fcnnr ≤ CVORB_MAX_FCT_NR

/-- The fields of `fcn` that say which function is meant. -/
def hwFcn (chnr fcnnr : Nat) (nVtr sz32 : Nat) : CvorbHwFcn where
  submodulenr := if 8 < chnr then 1 else 0
  channr := BitVec.ofNat 16 (if 8 < chnr then chnr - 9 else chnr - 1)
  fcnnr := BitVec.ofNat 16 (fcnnr - 1)
  nVector := BitVec.ofNat 16 nVtr
  hwFcnSize32 := BitVec.ofNat 16 sz32

/-- Three consecutive words of a buffer. -/
def put (hwFcn : Halves) (vp : Nat) (x y z : BitVec 16) : Halves :=
  Function.update (Function.update (Function.update hwFcn vp x) (vp + 1) y) (vp + 2) z

/-- The loop over the vectors from `i` on; `none` where the table is illegal. -/
def fillVectors (value : Nat → CvorbVectorFcn) :
    Nat → Nat → Halves → Traced Buffer (Option Halves)
  | _, 0, hwFcn => pure (some hwFcn)
  | i, n + 1, hwFcn => do
      .touch .value i
      .touchMany .value (i - 1) (if (value i).t = 0 then 0 else 1)
      match computeHwVector (value (i - 1)) (value i) with
      | none => pure none
      | some (nos, ss) => do
          .touchMany .fcn (3 * i) 3
          fillVectors value (i + 1) n (put hwFcn (3 * i) nos ss (value i).v)

/-- What `calloc()` gives, for the time of a call; a null pointer if it fails. -/
def withFcn {α : Type} (o : Outcomes) (sz32 : Nat) (x : Traced Buffer α) : Traced Buffer α :=
  if o.memory then .withBuffer .fcn (2 * sz32) x else x

/-- `cvorbdev_set_attr_bin()` and the test of what it returns -/
def setAttrBin (o : Outcomes) (sram : Sram) (fcn : CvorbHwFcn) (user : Halves) (sz32 : Nat) :
    Traced Buffer (Int × Sram) :=
  if !o.opened then pure (-1, sram)
  else do
    let (ret, sram) ← cvorbSysfsSetFcn o sram fcn user sz32
    pure (if ret ≠ 0 ∨ o.closed = false then -1 else 0, sram)

/-- `call the driver`: what it returns, as -1 or 0, and the SRAM. -/
def storeBy (transport : Transport) (o : Outcomes) (sram : Sram) (fcn : CvorbHwFcn)
    (user : Halves) (sz32 : Nat) : Traced Buffer (Int × Sram) :=
  match transport with
  | .sysfs => setAttrBin o sram fcn user sz32
  | .ioctl => do
      let (ret, sram) ← cvorbIoctlSetFcn o sram fcn user
      pure (if ret ≠ 0 then -1 else 0, sram)

def cvorbChSetFcn (transport : Transport) (o : Outcomes) (sram : Sram) (chnr fcnnr : Nat)
    (value : Nat → CvorbVectorFcn) (nVector : BitVec 32) : Traced Buffer (Int × Sram) :=
  let nVtr := (nVector - 1).toNat
  let sz32 := getHwFcnSize32 nVtr
  let fcn := hwFcn chnr fcnnr nVtr sz32
  if !withinRange chnr fcnnr || CVORB_MAX_VECTOR < nVector.toNat then pure (-1, sram)
  else withFcn o sz32 do
    .touchMany .fcn 0 3
    .touch .value 0
    match ← fillVectors value 1 nVtr (put (fun _ => 0) 0 (BitVec.ofNat 16 nVtr) 0 (value 0).v) with
    | none => pure (-1, sram)
    | some user => storeBy transport o sram fcn user sz32

/-- `cvorbdev_get_attr_bin()`; `none` is -1. -/
def getAttrBin (o : Outcomes) (sram : Sram) (fcn : CvorbHwFcn) (user : Halves) :
    Traced Buffer (Option Halves) :=
  if !o.opened then pure none
  else do
    let (ret, user) ← cvorbSysfsGetFcn o sram fcn user
    pure (if ret ≠ 0 ∨ o.closed = false then none else some user)

/-- `vp[0] * vp[1] * CVORB_MIN_STEP_SIZE`: an int, which wraps -/
def vectorTime (nos ss : BitVec 16) : Int :=
  (nos.setWidth 32 * ss.setWidth 32 * BitVec.ofNat 32 CVORB_MIN_STEP_SIZE).toInt

/-- The loop that converts the vectors from `i` on. -/
def convertVectors (hwFcn : Halves) :
    Nat → Nat → (Nat → CvorbVectorFcn) → Traced Buffer (Nat → CvorbVectorFcn)
  | _, 0, buff => pure buff
  | i, n + 1, buff => do
      .touch .fcn (3 * i + 1)
      let t := if hwFcn (3 * i + 1) = -1 then 0
        else (vectorTime (hwFcn (3 * i)) (hwFcn (3 * i + 1)) : ℚ) / 1000 + (buff (i - 1)).t
      .touchMany .fcn (3 * i) (if hwFcn (3 * i + 1) = -1 then 0 else 2)
      .touchMany .buff (i - 1) (if hwFcn (3 * i + 1) = -1 then 0 else 1)
      .touch .fcn (3 * i + 2)
      .touch .buff i
      convertVectors hwFcn (i + 1) n
        (Function.update buff i { t := t, v := hwFcn (3 * i + 2) })

/-- What the driver returns in the buffer: the number of vectors and the words. -/
def loadBy (transport : Transport) (o : Outcomes) (sram : Sram) (fcn : CvorbHwFcn) :
    Traced Buffer (Option (BitVec 16 × Halves)) :=
  match transport with
  | .sysfs => do
      match ← getAttrBin o sram fcn fun _ => 0 with
      | none => pure none
      | some user => do
          .touchMany .fcn 0 2
          pure (some ((word user 0).setWidth 16, user))
  | .ioctl => do
      let (ret, nVector, user) ← cvorbIoctlGetFcn o sram fcn fun _ => 0
      pure (if ret ≠ 0 then none else some (nVector, user))

/-- What follows on the driver: the test of the caller's room, and the conversion. -/
def giveTable (buff : Nat → CvorbVectorFcn) (nVector : BitVec 32) :
    Option (BitVec 16 × Halves) → Traced Buffer (Except Int (Nat × (Nat → CvorbVectorFcn)))
  | none => pure (.error (-1))
  | some (n, user) =>
    if nVector.toNat < n.toNat then pure (.error (-ENOBUFS))
    else do
      .touch .buff 0
      .touch .fcn 2
      let buff ← convertVectors user 1 n.toNat
        (Function.update buff 0 { t := 0, v := user 2 })
      pure (.ok (n.toNat + 1, buff))

/-- Returns `fcn_sz` and the caller's buffer, or the error. -/
def cvorbChGetFcn (transport : Transport) (o : Outcomes) (sram : Sram) (chnr fcnnr : Nat)
    (buff : Nat → CvorbVectorFcn) (nVector : BitVec 32) :
    Traced Buffer (Except Int (Nat × (Nat → CvorbVectorFcn))) :=
  let nVtr := (nVector - 1).toNat
  let sz32 := getHwFcnSize32 0
  if !withinRange chnr fcnnr then pure (.error (-1))
  else withFcn o sz32 do
    giveTable buff nVector (← loadBy transport o sram (hwFcn chnr fcnnr nVtr sz32))

end Coht.Cvorb
