import Mathlib.Logic.Function.Basic
import Mathlib.Algebra.Group.Nat.Defs
import Mathlib.Data.List.Basic

/-!
# A channel of the arbitrary waveform generator (`cvorg_hw.h`, `cvorg_priv.h`)

A channel is its window of 32-bit registers and the SRAM behind the pair
`CVORG_SRAMADDR` and `CVORG_SRAMDATA`: a byte address is written into the
first, and every write to the second stores one 32-bit entry and moves the
address on to the next. `written` is no register; it lists the entries that
were stored, so that statements can say which words a function touched.

An entry is kept as the driver passes it to `cvorg_wchan_noswap()`, which is
also what `cvorg_rchan_noswap()` gives back. The module plays the two points
of an entry in the order in which `cvorg_hw_to_cpu()` takes them out.
-/

namespace Coht.Cvorg

abbrev U16 := BitVec 16

abbrev U32 := BitVec 32

def EAGAIN : Int := 11
def ENOMEM : Int := 12
def EFAULT : Int := 14
def EBUSY : Int := 16
def EINVAL : Int := 22

def CVORG_SRAM_SIZE : Nat := 0x200000
def CVORG_SRAMADDR : Nat := 0x04c
def CVORG_SEQNR : Nat := 0x058
def CVORG_STATUS_SRAM_BUSY : U32 := 1 <<< 3
def CVORG_MAX_SEQUENCES : Nat := 26

def CVORG_BLKOFFSET : Nat := 0x60
def CVORG_BLKSIZE : Nat := 0x10
def CVORG_WFSTART : Nat := 0x00
def CVORG_WFSTART_MASK : U32 := 0x001fffff
def CVORG_WFLEN : Nat := 0x04
def CVORG_WFLEN_MASK : U32 := 0x000fffff
def CVORG_WFRECURR : Nat := 0x08
def CVORG_WFNEXTBLK : Nat := 0x0c
def CVORG_WFNEXTBLK_NEXT_MASK : U32 := 0x1f
def CVORG_WFNEXTBLK_LAST : U32 := 31
def CVORG_WFNEXTBLK_CONF_GAIN : U32 := 1 <<< 8
def CVORG_WFNEXTBLK_GAIN_SHIFT : Nat := 9
def CVORG_WFNEXTBLK_GAIN_MASK : U32 := 0x7 <<< 9

structure Channel where
  regs : Nat → U32
  sram : Nat → U32
  /-- the byte address in `CVORG_SRAMADDR` -/
  sramaddr : Nat
  written : List Nat

namespace Channel

variable {chan : Channel} {offset : Nat} {value mask : U32}

/-! ## Register access -/

def rchan (chan : Channel) (offset : Nat) : U32 := chan.regs offset

def wchan (chan : Channel) (offset : Nat) (value : U32) : Channel :=
  if offset = CVORG_SRAMADDR then
    { chan with sramaddr := value.toNat }
  else
    { chan with regs := Function.update chan.regs offset value }

def ochan (chan : Channel) (offset : Nat) (value : U32) : Channel :=
  chan.wchan offset (chan.rchan offset ||| value)

def achan (chan : Channel) (offset : Nat) (value : U32) : Channel :=
  chan.wchan offset (chan.rchan offset &&& value)

def uchan (chan : Channel) (offset : Nat) (value mask : U32) : Channel :=
  (chan.achan offset (~~~mask)).ochan offset value

/-- `cvorg_wchan_noswap()` on `CVORG_SRAMDATA`, the only register it is used
for. -/
def wchanNoswap (chan : Channel) (value : U32) : Channel :=
  { chan with
    sram := Function.update chan.sram (chan.sramaddr / 4) value
    sramaddr := chan.sramaddr + 4
    written := chan.written ++ [chan.sramaddr / 4] }

@[simp] theorem wchan_sram : (chan.wchan offset value).sram = chan.sram := by
  unfold wchan
  split <;> rfl

@[simp] theorem wchan_written :
    (chan.wchan offset value).written = chan.written := by
  unfold wchan
  split <;> rfl

theorem wchan_regs (h : offset ≠ CVORG_SRAMADDR) :
    (chan.wchan offset value).regs =
      Function.update chan.regs offset value := by
  rw [wchan, if_neg h]

theorem wchan_sramaddr :
    chan.wchan CVORG_SRAMADDR value = { chan with sramaddr := value.toNat } :=
  if_pos rfl

@[simp] theorem ochan_sram : (chan.ochan offset value).sram = chan.sram :=
  wchan_sram

@[simp] theorem ochan_written :
    (chan.ochan offset value).written = chan.written :=
  wchan_written

theorem ochan_regs (h : offset ≠ CVORG_SRAMADDR) :
    (chan.ochan offset value).regs =
      Function.update chan.regs offset (chan.regs offset ||| value) :=
  wchan_regs h

@[simp] theorem achan_sram : (chan.achan offset value).sram = chan.sram :=
  wchan_sram

@[simp] theorem achan_written :
    (chan.achan offset value).written = chan.written :=
  wchan_written

theorem achan_regs (h : offset ≠ CVORG_SRAMADDR) :
    (chan.achan offset value).regs =
      Function.update chan.regs offset (chan.regs offset &&& value) :=
  wchan_regs h

@[simp] theorem uchan_sram : (chan.uchan offset value mask).sram = chan.sram := by
  simp [uchan]

@[simp] theorem uchan_written :
    (chan.uchan offset value mask).written = chan.written := by
  simp [uchan]

theorem uchan_regs (h : offset ≠ CVORG_SRAMADDR) :
    (chan.uchan offset value mask).regs =
      Function.update chan.regs offset
        ((chan.regs offset &&& ~~~mask) ||| value) := by
  rw [uchan, ochan_regs h, achan_regs h, Function.update_self,
    Function.update_idem]

end Channel

/-! ## Waveform blocks -/

/-- The offset of a descriptor block; blocks are contiguous. -/
def blockOffset (blocknr : Nat) : Nat := CVORG_BLKOFFSET + CVORG_BLKSIZE * blocknr

def prevBlockOffset (blocknr : Nat) : Nat :=
  CVORG_BLKOFFSET + CVORG_BLKSIZE * (blocknr - 1)

theorem block_ne_sramaddr (b field : Nat) :
    blockOffset b + field ≠ CVORG_SRAMADDR := by
  unfold blockOffset CVORG_BLKOFFSET CVORG_SRAMADDR
  omega

theorem block_eq_iff {a b f g : Nat} (hf : f < CVORG_BLKSIZE)
    (hg : g < CVORG_BLKSIZE) :
    blockOffset a + f = blockOffset b + g ↔ a = b ∧ f = g := by
  unfold CVORG_BLKSIZE at hf hg
  unfold blockOffset CVORG_BLKOFFSET CVORG_BLKSIZE
  omega

/-! ## Points and entries -/

/-- `cpu_to_be16()` and `be16_to_cpu()` on a little endian machine. -/
def swap16 (x : U16) : U16 := x.extractLsb' 0 8 ++ x.extractLsb' 8 8

def cvorgCpuToHw (data0 data1 : U16) : U32 :=
  (swap16 data0).zeroExtend 32 <<< 16 ||| (swap16 data1).zeroExtend 32

def cvorgHwToCpu (hwval : U32) : U16 × U16 :=
  (swap16 ((hwval >>> 16).truncate 16), swap16 ((hwval &&& 0xffff).truncate 16))

def cvorgCpuToHwSingle (data0 : U16) : U32 :=
  (swap16 data0).zeroExtend 32 <<< 16

theorem swap16_swap16 (x : U16) : swap16 (swap16 x) = x := by
  unfold swap16
  ext i hi
  simp
  grind

theorem high_half (x y : U16) :
    ((x.zeroExtend 32 <<< 16 ||| y.zeroExtend 32) >>> 16).truncate 16 = x := by
  ext i hi
  have hout : ¬ 16 + i < 16 := by omega
  have hin : 16 + i < 32 := by omega
  have hin' : i < 32 := by omega
  simp [BitVec.getElem_setWidth, hi, hout, hin, hin']

theorem low_half (x y : U16) :
    ((x.zeroExtend 32 <<< 16 ||| y.zeroExtend 32) &&& 0xffff).truncate 16 =
      y := by
  have hmask : ∀ i : Fin 16, (0xffff : U32).getLsbD i = true := by decide
  ext i hi
  have hbit := hmask ⟨i, hi⟩
  simp only [BitVec.getElem_setWidth, BitVec.getLsbD_and, BitVec.getLsbD_or,
    BitVec.getLsbD_shiftLeft, BitVec.getLsbD_setWidth, hbit, hi,
    show i < 32 by omega]
  simp [BitVec.getLsbD_eq_getElem hi]

theorem cvorgHwToCpu_cpuToHw (a b : U16) :
    cvorgHwToCpu (cvorgCpuToHw a b) = (a, b) := by
  unfold cvorgHwToCpu cvorgCpuToHw
  rw [high_half, low_half, swap16_swap16, swap16_swap16]

theorem cvorgHwToCpu_single (a : U16) :
    (cvorgHwToCpu (cvorgCpuToHwSingle a)).1 = a := by
  have hzero : cvorgCpuToHwSingle a =
      (swap16 a).zeroExtend 32 <<< 16 ||| (0 : U16).zeroExtend 32 := by
    simp [cvorgCpuToHwSingle]
  unfold cvorgHwToCpu
  rw [hzero, high_half, swap16_swap16]

namespace Channel

variable (chan : Channel)

/-- The next-block field of a block. -/
def next (b : Nat) : U32 :=
  chan.rchan (blockOffset b + CVORG_WFNEXTBLK) &&& CVORG_WFNEXTBLK_NEXT_MASK

/-- The blocks that are played from block `b` on, up to the one whose
next-block field is the end marker. -/
inductive Plays : Nat → List Nat → Prop
  | last {b : Nat} : chan.next b = CVORG_WFNEXTBLK_LAST → Plays b [b]
  | more {b : Nat} {bs : List Nat} : chan.next b ≠ CVORG_WFNEXTBLK_LAST →
      Plays (chan.next b).toNat bs → Plays b (b :: bs)

/-- The point at a byte address of the SRAM. -/
def point (addr : Nat) : U16 :=
  let data := cvorgHwToCpu (chan.sram (addr / 4))
  if addr % 4 < 2 then data.1 else data.2

/-- What the module plays for block `b`: as many points as the length field
says, from the start address on. -/
def played (b : Nat) : List U16 :=
  let start := chan.rchan (blockOffset b + CVORG_WFSTART) &&& CVORG_WFSTART_MASK
  let len := chan.rchan (blockOffset b + CVORG_WFLEN) &&& CVORG_WFLEN_MASK
  (List.range len.toNat).map fun k => chan.point (start.toNat + 2 * k)

end Channel

end Coht.Cvorg
