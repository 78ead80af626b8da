import Coht.Lib.Staging

/-!
# Raw I/O of single items and of blocks (`skeldrvr.c`)

`RawIo()` makes one access to a register of a module. `RawIoBlock()` makes as
many as the caller's buffer has items, stepping through the module by
`AddrIncr` items, and moves the data through a kernel buffer of at most
`TRANSFERS` items.

Pointers and offsets are 32 bits wide and wrap. The module is the `answer` of
a `Bus`: what an access returns may depend on every access before it. The
user's buffer is a memory indexed from `Data` on, and every range of it that
the driver copies from or to is recorded in `copies`. `recoset()` returns zero
(cdcm assumes no bus errors), so the bus error branch of `RawIo()` is not
here, and a data width fits in an `int`.
-/

namespace Coht.Skel

open Coht.Lib

inductive InsLibEndian
  | notSet
  | big
  | little
deriving DecidableEq

structure InsLibAnyAddressSpace where
  mapped : BitVec 32
  spaceNumber : BitVec 32
  windowSize : BitVec 32
  dataWidth : BitVec 32
  endian : InsLibEndian

structure SkelDrvrRawIoBlock where
  spaceNumber : BitVec 32
  offset : BitVec 32
  dataWidth : BitVec 32
  data : BitVec 32

/-- `Data` is address 0 of the user memory. -/
structure SkelDrvrRawIoTransferBlock where
  spaceNumber : BitVec 32
  offset : BitVec 32
  dataWidth : BitVec 32
  addrIncr : BitVec 32
  bytesTr : BitVec 32

inductive RawError
  | enxio
  | einval
  | enomem
  /-- The division by the size of an item narrower than a byte. -/
  | divide
deriving DecidableEq

/-- `get_addr_space()`. A width of zero matches every space. -/
def getAddrSpace (spaces : List InsLibAnyAddressSpace)
    (spaceNumber dataWidth : BitVec 32) : Option InsLibAnyAddressSpace :=
  spaces.find? fun anyas =>
    anyas.spaceNumber = spaceNumber ∧
      (dataWidth = 0 ∨ anyas.dataWidth = dataWidth)

/-- A space of unknown size bounds no offset. -/
def InsLibAnyAddressSpace.outOfRange (anyas : InsLibAnyAddressSpace)
    (offset : BitVec 32) : Bool :=
  anyas.windowSize ≠ 0 ∧ anyas.windowSize ≤ offset

/-! ## Accesses to the module -/

/-- One access on the bus: `data` is what is written, `none` for a read. -/
structure Access where
  addr : BitVec 32
  width : Nat
  big : Bool
  data : Option (BitVec 32)
deriving DecidableEq

structure Bus where
  cpuBigEndian : Bool
  answer : List Access → Access → BitVec 32

def cdcmIowrite (width : Nat) (big : Bool) (v addr : BitVec 32) : Access :=
  ⟨addr, width, big, some ((v.setWidth width).setWidth 32)⟩

def cdcmIoread (width : Nat) (big : Bool) (addr : BitVec 32) : Access :=
  ⟨addr, width, big, none⟩

/-- What the read `a` returns after the accesses `past`. -/
def Bus.ioread (bus : Bus) (past : List Access) (a : Access) : BitVec 32 :=
  ((bus.answer past a).setWidth a.width).setWidth 32

/-- Byte `j` of an item of `size` bytes as the CPU stores it. -/
def Bus.itemByte (bus : Bus) (size : Nat) (v : BitVec 32) (j : Nat) :
    BitVec 8 :=
  (v >>> (8 * if bus.cpuBigEndian then size - 1 - j else j)).setWidth 8

/-- The item of `size` bytes the CPU loads from address `a`. -/
def Bus.loadItem (bus : Bus) (mem : Nat → BitVec 8) (a size : Nat) :
    BitVec 32 :=
  (List.range size).foldl
    (fun v j => v <<< 8 |||
      (mem (a + if bus.cpuBigEndian then j else size - 1 - j)).setWidth 32) 0

/-! ## Single items -/

def rawTransfer (bus : Bus) (past : List Access) (width : Nat) (big : Bool)
    (data mmap : BitVec 32) (flag : Bool) : Access × BitVec 32 :=
  if flag then (cdcmIowrite width big data mmap, data)
  else (cdcmIoread width big mmap,
    bus.ioread past (cdcmIoread width big mmap))

/-- `RawIo()`: the access it makes and `riob->Data` afterwards. -/
def rawIo (bus : Bus) (spaces : List InsLibAnyAddressSpace)
    (past : List Access) (riob : SkelDrvrRawIoBlock) (flag : Bool) :
    Except RawError (Access × BitVec 32) :=
  match getAddrSpace spaces riob.spaceNumber riob.dataWidth with
  | none => .error .enxio
  | some anyas =>
    if anyas.outOfRange riob.offset then .error .einval
    else
      let dataWidth :=
        if riob.dataWidth = 0 then anyas.dataWidth else riob.dataWidth
      let mmap := anyas.mapped + riob.offset
      let bendf := decide (anyas.endian = .big)
      match dataWidth.toNat with
      | 8 => .ok (rawTransfer bus past 8 false riob.data mmap flag)
      | 16 => .ok (rawTransfer bus past 16 bendf riob.data mmap flag)
      | 32 => .ok (rawTransfer bus past 32 bendf riob.data mmap flag)
      | _ => .error .einval

/-! ## Blocks -/

/-- The locals of `RawIoBlock()` that its loop does not change. -/
structure BlockIo where
  flag : Bool
  tszbt : Nat
  tszby : Nat
  ksize : Nat
  addrIncr : BitVec 32
  mmap : BitVec 32
  bendf : Bool

/-- What the loop works on. -/
structure BlockState where
  trace : List Access := []
  user : Nat → BitVec 8
  copies : List (Nat × Nat) := []
  kbuf : Nat → BitVec 8
  uindx : Nat := 0
  kindx : Nat := 0
  hskip : BitVec 32 := 0

namespace BlockState

def copyFromUser (l : BlockState) (uindx size : Nat) : BlockState :=
  { l with
    kbuf := blit l.kbuf 0 (fun a => l.user (uindx + a)) size
    copies := l.copies ++ [(uindx, size)] }

def copyToUser (l : BlockState) (uindx size : Nat) : BlockState :=
  { l with
    user := blit l.user uindx l.kbuf size
    copies := l.copies ++ [(uindx, size)] }

/-- An access that writes the item at `kp`. -/
def iowrite (bus : Bus) (width : Nat) (big : Bool) (addr : BitVec 32)
    (l : BlockState) : BlockState :=
  { l with
    trace := l.trace ++
      [cdcmIowrite width big (bus.loadItem l.kbuf l.kindx (width / 8)) addr] }

/-- An access that stores what it reads at `kp`. -/
def ioread (bus : Bus) (width : Nat) (big : Bool) (addr : BitVec 32)
    (l : BlockState) : BlockState :=
  { l with
    trace := l.trace ++ [cdcmIoread width big addr]
    kbuf := blit l.kbuf l.kindx
      (bus.itemByte (width / 8) (bus.ioread l.trace (cdcmIoread width big addr)))
      (width / 8) }

end BlockState

/-- The access of one round. The byte wide read is made at `mmap`, all others
at `mp`. -/
def blockTransfer (bus : Bus) (b : BlockIo) (l : BlockState) : BlockState :=
  let mp := b.mmap + l.hskip
  match b.flag, b.tszbt with
  | true, 16 => l.iowrite bus 16 b.bendf mp
  | true, 32 => l.iowrite bus 32 b.bendf mp
  | true, _ => l.iowrite bus 8 false mp
  | false, 16 => l.ioread bus 16 b.bendf mp
  | false, 32 => l.ioread bus 32 b.bendf mp
  | false, _ => l.ioread bus 8 false b.mmap

def blockIndexes (b : BlockIo) (l : BlockState) : BlockState :=
  { l with
    hskip := l.hskip + b.addrIncr * BitVec.ofNat 32 b.tszby
    kindx := l.kindx + b.tszby }

/-- The kernel buffer is used up: both directions copy at `uindx`, which is
moved on only afterwards. -/
def blockFlush (b : BlockIo) (l : BlockState) : BlockState :=
  if b.ksize ≤ l.kindx then
    { (if b.flag then l.copyFromUser l.uindx b.ksize
        else l.copyToUser l.uindx b.ksize) with
      uindx := l.uindx + b.ksize
      kindx := 0 }
  else l

def blockStep (bus : Bus) (b : BlockIo) (l : BlockState) : BlockState :=
  blockFlush b (blockIndexes b (blockTransfer bus b l))

/-- `while (tremg-- > 0)`. -/
def blockLoop (bus : Bus) (b : BlockIo) : Nat → BlockState → BlockState
  | 0, l => l
  | tremg + 1, l => blockLoop bus b tremg (blockStep bus b l)

def blockRemainder (b : BlockIo) (l : BlockState) : BlockState :=
  if !b.flag ∧ l.kindx ≠ 0 then l.copyToUser l.uindx l.kindx else l

def TRANSFERS : Nat := 1024

/-- `tremg`: a quotient that is not positive as an `int` becomes one. -/
def transferItems (bytesTr : BitVec 32) (tszby : Nat) : Nat :=
  let tremg := bytesTr.toNat / tszby
  if tremg = 0 ∨ 2 ^ 31 ≤ tremg then 1 else tremg

def kernelItems (tremg : Nat) : Nat :=
  if tremg < TRANSFERS then tremg else TRANSFERS

/-- `RawIoBlock()` on what `sysbrk()` returns and the user's memory. -/
def rawIoBlock (bus : Bus) (spaces : List InsLibAnyAddressSpace)
    (sysbrk : Option (Nat → BitVec 8)) (user : Nat → BitVec 8)
    (riob : SkelDrvrRawIoTransferBlock) (flag : Bool) :
    Except RawError BlockState :=
  match getAddrSpace spaces riob.spaceNumber 0 with
  | none => .error .enxio
  | some anyas =>
    if anyas.outOfRange riob.offset then .error .einval
    else
      let masked := (riob.dataWidth &&& 0x3F).toNat
      let tszbt := if masked = 0 then anyas.dataWidth.toNat else masked
      let tszby := tszbt / 8
      if tszby = 0 then .error .divide
      else
        let tremg := transferItems riob.bytesTr tszby
        match sysbrk with
        | none => .error .enomem
        | some kbuf =>
          let b : BlockIo :=
            { flag, tszbt, tszby
              ksize := kernelItems tremg * tszby
              addrIncr := riob.addrIncr
              mmap := anyas.mapped + riob.offset
              bendf := anyas.endian = .big }
          let l : BlockState := { user, kbuf }
          let l := if flag then l.copyFromUser 0 b.ksize else l
          .ok (blockRemainder b (blockLoop bus b tremg l))

end Coht.Skel
