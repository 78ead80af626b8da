import Coht.Lib.Ledger

/-!
# Copying segments (`xmemDrvr.c`, `xmemDrvrP.h`)

`SegmentCopy()` moves data between a user's buffer and a segment of the SDRAM
of a module. Small requests are copied by the CPU through a staging buffer,
`Tempbuf`, larger ones by DMA, page by page, in `PageCopy()`.
`FlushSegments()` copies segments onto themselves through the staging buffer.

The state is the working area, and what is to be said about a call: the books
on its mappings, page locks and timers, the accesses to SDRAM, and the sizes
of what was put into the staging buffer. What the kernel and the hardware do
is a parameter: a `PageEnv` for each call of `PageCopy()`, in order, and a
`CopyEnv` for a request. The registers of the PLX chip and the DMA semaphores
are left out.
-/

namespace Coht.XmemDrvr

open Coht.Lib

abbrev U32 := BitVec 32

inductive Errno
  | eacces | ebusy | efault | eintr | einval | eio | enodev | enxio | erange
  deriving DecidableEq

def XmemDrvrSEGMENTS : Nat := 32
def XmemDrvrMAX_SEGMENT_SIZE : Nat := 64 * 1024 * 1024
def XmemDrvrDEFAULT_DMA_THRESHOLD : U32 := 1024
def PAGESIZE : Nat := 4096
def XmemDrvrMAX_DMA_CHAIN : Nat := XmemDrvrMAX_SEGMENT_SIZE / (PAGESIZE + 1)

inductive XmemDrvrIoDir
  | read
  | write
  deriving DecidableEq

structure XmemDrvrSegDesc where
  size : U32
  address : U32
  nodes : U32

structure XmemDrvrSegTable where
  used : U32
  descriptors : Nat → XmemDrvrSegDesc

structure XmemDrvrSegIoDesc where
  module : U32
  id : U32
  offset : U32
  size : U32
  userArray : U32
  updateFlg : U32

structure XmemDmaOp where
  dma : U32
  len : U32

structure XmemDrvrModuleContext where
  nodeId : Nat
  busySemaphore : Int
  tempbufSemaphore : Int
  dmaOp : XmemDmaOp
  tempbuf : U32

structure XmemDrvrWorkingArea where
  modules : Nat
  dmaThreshold : U32
  segTable : XmemDrvrSegTable
  moduleContexts : Nat → XmemDrvrModuleContext

/-! ## The surroundings -/

/-- How the wait for the end of a DMA transfer ends: by a signal to the
process, by the interrupt, or by the time-out with `PlxDmaCsrDONE` set or
not. -/
inductive Wait
  | interrupted
  | signalled
  | timedOut (done : Bool)
  deriving DecidableEq

/-- What a call of `PageCopy()` meets: the address that `cdcm_pci_map()`
returns, whether `timeout()` has a timer left, and the wait. -/
structure PageEnv where
  map : U32
  timer : Bool
  wait : Wait

/-- What a request meets: the chain that `cdcm_pci_mmchain_lock()` returns, if
it succeeds, as addresses and counts, and whether the copies from and to the
user work. -/
structure CopyEnv where
  chain : Option (List (U32 × U32))
  fromUser : Bool
  toUser : Bool

inductive Held
  | mapping
  | pages
  | timer
  deriving DecidableEq

/-- A piece of the SDRAM of a module that was read or written. -/
structure Touch where
  module : Nat
  dir : XmemDrvrIoDir
  start : U32
  len : Nat
  deriving DecidableEq

structure Drvr where
  wa : XmemDrvrWorkingArea
  books : Ledger Held := {}
  touches : List Touch := []
  staged : List Nat := []
  /-- calls of `PageCopy()` so far -/
  copies : Nat := 0

namespace Drvr

def acquire (r : Held) (s : Drvr) : Drvr :=
  { s with books := s.books.acquire r }

def release (r : Held) (s : Drvr) : Drvr :=
  { s with books := s.books.release r }

def touch (t : Touch) (s : Drvr) : Drvr := { s with touches := t :: s.touches }

/-- A copy of so many bytes into `Tempbuf`. -/
def stage (n : Nat) (s : Drvr) : Drvr := { s with staged := n :: s.staged }

def context (m : Nat) (f : XmemDrvrModuleContext → XmemDrvrModuleContext)
    (s : Drvr) : Drvr :=
  { s with wa := { s.wa with
      moduleContexts := Function.update s.wa.moduleContexts m
        (f (s.wa.moduleContexts m)) } }

/-- `swait()` or `ssignal()` on a `BusySemaphore` -/
def busy (m : Nat) (d : Int) : Drvr → Drvr :=
  context m fun mcon => { mcon with busySemaphore := mcon.busySemaphore + d }

def tempbuf (m : Nat) (d : Int) : Drvr → Drvr :=
  context m fun mcon =>
    { mcon with tempbufSemaphore := mcon.tempbufSemaphore + d }

def setDmaOp (m : Nat) (op : XmemDmaOp) : Drvr → Drvr :=
  context m fun mcon => { mcon with dmaOp := op }

end Drvr

/-! ## Segments and permissions -/

/-- The index of the segment, if it is in use: that of the lowest bit. -/
def getSeg (tab : XmemDrvrSegTable) (segid : U32) : Option Nat :=
  match (List.range XmemDrvrSEGMENTS).find? fun i => segid.getLsbD i with
  | some sgx => if tab.used.getLsbD sgx then some sgx else none
  | none => none

/-- The shift is that of a 32-bit processor, by the low five bits. -/
def wrPermSeg (tab : XmemDrvrSegTable) (segid : U32) (node : Nat) : Bool :=
  match getSeg tab segid with
  | some sgx =>
    let nodeid : U32 := 1 <<< ((node + 31) % 32)
    decide (nodeid &&& (tab.descriptors sgx).nodes ≠ 0)
  | none => false

/-! ## PageCopy() -/

/-- From the start of the transfer to the end of the wait. -/
def transfer (e : PageEnv) (mapped : Bool) (t : Touch) (s : Drvr) :
    Option Errno × Drvr :=
  if e.timer then
    let s := (s.acquire .timer).touch t
    match e.wait with
    | .interrupted => (some .eintr, s)
    | .timedOut false => (some .ebusy, s.release .timer)
    | .signalled | .timedOut true =>
      let s := s.release .timer
      (none, if mapped then s else s.release .mapping)
  else (some .ebusy, s)

/-- The checks before a mapping is made. -/
def pageChecks (wa : XmemDrvrWorkingArea) (siod : XmemDrvrSegIoDesc)
    (mapped : Bool) : Except Errno Nat :=
  if siod.userArray = 0 ∧ mapped = false then .error .efault
  else if wa.modules ≤ (siod.module - 1).toNat then .error .enodev
  else if siod.id = 0 then .error .enodev
  else
    match getSeg wa.segTable siod.id with
    | none => .error .enxio
    | some sgx => .ok sgx

/-- The mapping of `siod->UserArray`. -/
def pageMap (e : PageEnv) (midx : Nat) (siod : XmemDrvrSegIoDesc) (s : Drvr) :
    Drvr :=
  let s := s.setDmaOp midx { dma := e.map, len := siod.size }
  if e.map = 0 then s else s.acquire .mapping

/-- What follows once `mcon->DmaOp` is set. -/
def pageDma (e : PageEnv) (siod : XmemDrvrSegIoDesc) (iod : XmemDrvrIoDir)
    (mapped : Bool) (sram : U32) (s : Drvr) : Option Errno × Drvr :=
  let midx := (siod.module - 1).toNat
  let mcon := s.wa.moduleContexts midx
  if mcon.dmaOp.dma = 0 then (some .eio, s)
  else if iod = .write ∧ wrPermSeg s.wa.segTable siod.id mcon.nodeId = false then
    (some .eacces, s)
  else transfer e mapped ⟨midx, iod, sram, mcon.dmaOp.len.toNat⟩ s

def pageCopy (env : Nat → PageEnv) (siod : XmemDrvrSegIoDesc)
    (iod : XmemDrvrIoDir) (mapped : Bool) (s : Drvr) : Option Errno × Drvr :=
  let e := env s.copies
  let s := { s with copies := s.copies + 1 }
  match pageChecks s.wa siod mapped with
  | .error err => (some err, s)
  | .ok sgx =>
    let sram := (s.wa.segTable.descriptors sgx).address + siod.offset
    let s := if mapped then s else pageMap e (siod.module - 1).toNat siod s
    pageDma e siod iod mapped sram s

/-! ## SegmentCopy() and the ioctls -/

/-- The loop over the pages of the chain. -/
def copyChain (env : Nat → PageEnv) (sel : Nat) (iod : XmemDrvrIoDir) :
    List (U32 × U32) → XmemDrvrSegIoDesc → Drvr → Option Errno × Drvr
  | [], _, s => (none, s)
  | (address, count) :: chain, sio, s =>
    let s := s.setDmaOp sel { dma := address, len := count }
    match pageCopy env sio iod true s with
    | (some err, s) => (some err, s)
    | (none, s) =>
      copyChain env sel iod chain { sio with offset := sio.offset + count } s

/-- `SendInterrupt()`, as far as its return value. -/
def sendInterrupt (module : U32) (s : Drvr) : Option Errno :=
  if s.wa.modules ≤ (module - 1).toNat then some .enxio else none

/-- `LongCopyToXmem()` and `LongCopyFromXmem()` move whole words. -/
def longCopy (sel : Nat) (iod : XmemDrvrIoDir) (sram size : U32) (s : Drvr) :
    Drvr :=
  if size.toNat / 4 = 0 then s else s.touch ⟨sel, iod, sram, size.toNat / 4 * 4⟩

/-- The copy itself, between the checks and the update message. -/
def copyData (env : Nat → PageEnv) (cenv : CopyEnv) (siod : XmemDrvrSegIoDesc)
    (iod : XmemDrvrIoDir) (sel sgx : Nat) (s : Drvr) : Option Errno × Drvr :=
  if s.wa.dmaThreshold ≤ siod.size then
    match cenv.chain with
    | none => (some .erange, s)
    | some chain =>
      let s := if chain.isEmpty then s else s.acquire .pages
      if chain.isEmpty ∨ XmemDrvrMAX_DMA_CHAIN < chain.length then
        (some .erange, s)
      else
        let sio := { siod with size := 0, userArray := 0, updateFlg := 0 }
        let (err, s) := copyChain env sel iod chain sio s
        (err, s.release .pages)
  else
    let sram := (s.wa.segTable.descriptors sgx).address + siod.offset
    if iod = .write ∧ wrPermSeg s.wa.segTable siod.id
        (s.wa.moduleContexts sel).nodeId = false then (some .eacces, s)
    else (none, longCopy sel iod sram siod.size s)

/-- For the module `sel`, the one its client has selected. -/
def segmentCopy (env : Nat → PageEnv) (cenv : CopyEnv)
    (siod : XmemDrvrSegIoDesc) (iod : XmemDrvrIoDir) (sel : Nat) (s : Drvr) :
    Option Errno × Drvr :=
  let s := s.busy sel (-1)
  if siod.userArray = 0 then (some .efault, s.busy sel 1)
  else if siod.id = 0 then (some .enodev, s.busy sel 1)
  else
    match getSeg s.wa.segTable siod.id with
    | none => (some .enxio, s.busy sel 1)
    | some sgx =>
      let (err, s) := copyData env cenv siod iod sel sgx s
      let err :=
        if err = none ∧ iod = .write ∧ siod.updateFlg ≠ 0 then
          sendInterrupt siod.module s
        else err
      (err, s.busy sel 1)

/-- What the CPU-driven copies do while they hold `TempbufSemaphore`. -/
def throughTempbuf (env : Nat → PageEnv) (cenv : CopyEnv)
    (siod : XmemDrvrSegIoDesc) (iod : XmemDrvrIoDir) (sel : Nat) (s : Drvr) :
    Option Errno × Drvr :=
  let s := s.stage siod.size.toNat
  if cenv.fromUser then
    let kern := { siod with userArray := (s.wa.moduleContexts sel).tempbuf }
    let (err, s) := segmentCopy env cenv kern iod sel s
    if err = none ∧ iod = .read ∧ cenv.toUser = false then (some .efault, s)
    else (err, s)
  else (some .efault, s)

/-- `XmemDrvrREAD_SEGMENT` and `XmemDrvrWRITE_SEGMENT` -/
def ioctlSegment (env : Nat → PageEnv) (cenv : CopyEnv)
    (siod : XmemDrvrSegIoDesc) (iod : XmemDrvrIoDir) (sel : Nat) (s : Drvr) :
    Option Errno × Drvr :=
  if siod.userArray = 0 then (some .einval, s)
  else if s.wa.dmaThreshold ≤ siod.size then
    segmentCopy env cenv siod iod sel s
  else
    let (err, s) := throughTempbuf env cenv siod iod sel (s.tempbuf sel (-1))
    (err, s.tempbuf sel 1)

/-- `XmemDrvrSET_DMA_THRESHOLD`: the value is compared as an unsigned one. -/
def setDmaThreshold (old lav : U32) : U32 :=
  if lav.toNat < PAGESIZE then lav else old

/-! ## FlushSegments() -/

/-- The copies of one segment, in page-sized chunks: each is read and written
back. -/
def flushSegment (tab : XmemDrvrSegTable) (module tempbuf : U32) (i : Nat) :
    List (XmemDrvrSegIoDesc × XmemDrvrIoDir) :=
  let size := (tab.descriptors i).size.toNat
  (List.range ((size + PAGESIZE - 1) / PAGESIZE)).flatMap fun k =>
    let pg := k * PAGESIZE
    let rsze := if pg < size then size - pg else size
    let rsze := if PAGESIZE < rsze then PAGESIZE else rsze
    let sio : XmemDrvrSegIoDesc :=
      { module := module, id := 1 <<< i, offset := BitVec.ofNat 32 pg
        size := BitVec.ofNat 32 rsze, userArray := tempbuf, updateFlg := 0 }
    [(sio, .read), (sio, .write)]

/-- The segments of the mask that are in use. -/
def flushed (tab : XmemDrvrSegTable) (mask : U32) : List Nat :=
  (List.range XmemDrvrSEGMENTS).filter fun i =>
    mask.getLsbD i && tab.used.getLsbD i

/-- Copies with a mapping of their own, up to the first that fails. -/
def copyEach (env : Nat → PageEnv) :
    List (XmemDrvrSegIoDesc × XmemDrvrIoDir) → Drvr → Option Errno × Drvr
  | [], s => (none, s)
  | (sio, iod) :: rest, s =>
    match pageCopy env sio iod false s with
    | (some err, s) => (some err, s)
    | (none, s) => copyEach env rest s

def flushPlan (wa : XmemDrvrWorkingArea) (sel : Nat) (mask : U32) :
    List (XmemDrvrSegIoDesc × XmemDrvrIoDir) :=
  (flushed wa.segTable mask).flatMap (flushSegment wa.segTable
    (BitVec.ofNat 32 (sel + 1)) (wa.moduleContexts sel).tempbuf)

def flushSegments (env : Nat → PageEnv) (sel : Nat) (mask : U32) (s : Drvr) :
    Option Errno × Drvr :=
  let plan := flushPlan s.wa sel mask
  let (err, s) := copyEach env plan ((s.tempbuf sel (-1)).busy sel (-1))
  let s := (s.busy sel 1).tempbuf sel 1
  if err = none ∧ flushed s.wa.segTable mask ≠ [] then
    (sendInterrupt (BitVec.ofNat 32 (sel + 1)) s, s)
  else (err, s)

end Coht.XmemDrvr
