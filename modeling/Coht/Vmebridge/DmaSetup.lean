import Coht.Vmebridge.DmaChain
import Coht.Vmebridge.Tsi148

/-!
# Setting up a DMA transfer (`vme_dma.c`, `tsi148.c`)

`vme_dma_setup()` goes through four layers. It allocates a scatter-gather table, fills
it with the pages of the buffer, maps it onto the PCI bus and has the chain of
descriptors built from what is mapped. A failure is unwound in the opposite order.

What the kernel answers is a `SetupEnv`, and what has been taken and given back is
counted in a `DmaState`. The table comes from `kmalloc()` with what the heap holds, and
this is what it holds until it is filled.

`long`, `size_t` and `dma_addr_t` have 64 bits, and a page has `2 ^ k` bytes.
-/

namespace Coht.Vmebridge

open Coht.Lib

/-- `struct vme_dma_ctrl` -/
structure VmeDmaCtrl where
  vmeBlockSize : Word := 0
  vmeBackoffTime : Word := 0
  pciBlockSize : Word := 0
  pciBackoffTime : Word := 0
  deriving DecidableEq, Repr

/-- The fields of `struct vme_dma_attr` that the chain does not depend on. -/
structure VmeDmaSide where
  dataWidth : VmeDataWidth := .d32
  v2esstMode : Vme2esstMode := .sst160
  addru : Word := 0
  deriving DecidableEq, Repr

/-- `struct vme_dma`, with the fields that the chain does not depend on. -/
structure VmeDmaDesc extends VmeDma where
  length : Word
  srcSide : VmeDmaSide := {}
  dstSide : VmeDmaSide := {}
  ctrl : VmeDmaCtrl := {}
  deriving DecidableEq, Repr

/-- The identity of a `struct page`. -/
abbrev Page := Nat

/-- `struct scatterlist`, as `sg_set_page()` fills it. -/
structure SgPage where
  page : Page
  length : Word
  offset : Word
  deriving DecidableEq, Repr

/-- What the kernel answers during one call. -/
structure SetupEnv where
  /-- What the table that `kmalloc()` returns holds. -/
  kmallocSgl : Option (Nat → SgPage)
  kmallocPages : Bool
  getUserPages : BitVec 64 → Word → Bool → Except Errno (List Page)
  virtAddrValid : BitVec 64 → Bool
  virtToPage : BitVec 64 → Page
  pciMapSg : List SgPage → List (SgEntry 64)
  alloc : DmaAlloc 64
  /-- No more pages are pinned than were asked for. -/
  most : ∀ {uaddr : BitVec 64} {n : Word} {rw : Bool} {pages : List Page},
    getUserPages uaddr n rw = .ok pages → pages.length ≤ n.toNat

/-- The channel, with the history of what was written to its control register, of the
pages that were pinned and of those that were released. -/
structure DmaState where
  chain : DmaChain 64 := {}
  sgl : List SgPage := []
  sgMapped : List (SgEntry 64) := []
  dctl : List Word := []
  pins : List Page := []
  puts : List Page := []
  sglAllocs : Nat := 0
  sglFrees : Nat := 0

/-! ## The attributes of the channel -/

def dsatTypPci : Word := 0
def dsatTypVme : Word := 0x10000000
def dsat2eSstmM : Word := 0x1800
def dctlMod : Word := 0x800000

/-- The first switch of `tsi148_setup_dma_attributes()`. -/
def setupDma2eSst (v2esstMode : Vme2esstMode) : Except Errno Word :=
  match v2esstMode with
  | .sst160 | .sst267 | .sst320 =>
    .ok ((BitVec.ofNat 32 v2esstMode.value <<< otat2eSstmShift) &&& dsat2eSstmM)
  | .other _ => .error .einval

/-- `tsi148_setup_dma_attributes()`: the other fields of the word lie where those of a
window's attributes lie. -/
def tsi148SetupDmaAttributes (v2esstMode : Vme2esstMode) (dataWidth : VmeDataWidth)
    (am : VmeAddressModifier) : Except Errno Word := do
  let sst ← setupDma2eSst v2esstMode
  let dbw ← setupDataWidth dataWidth
  let attr ← setupAttr am
  let tm ← setupTransferMode attr
  let sup ← setupUserAccess attr
  let pgm ← setupDataAccess attr
  let amode ← setupAddrSize attr
  return sst ||| dbw ||| tm ||| sup ||| pgm ||| amode

/-- `tsi148_dma_setup_src()` -/
def tsi148DmaSetupSrc (desc : VmeDmaDesc) : Except Errno Word :=
  match desc.dir with
  | .toDevice => .ok dsatTypPci
  | .fromDevice => do
      let rc ← tsi148SetupDmaAttributes desc.srcSide.v2esstMode desc.srcSide.dataWidth
        desc.src.am
      return rc ||| dsatTypVme
  | .other _ => .error .einval

/-- `tsi148_dma_setup_dst()` -/
def tsi148DmaSetupDst (desc : VmeDmaDesc) : Except Errno Word :=
  match desc.dir with
  | .toDevice => do
      let rc ← tsi148SetupDmaAttributes desc.dstSide.v2esstMode desc.dstSide.dataWidth
        desc.dst.am
      return rc ||| dsatTypVme
  | .fromDevice => .ok dsatTypPci
  | .other _ => .error .einval

/-- `tsi148_dma_setup_ctl()`: the enumerations have eight values each and are
unsigned. -/
def tsi148DmaSetupCtl (desc : VmeDmaDesc) : Except Errno Word :=
  if desc.ctrl.vmeBlockSize > 7 then .error .einval
  else if desc.ctrl.vmeBackoffTime > 7 then .error .einval
  else if desc.ctrl.pciBlockSize > 7 then .error .einval
  else if desc.ctrl.pciBackoffTime > 7 then .error .einval
  else
    .ok (((desc.ctrl.vmeBlockSize <<< 12) &&& 0x7000) |||
      ((desc.ctrl.vmeBackoffTime <<< 8) &&& 0x700) |||
      ((desc.ctrl.pciBlockSize <<< 4) &&& 0x70) |||
      (desc.ctrl.pciBackoffTime &&& 0x7))

/-- `tsi148_dma_setup()` -/
def tsi148DmaSetup (fuel : Nat) (env : SetupEnv) (desc : VmeDmaDesc) (s : DmaState) :
    Except DmaStop Unit × DmaState :=
  match tsi148DmaSetupSrc desc with
  | .error e => (.error (.rc e), s)
  | .ok dsat =>
    match tsi148DmaSetupDst desc with
    | .error e => (.error (.rc e), s)
    | .ok ddat =>
      match tsi148DmaSetupCtl desc with
      | .error e => (.error (.rc e), s)
      | .ok dctl =>
        let s := { s with dctl := s.dctl ++ [dctl &&& ~~~dctlMod] }
        let (r, chain) := tsi148DmaSetupChain fuel env.alloc desc.toVmeDma s.sgMapped
          dsat ddat s.chain
        (r, { s with chain := chain })

/-! ## The pages of the buffer -/

/-- `~PAGE_MASK` -/
def offsetMask (k : Nat) : BitVec 64 := BitVec.ofNat 64 (2 ^ k - 1)

/-- `PAGE_SIZE`, an `unsigned long`. -/
def pageBytes (k : Nat) : BitVec 64 := BitVec.ofNat 64 (2 ^ k)

/-- `nr_pages` of `vme_dma_setup()`. -/
def nrPages (k : Nat) (uaddr : BitVec 64) (length : Word) : Word :=
  (((uaddr &&& offsetMask k) + length.setWidth 64 + offsetMask k) >>> k).setWidth 32

/-- `offset_in_page()`, as the `unsigned int` it is kept in. -/
def offsetInPage (k : Nat) (uaddr : BitVec 64) : Word := (uaddr &&& offsetMask k).setWidth 32

/-- The loop of `sgl_map_user_pages()` over the pages after the first one. -/
def setRest (k : Nat) : BitVec 64 → List Page → List SgPage
  | _, [] => []
  | length, page :: pages =>
    ⟨page, (if length < pageBytes k then length else pageBytes k).setWidth 32, 0⟩ ::
      setRest k (length - pageBytes k) pages

/-- What `sgl_map_user_pages()` puts into the table. -/
def setPages (k : Nat) (uaddr length : BitVec 64) : List Page → List SgPage
  | [] => []
  | [page] => [⟨page, length.setWidth 32, offsetInPage k uaddr⟩]
  | page :: pages =>
    let off := offsetInPage k uaddr
    let len := (pageBytes k).setWidth 32 - off
    ⟨page, len, off⟩ :: setRest k (length - len.setWidth 64) pages

/-- `sgl_fill_kernel_pages()` -/
def sglFillKernelPages (k : Nat) (env : SetupEnv) (kaddr : BitVec 64) (n : Word) :
    Except Errno (List Page) :=
  if env.virtAddrValid kaddr then
    .ok ((List.range n.toNat).map fun i =>
      env.virtToPage (kaddr + pageBytes k * BitVec.ofNat 64 i))
  else .error .einval

/-- The pages of the buffer. If `get_user_pages()` pins some of them, these are released
again. -/
def sglFillPages (k : Nat) (env : SetupEnv) (n : Word) (uaddr : BitVec 64)
    (rw toUser : Bool) (s : DmaState) : Except Errno (List Page) × DmaState :=
  if toUser then
    match env.getUserPages uaddr n rw with
    | .error e => (.error e, s)
    | .ok pages =>
      let s := { s with pins := s.pins ++ pages }
      if pages.length < n.toNat then (.error .enomem, { s with puts := s.puts ++ pages })
      else (.ok pages, s)
  else (sglFillKernelPages k env uaddr n, s)

/-- `sgl_map_user_pages()`. The code of a failure is dropped at the label `out_free`: the
call returns the number of pages, and the table is as the heap had it. -/
def sglMapUserPages (k : Nat) (env : SetupEnv) (n : Word) (uaddr length : BitVec 64)
    (rw toUser : Bool) (s : DmaState) : Except Errno Word × DmaState :=
  if env.kmallocPages then
    match sglFillPages k env n uaddr rw toUser s with
    | (.error _, s) => (.ok n, s)
    | (.ok pages, s) => (.ok n, { s with sgl := setPages k uaddr length pages })
  else (.error .enomem, s)

/-- `sgl_unmap_user_pages()` -/
def sglUnmapUserPages (toUser : Bool) (s : DmaState) : DmaState :=
  if toUser then { s with puts := s.puts ++ s.sgl.map SgPage.page } else s

/-- `kfree(channel->sgl)` -/
def DmaState.freeSgl (s : DmaState) : DmaState := { s with sglFrees := s.sglFrees + 1 }

/-! ## The call -/

/-- The address of the buffer. -/
def VmeDmaDesc.uaddr (desc : VmeDmaDesc) : BitVec 64 :=
  if desc.dir = .toDevice then
    (desc.srcSide.addru.setWidth 64 <<< 32) ||| desc.src.addrl.setWidth 64
  else
    (desc.dstSide.addru.setWidth 64 <<< 32) ||| desc.dst.addrl.setWidth 64

/-- `vme_dma_setup()` once the table has been allocated. For pages of 4 bytes and more
`nr_pages` is no negative `int`, so `sg_pages <= 0` is an error of the call or 0. -/
def setupTable (k fuel : Nat) (env : SetupEnv) (desc : VmeDmaDesc) (toUser : Bool)
    (s : DmaState) : Except DmaStop Unit × DmaState :=
  match sglMapUserPages k env (nrPages k desc.uaddr desc.length) desc.uaddr
      (desc.length.setWidth 64) (desc.dir == .fromDevice) toUser s with
  | (.error e, s) => (.error (.rc e), s.freeSgl)
  | (.ok sgPages, s) =>
    if sgPages = 0 then (.ok (), s.freeSgl)
    else
      match tsi148DmaSetup fuel env desc { s with sgMapped := env.pciMapSg s.sgl } with
      | (.ok (), s) => (.ok (), s)
      | (.error (.rc e), s) => (.error (.rc e), (sglUnmapUserPages toUser s).freeSgl)
      | (.error stop, s) => (.error stop, s)

/-- `vme_dma_setup()` -/
def vmeDmaSetup (k fuel : Nat) (env : SetupEnv) (desc : VmeDmaDesc) (toUser : Bool)
    (s : DmaState) : Except DmaStop Unit × DmaState :=
  if desc.uaddr + desc.length.setWidth 64 < desc.uaddr then (.error (.rc .einval), s)
  else
    match env.kmallocSgl with
    | none => (.error (.rc .enomem), s)
    | some heap =>
      setupTable k fuel env desc toUser { s with
        sgl := (List.range (nrPages k desc.uaddr desc.length).toNat).map heap
        sglAllocs := s.sglAllocs + 1 }

end Coht.Vmebridge
