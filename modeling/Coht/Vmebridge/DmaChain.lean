import Coht.Lib.Pointers
import Coht.Lib.Tiling
import Coht.Lib.Word
import Coht.Vmebridge.Vmebus
import Mathlib.Logic.Function.Basic

/-!
# Building the descriptor chain of a DMA transfer (`tsi148.c`)

`tsi148_dma_setup_chain()` turns a mapped scatter-gather list into a chain of
hardware descriptors. For each entry `tsi148_dma_link_add()` cuts the transfer
at the block boundaries of the address modifier and at the end of the entry,
fills the descriptor it was handed and, unless the transfer ends there,
allocates the next one and links it; the descriptor allocated last is handed
on to the next entry.

`dma_addr_t` has `w` bits: 32 or 64, as the platform has it. The loop of
`tsi148_dma_link_add()` runs on fuel, and running out of it is an outcome of
its own, so that a loop that does not end is not mistaken for one that
returns. Allocations are answered by an oracle, one answer for each call, and
the channel counts the calls. `filled` is history: which descriptors were
filled since the chain was begun, in order.

Registers and descriptors are in CPU order here. A descriptor is named by its
virtual address and the bridge finds it by its bus address, through the list
in which the driver keeps both.
-/

namespace Coht.Vmebridge

open Coht.Lib

/-- `enum vme_dma_dir` -/
inductive VmeDmaDir
  | toDevice
  | fromDevice
  | other (value : Nat)
  deriving DecidableEq, Repr

/-- `struct vme_dma_attr`, as far as the chain depends on it. -/
structure VmeDmaAttr where
  am : VmeAddressModifier := .a64Mblt
  bcastSelect : Word := 0
  addrl : Word := 0
  deriving DecidableEq, Repr

/-- `struct vme_dma`, as far as the chain depends on it. -/
structure VmeDma where
  novmeinc : Word := 0
  dir : VmeDmaDir := .toDevice
  src : VmeDmaAttr := {}
  dst : VmeDmaAttr := {}
  deriving DecidableEq, Repr

/-- `struct tsi148_dma_desc` -/
structure Tsi148DmaDesc where
  dsau : Word := 0
  dsal : Word := 0
  ddau : Word := 0
  ddal : Word := 0
  dsat : Word := 0
  ddat : Word := 0
  dnlau : Word := 0
  dnlal : Word := 0
  dcnt : Word := 0
  ddbs : Word := 0
  deriving DecidableEq, Repr

/-- `struct hw_desc_entry` -/
structure HwDescEntry (w : Nat) where
  va : Nat
  phys : BitVec w
  deriving DecidableEq, Repr

/-- A mapped scatter-gather entry: `sg_dma_address()` and `sg_dma_len()`. -/
structure SgEntry (w : Nat) where
  dmaAddress : BitVec w
  dmaLen : Word
  deriving DecidableEq, Repr

/-- `struct dma_channel`, with the descriptor memory, the link registers of
the channel and the blocks taken from `dma_desc_pool`. -/
structure DmaChain (w : Nat) where
  hwDescList : List (HwDescEntry w) := []
  mem : Nat → Tsi148DmaDesc := fun _ => {}
  dnlau : Word := 0
  dnlal : Word := 0
  live : List (HwDescEntry w) := []
  poolCalls : Nat := 0
  kmallocCalls : Nat := 0
  filled : List Nat := []

/-- What `pci_pool_alloc()` and `kmalloc()` answer to each call. -/
structure DmaAlloc (w : Nat) where
  pool : Nat → Option (HwDescEntry w)
  kmalloc : Nat → Bool

/-- How a call ends that does not succeed: an error code, a `BUG_ON` or a
`NULL` dereference, or not at all within the fuel. -/
inductive DmaStop
  | rc (e : Errno)
  | oops
  | hang
  deriving DecidableEq, Repr

/-- `TSI148_LCSR_DNLAL_DNLAL_M` -/
def dnlalM : Word := ~~~7#32

/-- `TSI148_LCSR_DNLAL_LLA` -/
def dnlalLla : Word := 1#32

variable {w : Nat}

/-! ## Allocation -/

def pciPoolAlloc (alloc : DmaAlloc w) (c : DmaChain w) :
    Option (HwDescEntry w) × DmaChain w :=
  match alloc.pool c.poolCalls with
  | none => (none, { c with poolCalls := c.poolCalls + 1 })
  | some b =>
    (some b, { c with poolCalls := c.poolCalls + 1, live := c.live ++ [b] })

def pciPoolFree (b : HwDescEntry w) (c : DmaChain w) : DmaChain w :=
  { c with live := c.live.erase b }

/-- `hwdesc_init()` -/
def hwdescInit (alloc : DmaAlloc w) (c : DmaChain w) :
    Except Errno (HwDescEntry w) × DmaChain w :=
  match pciPoolAlloc alloc c with
  | (none, c) => (.error .enomem, c)
  | (some b, c) =>
    let granted := alloc.kmalloc c.kmallocCalls
    let c := { c with kmallocCalls := c.kmallocCalls + 1 }
    if granted then
      (.ok b, { c with hwDescList := c.hwDescList ++ [b] })
    else
      (.error .enomem, pciPoolFree b c)

/-- `tsi148_dma_free_chain()` -/
def tsi148DmaFreeChain (c : DmaChain w) : DmaChain w :=
  { c.hwDescList.foldl (fun c b => pciPoolFree b c) c with hwDescList := [] }

/-! ## One descriptor -/

/-- `get_vmeaddr()` -/
def getVmeaddr (desc : VmeDma) : Except Errno Word :=
  match desc.dir with
  | .toDevice => .ok desc.dst.addrl
  | .fromDevice => .ok desc.src.addrl
  | .other _ => .error .einval

/-- `tsi148_fill_dma_desc()`. A direction that is neither leaves the
descriptor half filled and returns -EINVAL, which the caller ignores. -/
def tsi148FillDmaDesc (desc : VmeDma) (tsi : Tsi148DmaDesc) (vmeAddr : Word)
    (dmaAddr : BitVec w) (len dsat ddat : Word) : Rc × Tsi148DmaDesc :=
  let tsi := { tsi with dsau := 0, ddau := 0 }
  match desc.dir with
  | .toDevice =>
    (.ok (), { tsi with
      dsal := dmaAddr.setWidth 32, ddal := vmeAddr
      ddbs := desc.dst.bcastSelect
      dcnt := len, dsat := dsat, ddat := ddat
      dnlau := 0, dnlal := dnlalLla })
  | .fromDevice =>
    (.ok (), { tsi with
      dsal := vmeAddr, ddal := dmaAddr.setWidth 32, ddbs := 0
      dcnt := len, dsat := dsat, ddat := ddat
      dnlau := 0, dnlal := dnlalLla })
  | .other _ => (.error .einval, tsi)

/-- The call on the descriptor at `va`. -/
def DmaChain.fill (desc : VmeDma) (va : Nat) (vmeAddr : Word)
    (dmaAddr : BitVec w) (len dsat ddat : Word) (c : DmaChain w) :
    DmaChain w :=
  match tsi148FillDmaDesc desc (c.mem va) vmeAddr dmaAddr len dsat ddat with
  | (.ok (), tsi) =>
    { c with mem := Function.update c.mem va tsi, filled := c.filled ++ [va] }
  | (.error _, tsi) => { c with mem := Function.update c.mem va tsi }

/-- `curr->dnlau` and `curr->dnlal` for a next descriptor at `phys`. -/
def linkTo (phys : BitVec w) : Word × Word :=
  (0, phys.setWidth 32 &&& dnlalM)

def DmaChain.chain (va : Nat) (phys : BitVec w) (c : DmaChain w) :
    DmaChain w :=
  let tsi := { c.mem va with
    dnlau := (linkTo phys).1, dnlal := (linkTo phys).2 }
  { c with mem := Function.update c.mem va tsi }

/-- `__tsi148_get_bshift()` -/
def tsi148GetBshiftOf (am : VmeAddressModifier) : Nat :=
  match am with
  | .a64Mblt | .a32UserMblt | .a32SupMblt | .a24UserMblt | .a24SupMblt => 11
  | .a64Blt | .a32UserBlt | .a32SupBlt | .a40Blt | .a24UserBlt
  | .a24SupBlt => 8
  | _ => 0

/-- The address modifier on the VME side, as `tsi148_get_bshift()` picks it. -/
def VmeDma.vmeAm (desc : VmeDma) : VmeAddressModifier :=
  if desc.dir = .fromDevice then desc.src.am else desc.dst.am

/-- `tsi148_get_bshift()` -/
def tsi148GetBshift (desc : VmeDma) : Nat := tsi148GetBshiftOf desc.vmeAm

/-- `len` up to the next block boundary, for a modifier that has blocks. -/
def blockLen (bshift : Nat) (vme len : Word) : Word :=
  if bshift = 0 then len
  else
    let bsize : Word := 1#32 <<< bshift
    let bmask := bsize - 1
    bsize - (vme &&& bmask)

/-- The length of the next descriptor: not past the end of the entry. -/
def chunkLen (bshift : Nat) (vme len : Word) (dma dmaEnd : BitVec w) : Word :=
  let len := blockLen bshift vme len
  if dmaEnd < dma + len.setWidth w then (dmaEnd - dma).setWidth 32 else len

/-- `vme_addr`, unless `novmeinc` is set, moves on with the data. -/
def VmeDma.vmeAfter (desc : VmeDma) (vme len : Word) : Word :=
  if desc.novmeinc = 0 then vme + len else vme

/-! ## The chain -/

/-- What `tsi148_dma_link_add()` computes before its loop. -/
structure LinkArgs (w : Nat) where
  vmeEnd : Word
  dmaEnd : BitVec w
  /-- `index < numpages - 1` -/
  more : Bool
  bshift : Nat
  dsat : Word
  ddat : Word

def linkArgs (vmeAddr : Word) (dmaAddr : BitVec w) (size : Word)
    (numpages index bshift : Nat) (dsat ddat : Word) : LinkArgs w where
  vmeEnd := vmeAddr + size
  dmaEnd := dmaAddr + size.setWidth w
  more := decide (index < numpages - 1)
  bshift := bshift
  dsat := dsat
  ddat := ddat

/-- The loop of `tsi148_dma_link_add()`. -/
def linkAddLoop (alloc : DmaAlloc w) (desc : VmeDma) (args : LinkArgs w) :
    Nat → Option Nat → Option Nat → Word → BitVec w → Word → DmaChain w →
      Except DmaStop (Option Nat) × DmaChain w
  | 0, _, _, _, _, _, c => (.error .hang, c)
  | fuel + 1, curr, next, vme, dma, len, c =>
    if vme < args.vmeEnd ∧ dma < args.dmaEnd then
      match curr with
      | none => (.error .oops, c)
      | some va =>
        let len := chunkLen args.bshift vme len dma args.dmaEnd
        let c := c.fill desc va vme dma len args.dsat args.ddat
        let vme := desc.vmeAfter vme len
        let dma := dma + len.setWidth w
        if args.more = true ∨ dma < args.dmaEnd then
          match hwdescInit alloc c with
          | (.error e, c) => (.error (.rc e), c)
          | (.ok b, c) =>
            linkAddLoop alloc desc args fuel (some b.va) (some b.va)
              vme dma len (c.chain va b.phys)
        else
          -- `next` still names what was allocated before, if anything.
          linkAddLoop alloc desc args fuel next next vme dma len c
    else
      (.ok next, c)

/-- `tsi148_dma_link_add()`: the new value of `*virt`. -/
def tsi148DmaLinkAdd (alloc : DmaAlloc w) (desc : VmeDma) (fuel : Nat)
    (virt : Option Nat) (vmeAddr : Word) (dmaAddr : BitVec w) (size : Word)
    (numpages index bshift : Nat) (dsat ddat : Word) (c : DmaChain w) :
    Except DmaStop (Option Nat) × DmaChain w :=
  match virt with
  | none => (.error .oops, c)
  | some curr =>
    linkAddLoop alloc desc
      (linkArgs vmeAddr dmaAddr size numpages index bshift dsat ddat)
      fuel (some curr) none vmeAddr dmaAddr size c

/-- The loop of `tsi148_dma_setup_chain()` over the mapped entries. -/
def setupChainLoop (alloc : DmaAlloc w) (desc : VmeDma) (fuel sgMapped : Nat)
    (dsat ddat : Word) :
    List (SgEntry w) → Nat → Option Nat → Word → DmaChain w →
      Except DmaStop Unit × DmaChain w
  | [], _, _, _, c => (.ok (), c)
  | sg :: sgl, i, curr, vmeAddr, c =>
    match tsi148DmaLinkAdd alloc desc fuel curr vmeAddr sg.dmaAddress
        sg.dmaLen sgMapped i (tsi148GetBshift desc) dsat ddat c with
    | (.error stop, c) => (.error stop, c)
    | (.ok curr, c) =>
      setupChainLoop alloc desc fuel sgMapped dsat ddat sgl (i + 1) curr
        (desc.vmeAfter vmeAddr sg.dmaLen) c

/-- `tsi148_dma_setup_chain()` -/
def tsi148DmaSetupChain (fuel : Nat) (alloc : DmaAlloc w) (desc : VmeDma)
    (sgl : List (SgEntry w)) (dsat ddat : Word) (c : DmaChain w) :
    Except DmaStop Unit × DmaChain w :=
  match hwdescInit alloc { c with filled := [] } with
  | (.error e, c) => (.error (.rc e), c)
  | (.ok start, c) =>
    match getVmeaddr desc with
    | .error e => (.error (.rc e), tsi148DmaFreeChain c)
    | .ok vmeAddr =>
      match setupChainLoop alloc desc fuel sgl.length dsat ddat sgl 0
          (some start.va) vmeAddr c with
      | (.error (.rc e), c) => (.error (.rc e), tsi148DmaFreeChain c)
      | (.error stop, c) => (.error stop, c)
      | (.ok (), c) =>
        (.ok (), { c with
          dnlau := (linkTo start.phys).1
          dnlal := (linkTo start.phys).2 })

/-! ## Fuel

A call that comes back with some fuel comes back the same with more, so "for
some fuel" says what the driver does. -/

section Fuel

variable {alloc : DmaAlloc w} {desc : VmeDma} {fuel : Nat}

theorem linkAddLoop_fuel {args : LinkArgs w} {curr next : Option Nat}
    {vme len : Word} {dma : BitVec w} {c : DmaChain w}
    (h : (linkAddLoop alloc desc args fuel curr next vme dma len c).1 ≠
      .error .hang) :
    linkAddLoop alloc desc args (fuel + 1) curr next vme dma len c =
      linkAddLoop alloc desc args fuel curr next vme dma len c := by
  induction fuel generalizing curr next vme len dma c with
  | zero => exact absurd rfl h
  | succ fuel ih =>
    unfold linkAddLoop at h ⊢
    by_cases hguard : vme < args.vmeEnd ∧ dma < args.dmaEnd
    · rw [if_pos hguard] at h ⊢
      rw [if_pos hguard]
      cases curr with
      | none => rfl
      | some va =>
        dsimp only at h ⊢
        generalize chunkLen args.bshift vme len dma args.dmaEnd = n at h ⊢
        by_cases hmore : args.more = true ∨
            dma + n.setWidth w < args.dmaEnd
        · rw [if_pos hmore] at h ⊢
          rw [if_pos hmore]
          generalize hwdescInit alloc
            (c.fill desc va vme dma n args.dsat args.ddat) = r at h ⊢
          match r with
          | (.error _, _) => rfl
          | (.ok _, _) => exact ih h
        · rw [if_neg hmore] at h ⊢
          rw [if_neg hmore]
          exact ih h
    · rw [if_neg hguard, if_neg hguard]

theorem setupChainLoop_fuel {sgMapped i : Nat} {dsat ddat vmeAddr : Word}
    {sgl : List (SgEntry w)} {curr : Option Nat} {c : DmaChain w}
    (h : (setupChainLoop alloc desc fuel sgMapped dsat ddat sgl i curr vmeAddr
      c).1 ≠ .error .hang) :
    setupChainLoop alloc desc (fuel + 1) sgMapped dsat ddat sgl i curr vmeAddr
        c =
      setupChainLoop alloc desc fuel sgMapped dsat ddat sgl i curr vmeAddr
        c := by
  induction sgl generalizing i curr vmeAddr c with
  | nil => rfl
  | cons sg sgl ih =>
    unfold setupChainLoop at h ⊢
    have hlink : tsi148DmaLinkAdd alloc desc (fuel + 1) curr vmeAddr
        sg.dmaAddress sg.dmaLen sgMapped i (tsi148GetBshift desc) dsat ddat
        c =
        tsi148DmaLinkAdd alloc desc fuel curr vmeAddr
        sg.dmaAddress sg.dmaLen sgMapped i (tsi148GetBshift desc) dsat ddat
        c := by
      unfold tsi148DmaLinkAdd at h ⊢
      cases curr with
      | none => rfl
      | some va =>
        refine linkAddLoop_fuel fun hhang => h ?_
        dsimp only
        split
        · next stop c₁ heq =>
          rw [heq] at hhang
          cases hhang
          rfl
        · next heq =>
          rw [heq] at hhang
          cases hhang
    rw [hlink]
    generalize tsi148DmaLinkAdd alloc desc fuel curr vmeAddr sg.dmaAddress
      sg.dmaLen sgMapped i (tsi148GetBshift desc) dsat ddat c = r at h ⊢
    match r with
    | (.error _, _) => rfl
    | (.ok _, _) => exact ih h

theorem tsi148DmaSetupChain_fuel {sgl : List (SgEntry w)} {dsat ddat : Word}
    {c : DmaChain w}
    (h : (tsi148DmaSetupChain fuel alloc desc sgl dsat ddat c).1 ≠
      .error .hang) (k : Nat) :
    tsi148DmaSetupChain (fuel + k) alloc desc sgl dsat ddat c =
      tsi148DmaSetupChain fuel alloc desc sgl dsat ddat c := by
  induction k with
  | zero => rfl
  | succ k ih =>
    rw [← ih] at h ⊢
    rw [← Nat.add_assoc]
    generalize fuel + k = n at h ⊢
    unfold tsi148DmaSetupChain at h ⊢
    generalize hwdescInit alloc { c with filled := [] } = r at h ⊢
    match r with
    | (.error _, _) => rfl
    | (.ok start, c₁) =>
      dsimp only at h ⊢
      cases hv : getVmeaddr desc with
      | error _ => rfl
      | ok vmeAddr =>
        rw [hv] at h
        dsimp only at h ⊢
        rw [setupChainLoop_fuel]
        intro hhang
        refine h ?_
        split
        · next heq =>
          rw [heq] at hhang
          cases hhang
        · next heq =>
          rw [heq] at hhang
          exact hhang
        · next heq =>
          rw [heq] at hhang
          cases hhang

end Fuel

/-! ## What the bridge sees -/

/-- The bridge resolves a link through the bus address of a descriptor, and
stops at one that carries the last-link bit. -/
def DmaChain.pointers (c : DmaChain w) : Pointers (Word × Word) Nat where
  node l :=
    (c.hwDescList.find? fun b =>
      decide (b.phys.toNat = join l.1 (l.2 &&& dnlalM))).map (·.va)
  next va :=
    if (c.mem va).dnlal &&& dnlalLla = 0 then
      some ((c.mem va).dnlau, (c.mem va).dnlal)
    else
      none

/-- The bus range a descriptor transfers. -/
def Tsi148DmaDesc.busRange (dir : VmeDmaDir) (t : Tsi148DmaDesc) : Seg :=
  match dir with
  | .toDevice => ⟨join t.dsau t.dsal, t.dcnt.toNat⟩
  | _ => ⟨join t.ddau t.ddal, t.dcnt.toNat⟩

/-- The VME range a descriptor transfers. -/
def Tsi148DmaDesc.vmeRange (dir : VmeDmaDir) (t : Tsi148DmaDesc) : Seg :=
  match dir with
  | .toDevice => ⟨join t.ddau t.ddal, t.dcnt.toNat⟩
  | _ => ⟨join t.dsau t.dsal, t.dcnt.toNat⟩

def SgEntry.busRange (sg : SgEntry w) : Seg :=
  ⟨sg.dmaAddress.toNat, sg.dmaLen.toNat⟩

end Coht.Vmebridge
