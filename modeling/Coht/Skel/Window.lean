import Coht.Lib.Stride
import Coht.Skel.RawIo

/-!
# Raw I/O and the window (`skeldrvr.c`)

An address space has a window, of `WindowSize` bytes where this is known.
`RawIo()` and `RawIoBlock()` compare the offset that the user asks for with it,
and nothing else.

`window_iff` is when a request stays inside and divides by nothing that is
zero. The width counts at the end of the window. A block walks through the
module by `AddrIncr` items, forwards or backwards, and the end of its walk has
to be inside as well; only bytes that are read come from the first address all
along. An item of fewer than eight bits has no bytes to divide by.

Widths are `int` here, since a space may be described with any, and only the
accesses are kept. `rawIoBlock_touches` says that they are those of the
transfer with all its data.
-/

namespace Coht.Skel

open Coht.Lib

/-! ## The accesses of a block -/

/-- An access: its address, and the bytes it moves. -/
structure Touch where
  addr : BitVec 32
  bytes : Nat
deriving DecidableEq

namespace SkelDrvrRawIoTransferBlock

variable (riob : SkelDrvrRawIoTransferBlock) (anyas : InsLibAnyAddressSpace)

/-- The width of an item in bits, the default of the space if none is given. -/
def tszbt : Int :=
  let masked := (riob.dataWidth &&& 0x3F).toNat
  if masked = 0 then anyas.dataWidth.toInt else masked

/-- The size of an item in bytes. -/
def tszby : Int := (riob.tszbt anyas).tdiv 8

/-- How many items there are. `BytesTr` has no sign, so it is divided by the
size as a word. -/
def tremg : Nat := transferItems riob.bytesTr (BitVec.ofInt 32 (riob.tszby anyas)).toNat

/-- The bytes of one access. Other widths than 16 and 32 move a byte. -/
def accessBytes : Nat :=
  if riob.tszbt anyas = 16 then 2 else if riob.tszbt anyas = 32 then 4 else 1

/-- What `hskip` grows by. -/
def step : BitVec 32 := riob.addrIncr * BitVec.ofInt 32 (riob.tszby anyas)

/-- The access of one round: bytes are read at `mmap`, all else is at `mp`. -/
def touch (flag : Bool) (hskip : BitVec 32) : Touch :=
  let mmap := anyas.mapped + riob.offset
  if flag = false ∧ riob.accessBytes anyas = 1 then ⟨mmap, 1⟩
  else ⟨mmap + hskip, riob.accessBytes anyas⟩

/-- `while (tremg-- > 0)`. -/
def touches (flag : Bool) : Nat → BitVec 32 → List Touch
  | 0, _ => []
  | tremg + 1, hskip =>
    riob.touch anyas flag hskip :: touches flag tremg (hskip + riob.step anyas)

end SkelDrvrRawIoTransferBlock

/-- The accesses of `RawIoBlock()`; `null` is what `sysbrk()` returned. -/
def rawIoBlockTouches (spaces : List InsLibAnyAddressSpace) (null : Bool)
    (riob : SkelDrvrRawIoTransferBlock) (flag : Bool) : Except RawError (List Touch) :=
  match getAddrSpace spaces riob.spaceNumber 0 with
  | none => .error .enxio
  | some anyas =>
    if anyas.outOfRange riob.offset then .error .einval
    else if riob.tszby anyas = 0 then .error .divide
    else if null then .error .enomem
    else .ok (riob.touches anyas flag (riob.tremg anyas) 0)

/-! ## Requests -/

def Access.touch (a : Access) : Touch := ⟨a.addr, a.width / 8⟩

inductive RawRequest
  | single (riob : SkelDrvrRawIoBlock)
  | block (riob : SkelDrvrRawIoTransferBlock)

/-- What the request finds: the spaces of the module, the bus with its past,
whether there is memory for a buffer. -/
structure Setting where
  spaces : List InsLibAnyAddressSpace
  bus : Bus
  past : List Access
  null : Bool

def RawRequest.space (s : Setting) : RawRequest → Option InsLibAnyAddressSpace
  | single riob => getAddrSpace s.spaces riob.spaceNumber riob.dataWidth
  | block riob => getAddrSpace s.spaces riob.spaceNumber 0

def RawRequest.touches (s : Setting) (flag : Bool) : RawRequest → Except RawError (List Touch)
  | single riob => (rawIo s.bus s.spaces s.past riob flag).map fun r => [r.1.touch]
  | block riob => rawIoBlockTouches s.spaces s.null riob flag

/-- All bytes of the access are in the window. -/
def InsLibAnyAddressSpace.Holds (anyas : InsLibAnyAddressSpace) (t : Touch) : Prop :=
  (t.addr - anyas.mapped).toNat + t.bytes ≤ anyas.windowSize.toNat

/-- The request does not divide by zero, and in a space of known size it makes
no access outside. -/
structure InWindow (s : Setting) (flag : Bool) (req : RawRequest) : Prop where
  divides : req.touches s flag ≠ .error .divide
  inside : ∀ anyas l, req.space s = some anyas → anyas.windowSize ≠ 0 →
    req.touches s flag = .ok l → ∀ t ∈ l, anyas.Holds t

/-! ## What keeps a request inside -/

/-- The width of a single item, the default of the space if none is given. -/
def SkelDrvrRawIoBlock.width (riob : SkelDrvrRawIoBlock) (anyas : InsLibAnyAddressSpace) :
    Nat :=
  (if riob.dataWidth = 0 then anyas.dataWidth else riob.dataWidth).toNat

/-- A single item ends in the window, if its width is one there is. -/
def SkelDrvrRawIoBlock.Fits (riob : SkelDrvrRawIoBlock) (anyas : InsLibAnyAddressSpace) :
    Prop :=
  riob.width anyas ∈ [8, 16, 32] →
    riob.offset.toNat + riob.width anyas / 8 ≤ anyas.windowSize.toNat

/-- The walk of a block: both ends are in the window. In one of more than half
the address space a walk may wrap and be inside again, so there each of its
places counts. -/
def SkelDrvrRawIoTransferBlock.Fits (riob : SkelDrvrRawIoTransferBlock)
    (anyas : InsLibAnyAddressSpace) : Prop :=
  let window := anyas.windowSize.toNat
  let bytes := riob.accessBytes anyas
  if window ≤ 2 ^ 31 then
    EndsInside window bytes riob.offset.toNat (riob.step anyas).toInt (riob.tremg anyas)
  else ∀ i < riob.tremg anyas,
    (place riob.offset (riob.step anyas) i).toNat + bytes ≤ window

/-- For a request whose offset is in range. -/
def RawRequest.Fits (s : Setting) (flag : Bool) (anyas : InsLibAnyAddressSpace) :
    RawRequest → Prop
  | single riob => anyas.outOfRange riob.offset = false → anyas.windowSize ≠ 0 → riob.Fits anyas
  | block riob => anyas.outOfRange riob.offset = false →
      8 ≤ (riob.tszbt anyas).natAbs ∧
        (anyas.windowSize ≠ 0 → s.null = false →
          flag = false ∧ riob.accessBytes anyas = 1 ∨ riob.Fits anyas)

/-! ## The accesses of the transfer -/

section

variable {bus : Bus} {b : BlockIo} {l : BlockState} {anyas : InsLibAnyAddressSpace}
  {riob : SkelDrvrRawIoTransferBlock} {flag : Bool} {n : Nat}

theorem blockFlush_trace : (blockFlush b l).trace = l.trace := by
  unfold blockFlush
  split
  · cases b.flag <;> rfl
  · rfl

theorem blockFlush_hskip : (blockFlush b l).hskip = l.hskip := by
  unfold blockFlush
  split
  · cases b.flag <;> rfl
  · rfl

structure Locals (riob : SkelDrvrRawIoTransferBlock) (anyas : InsLibAnyAddressSpace)
    (flag : Bool) (b : BlockIo) : Prop where
  flag : b.flag = flag
  tszbt : riob.tszbt anyas = b.tszbt
  tszby : b.tszby = b.tszbt / 8
  addrIncr : b.addrIncr = riob.addrIncr
  mmap : b.mmap = anyas.mapped + riob.offset

theorem Locals.size (h : Locals riob anyas flag b) : riob.tszby anyas = b.tszby := by
  simp only [SkelDrvrRawIoTransferBlock.tszby, h.tszbt, h.tszby]
  rfl

theorem Locals.step (h : Locals riob anyas flag b) :
    riob.step anyas = b.addrIncr * BitVec.ofNat 32 b.tszby := by
  simp only [SkelDrvrRawIoTransferBlock.step, h.size, h.addrIncr]
  rfl

theorem Locals.bytes (h : Locals riob anyas flag b) :
    riob.accessBytes anyas = if b.tszbt = 16 then 2 else if b.tszbt = 32 then 4 else 1 := by
  have h16 : ((b.tszbt : Int) = 16) ↔ b.tszbt = 16 := by omega
  have h32 : ((b.tszbt : Int) = 32) ↔ b.tszbt = 32 := by omega
  simp only [SkelDrvrRawIoTransferBlock.accessBytes, h.tszbt, h16, h32]

theorem Locals.transfer (h : Locals riob anyas flag b) :
    (blockTransfer bus b l).trace.map Access.touch =
      l.trace.map Access.touch ++ [riob.touch anyas flag l.hskip] := by
  have hbytes := h.bytes
  simp only [SkelDrvrRawIoTransferBlock.touch, ← h.mmap, ← h.flag, hbytes]
  simp only [blockTransfer]
  split
  · next hflag hbt => simp [hflag, hbt, BlockState.iowrite, cdcmIowrite, Access.touch]
  · next hflag hbt => simp [hflag, hbt, BlockState.iowrite, cdcmIowrite, Access.touch]
  · next hflag h16 h32 =>
    simp [hflag, if_neg h16, if_neg h32, BlockState.iowrite, cdcmIowrite, Access.touch]
  · next hflag hbt => simp [hflag, hbt, BlockState.ioread, cdcmIoread, Access.touch]
  · next hflag hbt => simp [hflag, hbt, BlockState.ioread, cdcmIoread, Access.touch]
  · next hflag h16 h32 =>
    simp [hflag, if_neg h16, if_neg h32, BlockState.ioread, cdcmIoread, Access.touch]

theorem transfer_hskip : (blockTransfer bus b l).hskip = l.hskip := by
  unfold blockTransfer
  split <;> rfl

theorem Locals.loop (h : Locals riob anyas flag b) :
    (blockLoop bus b n l).trace.map Access.touch =
      l.trace.map Access.touch ++ riob.touches anyas flag n l.hskip := by
  induction n generalizing l with
  | zero => simp [blockLoop, SkelDrvrRawIoTransferBlock.touches]
  | succ n ih =>
    have hskip : (blockStep bus b l).hskip = l.hskip + riob.step anyas := by
      rw [blockStep, blockFlush_hskip, h.step]
      simp only [blockIndexes, transfer_hskip]
    have htrace : (blockStep bus b l).trace.map Access.touch =
        l.trace.map Access.touch ++ [riob.touch anyas flag l.hskip] := by
      rw [blockStep, blockFlush_trace]
      exact h.transfer
    rw [blockLoop, ih, htrace, hskip, SkelDrvrRawIoTransferBlock.touches,
      List.append_assoc, List.singleton_append]

theorem blockRemainder_trace : (blockRemainder b l).trace = l.trace := by
  unfold blockRemainder
  split <;> rfl

theorem Locals.tremg (h : Locals riob anyas flag b) (hlt : b.tszby < 2 ^ 32) :
    riob.tremg anyas = transferItems riob.bytesTr b.tszby := by
  have hword : (BitVec.ofInt 32 (b.tszby : Int)).toNat = b.tszby := by
    rw [BitVec.ofInt_natCast, BitVec.toNat_ofNat, Nat.mod_eq_of_lt hlt]
  rw [SkelDrvrRawIoTransferBlock.tremg, h.size, hword]

/-- For a default width that is an `int`, the accesses are those of the
transfer with its data. -/
theorem rawIoBlock_touches {spaces : List InsLibAnyAddressSpace}
    {sysbrk : Option (Nat → BitVec 8)} {user : Nat → BitVec 8}
    (h : ∀ anyas ∈ getAddrSpace spaces riob.spaceNumber 0, anyas.dataWidth.toNat < 2 ^ 31) :
    (rawIoBlock bus spaces sysbrk user riob flag).map (fun l => l.trace.map Access.touch) =
      rawIoBlockTouches spaces sysbrk.isNone riob flag := by
  simp only [rawIoBlock, rawIoBlockTouches]
  cases hspace : getAddrSpace spaces riob.spaceNumber 0 with
  | none => rfl
  | some anyas =>
    have hdefault := h anyas hspace
    have hint : anyas.dataWidth.toInt = anyas.dataWidth.toNat :=
      BitVec.toInt_eq_toNat_of_lt (by omega)
    have hmask : (riob.dataWidth &&& 0x3F).toNat < 2 ^ 31 := by
      rw [BitVec.toNat_and]
      exact Nat.lt_of_le_of_lt Nat.and_le_right (by decide)
    have hbt : riob.tszbt anyas =
        ((if (riob.dataWidth &&& 0x3F).toNat = 0 then anyas.dataWidth.toNat
          else (riob.dataWidth &&& 0x3F).toNat : Nat) : Int) := by
      simp only [SkelDrvrRawIoTransferBlock.tszbt, hint]
      split <;> rfl
    have hlt : (if (riob.dataWidth &&& 0x3F).toNat = 0 then anyas.dataWidth.toNat
        else (riob.dataWidth &&& 0x3F).toNat) < 2 ^ 31 := by
      split
      · exact hdefault
      · exact hmask
    simp only []
    generalize (if (riob.dataWidth &&& 0x3F).toNat = 0 then anyas.dataWidth.toNat
      else (riob.dataWidth &&& 0x3F).toNat) = width at hbt hlt ⊢
    have hby : riob.tszby anyas = ((width / 8 : Nat) : Int) := by
      rw [SkelDrvrRawIoTransferBlock.tszby, hbt]
      rfl
    have hzero : riob.tszby anyas = 0 ↔ width / 8 = 0 := by omega
    cases hout : anyas.outOfRange riob.offset with
    | true => rfl
    | false =>
      by_cases hdivide : width / 8 = 0
      · rw [if_neg Bool.false_ne_true, if_neg Bool.false_ne_true, if_pos hdivide,
          if_pos (hzero.mpr hdivide)]
        rfl
      · rw [if_neg Bool.false_ne_true, if_neg Bool.false_ne_true, if_neg hdivide,
          if_neg (mt hzero.mp hdivide)]
        cases sysbrk with
        | none => rfl
        | some kbuf =>
          have hlocals : Locals riob anyas flag
              { flag, tszbt := width, tszby := width / 8
                ksize := kernelItems (transferItems riob.bytesTr (width / 8)) * (width / 8)
                addrIncr := riob.addrIncr, mmap := anyas.mapped + riob.offset
                bendf := anyas.endian = .big } := ⟨rfl, hbt, rfl, rfl, rfl⟩
          have htremg := hlocals.tremg (by simp only; omega)
          simp only [Except.map, Option.isNone_some, Bool.false_eq_true, if_false,
            blockRemainder_trace, hlocals.loop, htremg]
          cases flag <;> rfl

end

/-! ## Blocks in the window -/

section

variable {s : Setting} {flag : Bool} {anyas : InsLibAnyAddressSpace}
  {riob : SkelDrvrRawIoTransferBlock} {n i : Nat} {hskip : BitVec 32}

theorem offset_lt (hin : anyas.outOfRange riob.offset = false) (hsize : anyas.windowSize ≠ 0) :
    riob.offset.toNat < anyas.windowSize.toNat := by
  simp only [InsLibAnyAddressSpace.outOfRange, decide_eq_false_iff_not, not_and] at hin
  exact BitVec.not_le.mp (hin hsize)

theorem tszby_eq_zero : riob.tszby anyas = 0 ↔ (riob.tszbt anyas).natAbs < 8 := by
  rw [← Int.natAbs_eq_zero, SkelDrvrRawIoTransferBlock.tszby, Int.natAbs_tdiv]
  show (riob.tszbt anyas).natAbs / 8 = 0 ↔ _
  omega

theorem accessBytes_pos : 0 < riob.accessBytes anyas := by
  simp only [SkelDrvrRawIoTransferBlock.accessBytes]
  split
  · decide
  · split <;> decide

theorem tremg_pos : 0 < riob.tremg anyas := by
  simp only [SkelDrvrRawIoTransferBlock.tremg, transferItems]
  split
  · exact Nat.one_pos
  · next h => exact Nat.pos_of_ne_zero fun hzero => h (.inl hzero)

theorem forall_touches {P : Touch → Prop} :
    (∀ t ∈ riob.touches anyas flag n hskip, P t) ↔
      ∀ i < n, P (riob.touch anyas flag (place hskip (riob.step anyas) i)) := by
  induction n generalizing hskip with
  | zero => simp [SkelDrvrRawIoTransferBlock.touches]
  | succ n ih =>
    have hnext : ∀ i, place (hskip + riob.step anyas) (riob.step anyas) i =
        place hskip (riob.step anyas) (i + 1) := by
      intro i
      simp only [place, BitVec.ofNat_add, BitVec.add_mul, BitVec.one_mul]
      rw [BitVec.add_assoc, BitVec.add_comm (riob.step anyas)]
    rw [SkelDrvrRawIoTransferBlock.touches, List.forall_mem_cons, ih]
    simp only [hnext]
    constructor
    · intro h i hi
      obtain ⟨hfirst, hrest⟩ := h
      cases i with
      | zero => rwa [place_zero]
      | succ i => exact hrest i (by omega)
    · intro h
      refine ⟨?_, fun i hi => h (i + 1) (by omega)⟩
      have hfirst := h 0 (by omega)
      rwa [place_zero] at hfirst

theorem holds_touch :
    anyas.Holds (riob.touch anyas flag (place 0 (riob.step anyas) i)) ↔
      if flag = false ∧ riob.accessBytes anyas = 1 then
        riob.offset.toNat + 1 ≤ anyas.windowSize.toNat
      else (place riob.offset (riob.step anyas) i).toNat + riob.accessBytes anyas ≤
        anyas.windowSize.toNat := by
  simp only [InsLibAnyAddressSpace.Holds, SkelDrvrRawIoTransferBlock.touch]
  split
  · rw [BitVec.add_comm, BitVec.add_sub_cancel]
  · have haddr : anyas.mapped + riob.offset + place 0 (riob.step anyas) i - anyas.mapped =
        place riob.offset (riob.step anyas) i := by
      have hzero : (0 : BitVec 32) + BitVec.ofNat 32 i * riob.step anyas =
        BitVec.ofNat 32 i * riob.step anyas := BitVec.zero_add _
      rw [place, place, hzero, BitVec.add_assoc, BitVec.add_comm, BitVec.add_sub_cancel]
    rw [haddr]

theorem touches_hold_iff (hin : anyas.outOfRange riob.offset = false)
    (hsize : anyas.windowSize ≠ 0) :
    (∀ t ∈ riob.touches anyas flag (riob.tremg anyas) 0, anyas.Holds t) ↔
      flag = false ∧ riob.accessBytes anyas = 1 ∨ riob.Fits anyas := by
  have hfirst := offset_lt hin hsize
  rw [forall_touches]
  simp only [holds_touch]
  by_cases hbytes : flag = false ∧ riob.accessBytes anyas = 1
  · simp only [if_pos hbytes]
    exact iff_of_true (fun _ _ => hfirst) (.inl hbytes)
  · simp only [if_neg hbytes, or_iff_right hbytes, SkelDrvrRawIoTransferBlock.Fits]
    split
    · next hsmall =>
      exact places_inside_iff (by decide) hsmall accessBytes_pos tremg_pos
    · exact Iff.rfl

/-! ## Requests in the window -/

variable {req : RawRequest} {e : RawError} {l : List Touch}

theorem inWindow_refused (h : req.touches s flag = .error e) (he : e ≠ .divide) :
    InWindow s flag req where
  divides hdivide := he (Except.error.inj (h.symm.trans hdivide))
  inside _ _ _ _ hok := nomatch h.symm.trans hok

theorem inWindow_done (hspace : req.space s = some anyas) (h : req.touches s flag = .ok l) :
    InWindow s flag req ↔ (anyas.windowSize ≠ 0 → ∀ t ∈ l, anyas.Holds t) := by
  constructor
  · exact fun hin hsize => hin.inside anyas l hspace hsize h
  · intro hin
    refine ⟨fun hdivide => (nomatch h.symm.trans hdivide), fun anyas' l' heq hsize hl => ?_⟩
    obtain rfl := Option.some.inj (hspace.symm.trans heq)
    cases Except.ok.inj (h.symm.trans hl)
    exact hin hsize

theorem block_touches (hfound : RawRequest.space s (.block riob) = some anyas) :
    RawRequest.touches s flag (.block riob) =
      if anyas.outOfRange riob.offset then .error .einval
      else if riob.tszby anyas = 0 then .error .divide
      else if s.null then .error .enomem
      else .ok (riob.touches anyas flag (riob.tremg anyas) 0) := by
  have hspace : getAddrSpace s.spaces riob.spaceNumber 0 = some anyas := hfound
  show rawIoBlockTouches s.spaces s.null riob flag = _
  rw [rawIoBlockTouches, hspace]

theorem block_iff (hfound : RawRequest.space s (.block riob) = some anyas) :
    InWindow s flag (.block riob) ↔ RawRequest.Fits s flag anyas (.block riob) := by
  have htouches : RawRequest.touches s flag (.block riob) = _ := block_touches hfound
  cases hin : anyas.outOfRange riob.offset with
  | true =>
    rw [hin, if_pos rfl] at htouches
    exact iff_of_true (inWindow_refused htouches (by decide)) fun h => nomatch hin.symm.trans h
  | false =>
    rw [hin, if_neg Bool.false_ne_true] at htouches
    by_cases hdivide : riob.tszby anyas = 0
    · rw [if_pos hdivide] at htouches
      refine iff_of_false (fun h => h.divides htouches) fun h => ?_
      exact absurd (tszby_eq_zero.mp hdivide) (Nat.not_lt.mpr (h hin).1)
    · rw [if_neg hdivide] at htouches
      have hwide : 8 ≤ (riob.tszbt anyas).natAbs :=
        Nat.not_lt.mp (mt tszby_eq_zero.mpr hdivide)
      cases hnull : s.null with
      | true =>
        rw [hnull, if_pos rfl] at htouches
        exact iff_of_true (inWindow_refused htouches (by decide))
          fun _ => ⟨hwide, fun _ h => nomatch hnull.symm.trans h⟩
      | false =>
        rw [hnull, if_neg Bool.false_ne_true] at htouches
        rw [inWindow_done hfound htouches]
        constructor
        · exact fun h _ => ⟨hwide, fun hsize _ => (touches_hold_iff hin hsize).mp (h hsize)⟩
        · exact fun h hsize => (touches_hold_iff hin hsize).mpr ((h hin).2 hsize hnull)

section

variable {riob : SkelDrvrRawIoBlock}

theorem single_touches (hfound : RawRequest.space s (.single riob) = some anyas) :
    RawRequest.touches s flag (.single riob) =
      if anyas.outOfRange riob.offset then .error .einval
      else if riob.width anyas ∈ [8, 16, 32] then
        .ok [⟨anyas.mapped + riob.offset, riob.width anyas / 8⟩]
      else .error .einval := by
  have hspace : getAddrSpace s.spaces riob.spaceNumber riob.dataWidth = some anyas := hfound
  show (rawIo s.bus s.spaces s.past riob flag).map _ = _
  simp only [rawIo, hspace]
  cases anyas.outOfRange riob.offset with
  | true => rfl
  | false =>
    simp only [Bool.false_eq_true, if_false]
    split
    · next h =>
      have hw : riob.width anyas = 8 := h
      rw [if_pos (by simp [hw]), hw]
      cases flag <;> rfl
    · next h =>
      have hw : riob.width anyas = 16 := h
      rw [if_pos (by simp [hw]), hw]
      cases flag <;> rfl
    · next h =>
      have hw : riob.width anyas = 32 := h
      rw [if_pos (by simp [hw]), hw]
      cases flag <;> rfl
    · next h8 h16 h32 =>
      have hw : ¬ riob.width anyas ∈ [8, 16, 32] := by
        simpa using ⟨h8, h16, h32⟩
      rw [if_neg hw]
      rfl

theorem single_iff (hfound : RawRequest.space s (.single riob) = some anyas) :
    InWindow s flag (.single riob) ↔ RawRequest.Fits s flag anyas (.single riob) := by
  have htouches : RawRequest.touches s flag (.single riob) = _ := single_touches hfound
  cases hin : anyas.outOfRange riob.offset with
  | true =>
    rw [hin, if_pos rfl] at htouches
    exact iff_of_true (inWindow_refused htouches (by decide)) fun h => nomatch hin.symm.trans h
  | false =>
    rw [hin, if_neg Bool.false_ne_true] at htouches
    by_cases hwidth : riob.width anyas ∈ [8, 16, 32]
    · rw [if_pos hwidth] at htouches
      rw [inWindow_done hfound htouches]
      simp only [List.forall_mem_singleton, InsLibAnyAddressSpace.Holds]
      rw [BitVec.add_comm, BitVec.add_sub_cancel]
      exact ⟨fun h _ hsize _ => h hsize, fun h hsize => h hin hsize hwidth⟩
    · rw [if_neg hwidth] at htouches
      exact iff_of_true (inWindow_refused htouches (by decide))
        fun _ _ h => absurd h hwidth

end

/-- A request stays in the window and does not divide by zero if and only if
it fits into the space it finds. -/
theorem window_iff (s : Setting) (flag : Bool) (req : RawRequest) :
    InWindow s flag req ↔ ∀ anyas, req.space s = some anyas → req.Fits s flag anyas := by
  cases hfound : req.space s with
  | none =>
    have htouches : req.touches s flag = .error .enxio := by
      cases req with
      | single riob =>
        have hspace : getAddrSpace s.spaces riob.spaceNumber riob.dataWidth = none := hfound
        show (rawIo s.bus s.spaces s.past riob flag).map _ = _
        rw [rawIo, hspace]
        rfl
      | block riob =>
        have hspace : getAddrSpace s.spaces riob.spaceNumber 0 = none := hfound
        show rawIoBlockTouches s.spaces s.null riob flag = _
        rw [rawIoBlockTouches, hspace]
    exact iff_of_true (inWindow_refused htouches (by decide)) fun _ h => nomatch h
  | some anyas =>
    have hone : (∀ anyas', some anyas = some anyas' → req.Fits s flag anyas') ↔
        req.Fits s flag anyas :=
      ⟨fun h => h anyas rfl, fun h anyas' heq => Option.some.inj heq ▸ h⟩
    rw [hone]
    cases req with
    | single riob => exact single_iff hfound
    | block riob => exact block_iff hfound

end

/-- A window of four bytes, and 16 bits by default. -/
def fourBytes : InsLibAnyAddressSpace := ⟨0, 0, 4, 16, .big⟩

def fourBytesOnly : Setting where
  spaces := [fourBytes]
  bus := ⟨true, fun _ _ => 0⟩
  past := []
  null := false

/-- An item at the last byte goes over the end, and one of four bits is
divided by. -/
theorem not_inWindow : ¬ InWindow fourBytesOnly true (.block ⟨0, 3, 0, 1, 2⟩) ∧
    ¬ InWindow fourBytesOnly true (.block ⟨0, 0, 4, 1, 2⟩) := by
  constructor
  · intro h
    have hin := h.inside fourBytes [⟨3, 2⟩] rfl (by decide) (by decide) ⟨3, 2⟩
      (by decide)
    exact absurd hin (by unfold InsLibAnyAddressSpace.Holds; decide)
  · exact fun h => h.divides (by decide)

end Coht.Skel
