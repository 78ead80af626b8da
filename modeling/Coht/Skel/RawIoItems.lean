import Coht.Skel.RawIoBlock

/-!
# A block transfer against its items

`rawIoItems` is what a block transfer is for: one `RawIo()` after the other,
item by item. `rawIoBlock_iff` says exactly for which transfers
`RawIoBlock()` is the same. It differs where the kernel buffer is refilled
with the block it held before, where bytes are read from one address however
far the module pointer has moved on, where the number of items is negative as
an `int`, and where the two routines choose different address spaces or only
one of them looks at the window.
-/

namespace Coht.Skel

open Coht.Lib

namespace SkelDrvrRawIoTransferBlock

def itemSize (riob : SkelDrvrRawIoTransferBlock) : Nat :=
  riob.dataWidth.toNat / 8

/-- From the offset of the first item to that of item `i`. -/
def skip (riob : SkelDrvrRawIoTransferBlock) (i : Nat) : BitVec 32 :=
  BitVec.ofNat 32 i * (riob.addrIncr * BitVec.ofNat 32 riob.itemSize)

/-- Item `i` of the user's buffer. -/
def userItem (riob : SkelDrvrRawIoTransferBlock) (bus : Bus)
    (user : Nat → BitVec 8) (i : Nat) : BitVec 32 :=
  bus.loadItem user (i * riob.itemSize) riob.itemSize

/-- The call of `RawIo()` for item `i`. -/
def single (riob : SkelDrvrRawIoTransferBlock) (bus : Bus)
    (user : Nat → BitVec 8) (i : Nat) : SkelDrvrRawIoBlock where
  spaceNumber := riob.spaceNumber
  offset := riob.offset + riob.skip i
  dataWidth := riob.dataWidth
  data := riob.userItem bus user i

end SkelDrvrRawIoTransferBlock

structure ItemsState where
  trace : List Access := []
  user : Nat → BitVec 8

/-- The first `i` items of a block, each by a `RawIo()` of its own. -/
def rawIoItems (bus : Bus) (spaces : List InsLibAnyAddressSpace)
    (user : Nat → BitVec 8) (riob : SkelDrvrRawIoTransferBlock) (flag : Bool) :
    Nat → Except RawError ItemsState
  | 0 => .ok { user }
  | i + 1 =>
    match rawIoItems bus spaces user riob flag i with
    | .error e => .error e
    | .ok s =>
      match rawIo bus spaces s.trace (riob.single bus user i) flag with
      | .error e => .error e
      | .ok (a, data) =>
        .ok {
          trace := s.trace ++ [a]
          user := if flag then s.user
            else blit s.user (i * riob.itemSize)
              (bus.itemByte riob.itemSize data) riob.itemSize }

/-- A transfer makes the accesses and leaves the user's buffer as its items do,
and touches no byte past it. One that is refused, for other than want of
memory, is refused as its first item is. -/
def SameAsItems (bus : Bus) (spaces : List InsLibAnyAddressSpace)
    (sysbrk : Option (Nat → BitVec 8)) (user : Nat → BitVec 8)
    (riob : SkelDrvrRawIoTransferBlock) (flag : Bool) (n : Nat) : Prop :=
  match rawIoBlock bus spaces sysbrk user riob flag with
  | .ok l => ∃ s, rawIoItems bus spaces user riob flag n = .ok s ∧
      l.trace.length = n ∧ l.trace = s.trace ∧ l.user = s.user ∧
      ∀ c ∈ l.copies, c.1 + c.2 ≤ riob.bytesTr.toNat
  | .error e => e = .enomem ∨
      rawIo bus spaces [] (riob.single bus user 0) flag = .error e

/-! ## The items -/

section Items

variable {bus : Bus} {spaces : List InsLibAnyAddressSpace}
  {user : Nat → BitVec 8} {riob : SkelDrvrRawIoTransferBlock} {flag : Bool}
  {anyas : InsLibAnyAddressSpace} {past : List Access} {n i : Nat}

def Whole (riob : SkelDrvrRawIoTransferBlock) : Prop :=
  riob.dataWidth = 8 ∨ riob.dataWidth = 16 ∨ riob.dataWidth = 32

theorem Whole.itemSize_pos (hw : Whole riob) : 0 < riob.itemSize := by
  unfold SkelDrvrRawIoTransferBlock.itemSize
  rcases hw with h | h | h <;> rw [h] <;> decide

def itemAccess (bus : Bus) (user : Nat → BitVec 8)
    (riob : SkelDrvrRawIoTransferBlock) (flag : Bool)
    (anyas : InsLibAnyAddressSpace) (i : Nat) : Access :=
  (rawTransfer bus [] riob.dataWidth.toNat
    (riob.dataWidth ≠ 8 ∧ anyas.endian = .big) (riob.userItem bus user i)
    (anyas.mapped + (riob.offset + riob.skip i)) flag).1

theorem rawIo_ok (hw : Whole riob)
    (has : getAddrSpace spaces riob.spaceNumber riob.dataWidth = some anyas)
    (hin : anyas.outOfRange (riob.offset + riob.skip i) = false) :
    rawIo bus spaces past (riob.single bus user i) flag =
      .ok (itemAccess bus user riob flag anyas i,
        if flag then riob.userItem bus user i
        else bus.ioread past (itemAccess bus user riob flag anyas i)) := by
  unfold rawIo
  simp only [SkelDrvrRawIoTransferBlock.single, has, hin]
  unfold itemAccess rawTransfer
  rcases hw with h | h | h <;> cases flag <;> simp [h]

theorem rawIo_enxio
    (has : getAddrSpace spaces riob.spaceNumber riob.dataWidth = none) :
    rawIo bus spaces past (riob.single bus user i) flag = .error .enxio := by
  unfold rawIo
  simp only [SkelDrvrRawIoTransferBlock.single, has]

theorem rawIo_einval
    (has : getAddrSpace spaces riob.spaceNumber riob.dataWidth = some anyas)
    (hout : anyas.outOfRange (riob.offset + riob.skip i) = true) :
    rawIo bus spaces past (riob.single bus user i) flag = .error .einval := by
  unfold rawIo
  simp only [SkelDrvrRawIoTransferBlock.single, has, hout, if_true]

theorem rawIoItems_ok (hw : Whole riob)
    (has : getAddrSpace spaces riob.spaceNumber riob.dataWidth = some anyas)
    (hin : ∀ i < n, anyas.outOfRange (riob.offset + riob.skip i) = false) :
    rawIoItems bus spaces user riob flag n =
      .ok {
        trace := (List.range n).map (itemAccess bus user riob flag anyas)
        user := if flag then user
          else spread (bus.readItem riob.itemSize
            (itemAccess bus user riob flag anyas)) riob.itemSize n user } := by
  induction n with
  | zero => cases flag <;> simp [rawIoItems]
  | succ n ih =>
    have hprev := ih fun i hi => hin i (Nat.lt_succ_of_lt hi)
    have hitem := hin n (Nat.lt_succ_self n)
    simp only [rawIoItems, hprev, rawIo_ok hw has hitem]
    rw [List.range_succ, List.map_append]
    cases flag with
    | true => rfl
    | false =>
      simp only [Bool.false_eq_true, if_false]
      rw [← blit_item hw.itemSize_pos]
      rfl

theorem rawIoItems_accepted {s : ItemsState}
    (h : rawIoItems bus spaces user riob flag n = .ok s) (hi : i < n) :
    ∃ anyas,
      getAddrSpace spaces riob.spaceNumber riob.dataWidth = some anyas ∧
      anyas.outOfRange (riob.offset + riob.skip i) = false := by
  induction n generalizing s with
  | zero => omega
  | succ n ih =>
    rw [rawIoItems] at h
    cases hprev : rawIoItems bus spaces user riob flag n with
    | error e =>
      rw [hprev] at h
      cases h
    | ok s' =>
      rcases Nat.lt_succ_iff_lt_or_eq.mp hi with hlt | rfl
      · exact ih hprev hlt
      · cases has : getAddrSpace spaces riob.spaceNumber
            riob.dataWidth with
        | none => simp [hprev, rawIo_enxio has] at h
        | some anyas =>
          cases hout : anyas.outOfRange (riob.offset + riob.skip i) with
          | false => exact ⟨anyas, rfl, hout⟩
          | true => simp [hprev, rawIo_einval has hout] at h

end Items

/-! ## The block -/

section Block

variable {bus : Bus} {spaces : List InsLibAnyAddressSpace}
  {user kbuf : Nat → BitVec 8} {riob : SkelDrvrRawIoTransferBlock} {flag : Bool}
  {anyas : InsLibAnyAddressSpace} {m n i : Nat}

def blockIo (riob : SkelDrvrRawIoTransferBlock) (flag : Bool)
    (anyas : InsLibAnyAddressSpace) (m : Nat) : BlockIo where
  flag := flag
  tszbt := riob.dataWidth.toNat
  tszby := riob.itemSize
  ksize := kernelItems m * riob.itemSize
  addrIncr := riob.addrIncr
  mmap := anyas.mapped + riob.offset
  bendf := anyas.endian = .big

theorem blockIo_whole (hw : Whole riob) : (blockIo riob flag anyas m).Whole := by
  refine ⟨?_, rfl⟩
  rcases hw with h | h | h <;> simp [blockIo, h]

theorem kernelItems_pos (hm : 0 < m) : 0 < kernelItems m := by
  unfold kernelItems TRANSFERS
  split <;> omega

theorem kernelItems_le : kernelItems m ≤ m := by
  unfold kernelItems TRANSFERS
  split <;> omega

/-- The accesses of a block: those of its items, but for the two ways in which
the kernel buffer and the module pointer are off. -/
def blockAccess (bus : Bus) (user : Nat → BitVec 8)
    (riob : SkelDrvrRawIoTransferBlock) (flag : Bool)
    (anyas : InsLibAnyAddressSpace) (m : Nat) : Nat → Access :=
  (blockIo riob flag anyas m).access bus user (kernelItems m)

def blockStart (riob : SkelDrvrRawIoTransferBlock) (flag : Bool)
    (user kbuf : Nat → BitVec 8) (m : Nat) : BlockState :=
  let l : BlockState := { user, kbuf }
  if flag then l.copyFromUser 0 (kernelItems m * riob.itemSize) else l

theorem blockStart_rounds (bus : Bus) (user kbuf : Nat → BitVec 8) :
    Rounds bus (blockIo riob flag anyas m) user (kernelItems m) m 0 0 0
      (blockStart riob flag user kbuf m) := by
  have hcommon : (blockStart riob flag user kbuf m).trace = [] ∧
      (blockStart riob flag user kbuf m).user = user ∧
      (blockStart riob flag user kbuf m).uindx = 0 ∧
      (blockStart riob flag user kbuf m).kindx = 0 ∧
      (blockStart riob flag user kbuf m).hskip = 0 := by
    unfold blockStart
    cases flag <;> exact ⟨rfl, rfl, rfl, rfl, rfl⟩
  obtain ⟨htrace, huser, huindx, hkindx, hhskip⟩ := hcommon
  exact {
    count := by simp
    inside := Nat.zero_le _
    trace := htrace
    copies := by
      intro c hc
      cases flag with
      | true =>
        rw [List.mem_singleton.mp hc]
        show 0 + kernelItems m * riob.itemSize ≤ m * riob.itemSize
        rw [Nat.zero_add]
        exact Nat.mul_le_mul_right _ kernelItems_le
      | false => cases hc
    uindx := by rw [huindx, Nat.zero_mul, Nat.zero_mul]
    kindx := by rw [hkindx, Nat.zero_mul]
    hskip := by rw [hhskip, BlockIo.skip_zero]
    write := by
      rintro rfl
      refine ⟨rfl, fun a ha => ?_⟩
      have hcopied : blit kbuf 0 (fun a => user (0 + a))
          (kernelItems m * riob.itemSize) (0 + a) = user (0 + a) :=
        blit_inside ha
      rw [Nat.zero_add] at hcopied
      rw [Nat.zero_sub, Nat.zero_mul, Nat.zero_mul, Nat.zero_add]
      exact hcopied
    read := by
      rintro rfl
      rw [Nat.zero_mul, spread_zero]
      exact ⟨huser, kbuf, spread_zero.symm⟩ }

theorem rawIoBlock_eq (hw : Whole riob)
    (has : getAddrSpace spaces riob.spaceNumber 0 = some anyas)
    (hin : anyas.outOfRange riob.offset = false)
    (hm : transferItems riob.bytesTr riob.itemSize = m) :
    rawIoBlock bus spaces (some kbuf) user riob flag =
      .ok (blockRemainder (blockIo riob flag anyas m)
        (blockLoop bus (blockIo riob flag anyas m) m
          (blockStart riob flag user kbuf m))) := by
  subst hm
  unfold rawIoBlock blockStart
  simp only [has, hin]
  rcases hw with h | h | h <;>
    simp [blockIo, SkelDrvrRawIoTransferBlock.itemSize, h]

theorem rawIoBlock_ok (bus : Bus) (user kbuf : Nat → BitVec 8) (flag : Bool)
    (hw : Whole riob)
    (has : getAddrSpace spaces riob.spaceNumber 0 = some anyas)
    (hin : anyas.outOfRange riob.offset = false)
    (hm : transferItems riob.bytesTr riob.itemSize = m) (hpos : 0 < m) :
    ∃ l, rawIoBlock bus spaces (some kbuf) user riob flag = .ok l ∧
      l.trace = (List.range m).map (blockAccess bus user riob flag anyas m) ∧
      l.user = (if flag then user
        else spread (bus.readItem riob.itemSize
          (blockAccess bus user riob flag anyas m)) riob.itemSize m user) ∧
      ∀ c ∈ l.copies, c.1 + c.2 ≤ m * riob.itemSize := by
  have hb : (blockIo riob flag anyas m).Whole := blockIo_whole hw
  obtain ⟨q, r, -, hdone⟩ := blockLoop_rounds hb rfl (kernelItems_pos hpos)
    (Nat.le_of_eq (Nat.zero_add m))
    (blockStart_rounds bus user kbuf)
  rw [Nat.zero_add] at hdone
  obtain ⟨htrace, huser, hcopies⟩ :=
    blockRemainder_rounds hb (Nat.le_refl m) hdone
  exact ⟨_, rawIoBlock_eq hw has hin hm, htrace, huser, hcopies⟩

end Block

/-! ## Where the two agree -/

section Agree

variable {bus : Bus} {spaces : List InsLibAnyAddressSpace}
  {sysbrk : Option (Nat → BitVec 8)} {user : Nat → BitVec 8}
  {riob : SkelDrvrRawIoTransferBlock} {flag : Bool}
  {anyas wide : InsLibAnyAddressSpace} {n i : Nat}

/-- The spaces the block and its items are looked up in are the same memory,
what is written from one buffer of items on repeats the buffer before it, and
bytes are read one at a time or from one address. -/
structure SameAccesses (bus : Bus) (user : Nat → BitVec 8)
    (riob : SkelDrvrRawIoTransferBlock) (flag : Bool)
    (anyas wide : InsLibAnyAddressSpace) (n : Nat) : Prop where
  mapped : anyas.mapped = wide.mapped
  endian : riob.dataWidth ≠ 8 → (anyas.endian = .big ↔ wide.endian = .big)
  repeats : flag = true → ∀ i, TRANSFERS ≤ i → i < n →
    (riob.userItem bus user (i - TRANSFERS)).setWidth riob.dataWidth.toNat =
      (riob.userItem bus user i).setWidth riob.dataWidth.toNat
  bytes : flag = false → riob.dataWidth = 8 → n = 1 ∨ riob.addrIncr = 0

/-- `anyas` is the space of the number, `wide` that of the number and the
width. -/
structure Agreeing (bus : Bus) (user : Nat → BitVec 8)
    (riob : SkelDrvrRawIoTransferBlock) (flag : Bool)
    (anyas wide : InsLibAnyAddressSpace) (n : Nat) : Prop extends
    SameAccesses bus user riob flag anyas wide n where
  count : n < 2 ^ 31
  window : ∀ i < n, wide.outOfRange (riob.offset + riob.skip i) = false

/-- Both routines refuse the transfer, there is no memory for it, or they
agree on it. -/
def BlockFits (bus : Bus) (spaces : List InsLibAnyAddressSpace)
    (sysbrk : Option (Nat → BitVec 8)) (user : Nat → BitVec 8)
    (riob : SkelDrvrRawIoTransferBlock) (flag : Bool) (n : Nat) : Prop :=
  match getAddrSpace spaces riob.spaceNumber 0,
    getAddrSpace spaces riob.spaceNumber riob.dataWidth with
  | none, _ => True
  | some anyas, none => anyas.outOfRange riob.offset = false ∧ sysbrk = none
  | some anyas, some wide =>
    if anyas.outOfRange riob.offset then wide.outOfRange riob.offset = true
    else sysbrk = none ∨ Agreeing bus user riob flag anyas wide n

theorem cdcmIowrite_inj {width : Nat} {big big' : Bool}
    {v v' addr addr' : BitVec 32} (hwidth : width ≤ 32) :
    cdcmIowrite width big v addr = cdcmIowrite width big' v' addr' ↔
      addr = addr' ∧ big = big' ∧ v.setWidth width = v'.setWidth width := by
  unfold cdcmIowrite
  constructor
  · intro h
    injection h with haddr _ hbig hdata
    injection hdata with hdata
    have hnarrow := congrArg (BitVec.setWidth width) hdata
    rw [BitVec.setWidth_setWidth_of_le _ hwidth,
      BitVec.setWidth_setWidth_of_le _ hwidth] at hnarrow
    exact ⟨haddr, hbig, by simpa using hnarrow⟩
  · rintro ⟨rfl, rfl, hdata⟩
    rw [hdata]

theorem sourceItem_kernelItems (hi : i < n) :
    sourceItem (kernelItems n) i =
      if i < TRANSFERS then i else i - TRANSFERS := by
  unfold sourceItem kernelItems TRANSFERS
  split <;> split <;> omega

@[simp] theorem skip_zero : riob.skip 0 = 0 := BitVec.zero_mul

theorem wideFlag_eq (hw : Whole riob) :
    decide (riob.dataWidth.toNat ≠ 8 ∧ decide (anyas.endian = .big)) =
        decide (riob.dataWidth ≠ 8 ∧ wide.endian = .big) ↔
      (riob.dataWidth ≠ 8 → (anyas.endian = .big ↔ wide.endian = .big)) := by
  rcases hw with h | h | h <;> simp [h]

theorem blockAccess_write (hw : Whole riob) (hi : i < n) :
    blockAccess bus user riob true anyas n i =
        itemAccess bus user riob true wide i ↔
      anyas.mapped = wide.mapped ∧
      (riob.dataWidth ≠ 8 → (anyas.endian = .big ↔ wide.endian = .big)) ∧
      (TRANSFERS ≤ i →
        (riob.userItem bus user (i - TRANSFERS)).setWidth
            riob.dataWidth.toNat =
          (riob.userItem bus user i).setWidth riob.dataWidth.toNat) := by
  have hle : riob.dataWidth.toNat ≤ 32 := by
    rcases hw with h | h | h <;> simp [h]
  have hblock : blockAccess bus user riob true anyas n i =
      cdcmIowrite riob.dataWidth.toNat
        (riob.dataWidth.toNat ≠ 8 ∧ decide (anyas.endian = .big))
        (riob.userItem bus user (sourceItem (kernelItems n) i))
        (anyas.mapped + riob.offset + riob.skip i) := rfl
  have hitem : itemAccess bus user riob true wide i =
      cdcmIowrite riob.dataWidth.toNat
        (riob.dataWidth ≠ 8 ∧ wide.endian = .big) (riob.userItem bus user i)
        (wide.mapped + (riob.offset + riob.skip i)) := rfl
  rw [hblock, hitem, cdcmIowrite_inj hle, wideFlag_eq hw, ← BitVec.add_assoc,
    BitVec.add_left_inj, BitVec.add_left_inj, sourceItem_kernelItems hi]
  split
  · rename_i hnear
    simp [Nat.not_le.mpr hnear]
  · rename_i hfar
    simp [Nat.not_lt.mp hfar]

theorem blockAccess_read (hw : Whole riob) :
    blockAccess bus user riob false anyas n i =
        itemAccess bus user riob false wide i ↔
      anyas.mapped =
        wide.mapped + (if riob.dataWidth = 8 then riob.skip i else 0) ∧
      (riob.dataWidth ≠ 8 → (anyas.endian = .big ↔ wide.endian = .big)) := by
  have hblock : blockAccess bus user riob false anyas n i =
      cdcmIoread riob.dataWidth.toNat
        (riob.dataWidth.toNat ≠ 8 ∧ decide (anyas.endian = .big))
        (if riob.dataWidth.toNat = 8 then anyas.mapped + riob.offset
          else anyas.mapped + riob.offset + riob.skip i) := rfl
  have hitem : itemAccess bus user riob false wide i =
      cdcmIoread riob.dataWidth.toNat
        (riob.dataWidth ≠ 8 ∧ wide.endian = .big)
        (wide.mapped + (riob.offset + riob.skip i)) := rfl
  have hmid : wide.mapped + (riob.offset + riob.skip i) =
      wide.mapped + riob.skip i + riob.offset := by
    rw [BitVec.add_assoc, BitVec.add_comm (riob.skip i)]
  rw [hblock, hitem, ← wideFlag_eq hw]
  unfold cdcmIoread
  rw [Access.mk.injEq]
  rcases hw with h | h | h
  · simp [h, hmid]
  · simp [h, ← BitVec.add_assoc]
  · simp [h, ← BitVec.add_assoc]

theorem sameAccesses_iff (hw : Whole riob) (hn : 0 < n) :
    (∀ i < n, blockAccess bus user riob flag anyas n i =
      itemAccess bus user riob flag wide i) ↔
      SameAccesses bus user riob flag anyas wide n := by
  cases flag with
  | true =>
    constructor
    · intro h
      obtain ⟨hmapped, hendian, -⟩ := (blockAccess_write hw hn).mp (h 0 hn)
      exact {
        mapped := hmapped
        endian := hendian
        repeats := fun _ i hfar hi =>
          ((blockAccess_write hw hi).mp (h i hi)).2.2 hfar
        bytes := by simp }
    · intro h i hi
      exact (blockAccess_write hw hi).mpr
        ⟨h.mapped, h.endian, fun hfar => h.repeats rfl i hfar hi⟩
  | false =>
    constructor
    · intro h
      obtain ⟨hmapped, hendian⟩ := (blockAccess_read hw).mp (h 0 hn)
      have hsame : anyas.mapped = wide.mapped := by simpa using hmapped
      exact {
        mapped := hsame
        endian := hendian
        repeats := by simp
        bytes := fun _ hbyte => by
          rcases Nat.lt_or_eq_of_le hn with hmany | hone
          · have hsecond := ((blockAccess_read hw).mp (h 1 hmany)).1
            rw [hsame, if_pos hbyte] at hsecond
            right
            simpa [SkelDrvrRawIoTransferBlock.skip,
              SkelDrvrRawIoTransferBlock.itemSize, hbyte] using hsecond
          · exact .inl hone.symm }
    · intro h i hi
      refine (blockAccess_read hw).mpr ⟨?_, h.endian⟩
      split
      · rename_i hbyte
        rcases h.bytes rfl hbyte with rfl | hfifo
        · obtain rfl : i = 0 := by omega
          simpa using h.mapped
        · rw [h.mapped]
          simp [SkelDrvrRawIoTransferBlock.skip, hfifo]
      · simpa using h.mapped

theorem getAddrSpace_none {number width : BitVec 32}
    (h : getAddrSpace spaces number 0 = none) :
    getAddrSpace spaces number width = none := by
  unfold getAddrSpace at h ⊢
  rw [List.find?_eq_none] at h ⊢
  intro anyas hmem hfound
  simp only [decide_eq_true_eq] at hfound
  exact h anyas hmem (by simp [hfound.1])

theorem transferItems_eq (hw : Whole riob)
    (hbytes : riob.bytesTr.toNat = n * riob.itemSize) (hn : 0 < n) :
    transferItems riob.bytesTr riob.itemSize = if n < 2 ^ 31 then n else 1 := by
  unfold transferItems
  rw [hbytes, Nat.mul_div_cancel _ hw.itemSize_pos]
  simp only []
  split <;> split <;> omega

theorem agreeing_iff {kbuf : Nat → BitVec 8} (hw : Whole riob)
    (hbytes : riob.bytesTr.toNat = n * riob.itemSize) (hn : 0 < n)
    (has : getAddrSpace spaces riob.spaceNumber 0 = some anyas)
    (hin : anyas.outOfRange riob.offset = false)
    (hwide : getAddrSpace spaces riob.spaceNumber riob.dataWidth = some wide) :
    SameAsItems bus spaces (some kbuf) user riob flag n ↔
      Agreeing bus user riob flag anyas wide n := by
  have hm := transferItems_eq hw hbytes hn
  have hmpos : 0 < if n < 2 ^ 31 then n else 1 := by
    split <;> omega
  obtain ⟨l, hblock, htrace, huser, hcopies⟩ :=
    rawIoBlock_ok bus user kbuf flag hw has hin hm hmpos
  unfold SameAsItems
  rw [hblock]
  constructor
  · rintro ⟨s, hitems, hlength, hsame, -, -⟩
    have hcount : n < 2 ^ 31 := by
      rw [htrace, List.length_map, List.length_range] at hlength
      split at hlength <;> omega
    have hwindow : ∀ i < n,
        wide.outOfRange (riob.offset + riob.skip i) = false := by
      intro i hi
      obtain ⟨found, hfound, haccepted⟩ := rawIoItems_accepted hitems hi
      rw [hwide] at hfound
      injection hfound with hfound
      rw [hfound]
      exact haccepted
    rw [rawIoItems_ok hw hwide hwindow] at hitems
    injection hitems with hitems
    rw [htrace, if_pos hcount, ← hitems, List.map_inj_left] at hsame
    exact {
      toSameAccesses := (sameAccesses_iff hw hn).mp fun i hi =>
        hsame i (List.mem_range.mpr hi)
      count := hcount
      window := hwindow }
  · intro h
    have haccess := (sameAccesses_iff hw hn).mpr h.toSameAccesses
    rw [if_pos h.count] at htrace huser hcopies
    refine ⟨_, rawIoItems_ok hw hwide h.window, ?_, ?_, ?_, ?_⟩
    · rw [htrace, List.length_map, List.length_range]
    · rw [htrace]
      exact List.map_congr_left fun i hi => haccess i (List.mem_range.mp hi)
    · rw [huser, spread_readItem_congr hw.itemSize_pos haccess]
    · rw [hbytes]
      exact hcopies

theorem sameAsItems_outOfRange (hw : Whole riob)
    (has : getAddrSpace spaces riob.spaceNumber 0 = some anyas)
    (hout : anyas.outOfRange riob.offset = true) :
    SameAsItems bus spaces sysbrk user riob flag n ↔
      ∃ wide, getAddrSpace spaces riob.spaceNumber riob.dataWidth = some wide ∧
        wide.outOfRange riob.offset = true := by
  have hblock : rawIoBlock bus spaces sysbrk user riob flag =
      .error .einval := by
    simp only [rawIoBlock, has, hout, if_true]
  have hfirst : riob.offset + riob.skip 0 = riob.offset := by simp
  simp only [SameAsItems, hblock, reduceCtorEq, false_or]
  cases hwide : getAddrSpace spaces riob.spaceNumber riob.dataWidth with
  | none => simp [rawIo_enxio hwide]
  | some wide =>
    cases hin : wide.outOfRange (riob.offset + riob.skip 0) with
    | true =>
      rw [rawIo_einval hwide hin]
      rw [hfirst] at hin
      simp [hin]
    | false =>
      rw [rawIo_ok hw hwide hin]
      rw [hfirst] at hin
      simp [hin]

theorem sameAsItems_enomem (bus : Bus) (user : Nat → BitVec 8) (flag : Bool)
    (n : Nat) (hw : Whole riob)
    (has : getAddrSpace spaces riob.spaceNumber 0 = some anyas)
    (hin : anyas.outOfRange riob.offset = false) :
    SameAsItems bus spaces none user riob flag n := by
  have hblock : rawIoBlock bus spaces none user riob flag =
      .error .enomem := by
    unfold rawIoBlock
    simp only [has, hin]
    rcases hw with h | h | h <;> simp [h]
  simp [SameAsItems, hblock]

theorem not_sameAsItems_width {kbuf : Nat → BitVec 8} (hw : Whole riob)
    (hn : 0 < n)
    (has : getAddrSpace spaces riob.spaceNumber 0 = some anyas)
    (hin : anyas.outOfRange riob.offset = false)
    (hwide : getAddrSpace spaces riob.spaceNumber riob.dataWidth = none) :
    ¬ SameAsItems bus spaces (some kbuf) user riob flag n := by
  have hblock : rawIoBlock bus spaces (some kbuf) user riob flag = _ :=
    rawIoBlock_eq hw has hin rfl
  unfold SameAsItems
  rw [hblock]
  rintro ⟨s, hitems, -⟩
  obtain ⟨found, hfound, -⟩ := rawIoItems_accepted hitems hn
  rw [hwide] at hfound
  cases hfound

/-- For which transfers of `n` items of a whole width a block is its items. -/
theorem rawIoBlock_iff (hw : Whole riob)
    (hbytes : riob.bytesTr.toNat = n * riob.itemSize) (hn : 0 < n) :
    SameAsItems bus spaces sysbrk user riob flag n ↔
      BlockFits bus spaces sysbrk user riob flag n := by
  unfold BlockFits
  cases has : getAddrSpace spaces riob.spaceNumber 0 with
  | none =>
    have hblock : rawIoBlock bus spaces sysbrk user riob flag =
        .error .enxio := by
      simp only [rawIoBlock, has]
    simp only [SameAsItems, hblock, rawIo_enxio (getAddrSpace_none has),
      or_true]
  | some anyas =>
    cases hin : anyas.outOfRange riob.offset with
    | true =>
      rw [sameAsItems_outOfRange hw has hin]
      cases getAddrSpace spaces riob.spaceNumber riob.dataWidth with
      | none => simp [hin]
      | some wide => simp [hin]
    | false =>
      cases sysbrk with
      | none =>
        have hsame := sameAsItems_enomem bus user flag n hw has hin
        cases getAddrSpace spaces riob.spaceNumber riob.dataWidth with
        | none => simp [hsame, hin]
        | some wide => simp [hsame, hin]
      | some kbuf =>
        cases hwide : getAddrSpace spaces riob.spaceNumber
            riob.dataWidth with
        | none =>
          simp [hin, not_sameAsItems_width hw hn has hin hwide]
        | some wide =>
          simpa [hin] using agreeing_iff hw hbytes hn has hin hwide

end Agree

/-- A space of bytes, and one of 16 bit registers of unknown extent. -/
def byteSpace : InsLibAnyAddressSpace := ⟨0x1000, 1, 0x100, 8, .big⟩
def registerSpace : InsLibAnyAddressSpace := ⟨0x2000, 2, 0, 16, .big⟩

/-- A write of 1025 equal registers, one more than the kernel buffer holds. -/
theorem rawIoBlock_iff_equalRegisters :
    SameAsItems ⟨true, fun _ a => a.addr⟩ [byteSpace, registerSpace]
      (some fun _ => 0) (fun _ => 1) ⟨2, 4, 16, 1, 2050⟩ true 1025 := by
  refine (rawIoBlock_iff (.inr (.inl rfl)) rfl (by decide)).mpr ?_
  exact .inr {
    mapped := rfl
    endian := fun _ => Iff.rfl
    repeats := fun _ _ _ _ => by
      simp only [SkelDrvrRawIoTransferBlock.userItem, Bus.loadItem]
    bytes := nofun
    count := by decide
    window := fun _ _ => rfl }

/-- Two bytes read from successive addresses. -/
theorem not_rawIoBlock_items :
    ¬ SameAsItems ⟨true, fun _ a => a.addr⟩ [byteSpace, registerSpace]
      (some fun _ => 0) (fun _ => 0) ⟨1, 0, 8, 1, 2⟩ false 2 := by
  rintro ⟨s, hitems, -, htrace, -⟩
  injection hitems with hitems
  rw [← hitems] at htrace
  revert htrace
  decide

end Coht.Skel
