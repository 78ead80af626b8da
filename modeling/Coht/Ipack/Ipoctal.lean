import Coht.Lib.System
import Coht.Lib.Fifo

/-!
# The transmit ring of an IP-Octal channel (`ipoctal.c`)

Bytes to be sent wait in a ring of `PAGE_SIZE` bytes. `ipoctal_write_tty()` puts
them in at `pointer_read`, each in a section of its own under the lock of the
channel, and the transmit interrupt takes them out at `pointer_write`.

Whether there is room is tested before each byte and outside the lock:
`i <= PAGE_SIZE - nb_bytes`, with the number of the byte in its buffer for `i`.
From the second byte of a call on the test is on the safe side, for an interrupt
can only make room. The first byte is let in even if the ring is full, and then
the unsigned difference is beyond all bounds.

The step of a call is its test or its section; `Spaced` is the condition that no
first byte is copied into a full ring. Reception does not touch the ring and is
left out, as are the statistics.
-/

namespace Coht.Ipack

open Coht.Lib

abbrev Byte := BitVec 8

def PAGE_SIZE : Nat := 4096

def IPACK1_DEVICE_ID_SBS_OCTAL_485 : BitVec 32 := 0x48

def CR_ENABLE_RX : Byte := 0x01
def CR_DISABLE_RX : Byte := 0x02
def CR_ENABLE_TX : Byte := 0x04
def CR_DISABLE_TX : Byte := 0x08
def CR_CMD_ASSERT_RTSN : Byte := 0x80
def CR_CMD_NEGATE_RTSN : Byte := 0x90

def SR_TX_READY : Byte := 0x04
def SR_TX_EMPTY : Byte := 0x08

/-- The registers of a channel that are written: the transmitter's and the one
for commands. -/
inductive Reg
  | thr | cr
  deriving DecidableEq

structure IpoctalChannel where
  nbBytes : BitVec 32 := 0
  pointerRead : Nat := 0
  pointerWrite : Nat := 0
  xmitBuf : Nat → Byte := fun _ => 0
  boardId : BitVec 32 := 0
  isrTxRdyMask : Byte := 0
  rxEnable : Bool := false
  /-- what was written to the registers -/
  wrote : List (Reg × Byte) := []

namespace IpoctalChannel

variable (channel : IpoctalChannel)

def iowrite8 (value : Byte) (reg : Reg) : IpoctalChannel :=
  { channel with wrote := channel.wrote ++ [(reg, value)] }

/-- `ipoctal_free_channel()` -/
def freeChannel : IpoctalChannel :=
  { channel with pointerRead := 0, pointerWrite := 0, nbBytes := 0 }

/-- `ipoctal_irq_tx()` -/
def irqTx : IpoctalChannel :=
  if channel.nbBytes = 0 then channel
  else
    { channel.iowrite8 (channel.xmitBuf channel.pointerWrite) .thr with
      pointerWrite := (channel.pointerWrite + 1) % PAGE_SIZE
      nbBytes := channel.nbBytes - 1 }

/-- The transmitter is switched off when it is through with the ring. -/
def irqEmpty : IpoctalChannel :=
  let channel := channel.iowrite8 CR_DISABLE_TX .cr
  if channel.boardId = IPACK1_DEVICE_ID_SBS_OCTAL_485 then
    { (channel.iowrite8 CR_CMD_NEGATE_RTSN .cr).iowrite8 CR_ENABLE_RX .cr with
      rxEnable := true }
  else channel

/-- `ipoctal_irq_channel()`, for what it reads in the registers `isr` and `sr`. -/
def irqChannel (isr sr : Byte) : IpoctalChannel :=
  let channel :=
    if sr &&& SR_TX_EMPTY ≠ 0 ∧ channel.nbBytes = 0 then channel.irqEmpty else channel
  if isr &&& channel.isrTxRdyMask ≠ 0 ∧ sr &&& SR_TX_READY ≠ 0 then channel.irqTx
  else channel

/-- `PAGE_SIZE - channel->nb_bytes`, an `unsigned long`. -/
def room : BitVec 64 := BitVec.ofNat 64 PAGE_SIZE - channel.nbBytes.setWidth 64

/-- The locked section of `ipoctal_copy_write_buffer()`. -/
def copyByte (value : Byte) : IpoctalChannel :=
  { channel with
    xmitBuf := Function.update channel.xmitBuf channel.pointerRead value
    pointerRead := (channel.pointerRead + 1) % PAGE_SIZE
    nbBytes := channel.nbBytes + 1 }

/-- What `ipoctal_write_tty()` does when the bytes are copied. -/
def startTx : IpoctalChannel :=
  let channel :=
    if channel.boardId = IPACK1_DEVICE_ID_SBS_OCTAL_485 then
      { channel.iowrite8 CR_DISABLE_RX .cr with rxEnable := false }.iowrite8
        CR_CMD_ASSERT_RTSN .cr
    else channel
  channel.iowrite8 CR_ENABLE_TX .cr

/-- `ipoctal_write_room()` -/
def writeRoom : Int := (channel.room.setWidth 32).toInt

/-- `ipoctal_chars_in_buffer()` -/
def charsInBuffer : Int := channel.nbBytes.toInt

/-- The bytes given to the transmitter. -/
def transmitted : List Byte :=
  channel.wrote.filterMap fun (reg, value) => if reg = .thr then some value else none

/-- The bytes in the ring, the oldest first. -/
def ring : List Byte :=
  held PAGE_SIZE channel.xmitBuf channel.pointerWrite channel.nbBytes.toNat

end IpoctalChannel

/-! ## Calls and interrupts -/

/-- A call of `ipoctal_write_tty()`. -/
structure WriteCall where
  buf : Nat → Byte
  count : Int
  i : Nat := 0
  /-- byte `i` has passed the test -/
  admitted : Bool := false

/-- The first `k` bytes of a buffer. -/
def firstBytes (k : Nat) (buf : Nat → Byte) : List Byte := (List.range k).map buf

structure Tty where
  channel : IpoctalChannel := {}
  call : Option WriteCall := none
  /-- the calls that have returned, with the buffer and the value of each -/
  returned : List ((Nat → Byte) × Nat) := []

inductive Event
  | writes (buf : Nat → Byte) (count : Int)
  | tests
  | copies
  | interrupts (isr sr : Byte)

namespace Tty

variable (tty : Tty)

/-- The test before byte `i`. A call that fails it returns. -/
def test (call : WriteCall) : Tty :=
  if (call.i : Int) < call.count ∧ call.i ≤ tty.channel.room.toNat then
    { tty with call := some { call with admitted := true } }
  else
    { channel := tty.channel.startTx
      call := none
      returned := tty.returned ++ [(call.buf, call.i)] }

def copy (call : WriteCall) : Tty :=
  { tty with
    channel := tty.channel.copyByte (call.buf call.i)
    call := some { call with i := call.i + 1, admitted := false } }

def next (tty : Tty) : Event → Option Tty
  | .writes buf count =>
    match tty.call with
    | none => some { tty with call := some { buf, count } }
    | some _ => none
  | .tests =>
    match tty.call with
    | some call => if call.admitted then none else some (tty.test call)
    | none => none
  | .copies =>
    match tty.call with
    | some call => if call.admitted then some (tty.copy call) else none
    | none => none
  | .interrupts isr sr => some { tty with channel := tty.channel.irqChannel isr sr }

/-- The first bytes of each call's buffer, as many as it returned. -/
def accepted : List Byte :=
  (tty.returned.flatMap fun (buf, k) => firstBytes k buf) ++
    match tty.call with
    | some call => firstBytes call.i call.buf
    | none => []

end Tty

/-- A channel that was freed and has sent nothing since. -/
def ipoctal : System Tty Event where
  init tty := ∃ channel : IpoctalChannel,
    tty = { channel := { channel.freeChannel with wrote := [] } }
  step tty e tty' := tty.next e = some tty'

/-- No call copies its first byte into a full ring. -/
def Spaced (tty : Tty) (e : Event) : Prop :=
  ∀ call, tty.call = some call → call.i = 0 → e = .copies →
    tty.channel.nbBytes.toNat ≠ PAGE_SIZE

/-! ## What a step does to the ring -/

section

variable {channel : IpoctalChannel} {isr sr value : Byte}

@[simp] theorem transmitted_thr :
    (channel.iowrite8 value .thr).transmitted = channel.transmitted ++ [value] := by
  simp [IpoctalChannel.iowrite8, IpoctalChannel.transmitted]

@[simp] theorem transmitted_cr :
    (channel.iowrite8 value .cr).transmitted = channel.transmitted := by
  simp [IpoctalChannel.iowrite8, IpoctalChannel.transmitted]

structure SameRing (channel channel' : IpoctalChannel) : Prop where
  nbBytes : channel'.nbBytes = channel.nbBytes
  pointerRead : channel'.pointerRead = channel.pointerRead
  pointerWrite : channel'.pointerWrite = channel.pointerWrite
  xmitBuf : channel'.xmitBuf = channel.xmitBuf
  transmitted : channel'.transmitted = channel.transmitted

theorem irqEmpty_same : SameRing channel channel.irqEmpty := by
  unfold IpoctalChannel.irqEmpty
  dsimp only
  split
  · exact ⟨rfl, rfl, rfl, rfl,
      (transmitted_cr.trans transmitted_cr).trans transmitted_cr⟩
  · exact ⟨rfl, rfl, rfl, rfl, transmitted_cr⟩

theorem startTx_same : SameRing channel channel.startTx := by
  unfold IpoctalChannel.startTx
  dsimp only
  split
  · exact ⟨rfl, rfl, rfl, rfl,
      (transmitted_cr.trans transmitted_cr).trans transmitted_cr⟩
  · exact ⟨rfl, rfl, rfl, rfl, transmitted_cr⟩

theorem room_toNat (h : channel.nbBytes.toNat ≤ PAGE_SIZE) :
    channel.room.toNat = PAGE_SIZE - channel.nbBytes.toNat := by
  unfold PAGE_SIZE at h ⊢
  have hnb : (channel.nbBytes.setWidth 64).toNat = channel.nbBytes.toNat :=
    BitVec.toNat_setWidth_of_le (by omega)
  simp only [IpoctalChannel.room, PAGE_SIZE, BitVec.toNat_sub, hnb, BitVec.toNat_ofNat]
  omega

theorem succ_toNat (h : channel.nbBytes.toNat < PAGE_SIZE) :
    (channel.nbBytes + 1).toNat = channel.nbBytes.toNat + 1 := by
  unfold PAGE_SIZE at h
  simp only [BitVec.toNat_add, BitVec.ofNat_eq_ofNat, BitVec.toNat_ofNat]
  omega

theorem pred_toNat (h : channel.nbBytes ≠ 0) :
    (channel.nbBytes - 1).toNat + 1 = channel.nbBytes.toNat := by
  have hpos : channel.nbBytes.toNat ≠ 0 := fun h0 => h (BitVec.eq_of_toNat_eq h0)
  have hlt := channel.nbBytes.isLt
  simp only [BitVec.toNat_sub, BitVec.ofNat_eq_ofNat, BitVec.toNat_ofNat]
  omega

end

structure InOrder (channel : IpoctalChannel) : Prop where
  fits : channel.nbBytes.toNat ≤ PAGE_SIZE
  inside : channel.pointerWrite < PAGE_SIZE
  apart : channel.pointerRead =
    (channel.pointerWrite + channel.nbBytes.toNat) % PAGE_SIZE

section

variable {channel channel' : IpoctalChannel} {isr sr value : Byte}

theorem InOrder.same (h : InOrder channel) (hs : SameRing channel channel') :
    InOrder channel' where
  fits := by rw [hs.nbBytes]; exact h.fits
  inside := by rw [hs.pointerWrite]; exact h.inside
  apart := by rw [hs.pointerRead, hs.pointerWrite, hs.nbBytes]; exact h.apart

theorem SameRing.ring (hs : SameRing channel channel') : channel'.ring = channel.ring := by
  simp only [IpoctalChannel.ring, hs.xmitBuf, hs.pointerWrite, hs.nbBytes]

theorem irqTx_spec (h : InOrder channel) :
    InOrder channel.irqTx ∧ channel.irqTx.nbBytes.toNat ≤ channel.nbBytes.toNat ∧
      channel.irqTx.transmitted ++ channel.irqTx.ring =
        channel.transmitted ++ channel.ring := by
  unfold IpoctalChannel.irqTx
  split
  · exact ⟨h, le_refl _, rfl⟩
  · next hne =>
    have hpred := pred_toNat hne
    have hfits := h.fits
    refine ⟨⟨?_, Nat.mod_lt _ (by decide), ?_⟩, ?_, ?_⟩
    · show (channel.nbBytes - 1).toNat ≤ PAGE_SIZE
      omega
    · show channel.pointerRead =
        ((channel.pointerWrite + 1) % PAGE_SIZE + (channel.nbBytes - 1).toNat) % PAGE_SIZE
      rw [h.apart, ← hpred, Nat.mod_add_mod]
      congr 1
      omega
    · show (channel.nbBytes - 1).toNat ≤ channel.nbBytes.toNat
      omega
    · show (channel.iowrite8 _ .thr).transmitted ++
        held PAGE_SIZE channel.xmitBuf ((channel.pointerWrite + 1) % PAGE_SIZE)
          (channel.nbBytes - 1).toNat = _
      rw [transmitted_thr, IpoctalChannel.ring, ← hpred,
        held_pop _ _ h.inside, List.append_assoc, List.singleton_append]

theorem irqChannel_spec (h : InOrder channel) :
    InOrder (channel.irqChannel isr sr) ∧
      (channel.irqChannel isr sr).nbBytes.toNat ≤ channel.nbBytes.toNat ∧
      (channel.irqChannel isr sr).transmitted ++ (channel.irqChannel isr sr).ring =
        channel.transmitted ++ channel.ring := by
  have hempty : ∀ {p : Prop} [Decidable p],
      SameRing channel (if p then channel.irqEmpty else channel) := by
    intro p _
    split
    · exact irqEmpty_same
    · exact ⟨rfl, rfl, rfl, rfl, rfl⟩
  unfold IpoctalChannel.irqChannel
  dsimp only
  generalize hmid : (if sr &&& SR_TX_EMPTY ≠ 0 ∧ channel.nbBytes = 0 then
    channel.irqEmpty else channel) = mid
  have hsame : SameRing channel mid := hmid ▸ hempty
  rw [← hsame.transmitted, ← hsame.ring, ← hsame.nbBytes]
  have hmid' := h.same hsame
  split
  · exact irqTx_spec hmid'
  · exact ⟨hmid', le_refl _, rfl⟩

theorem copyByte_spec (h : InOrder channel) (hroom : channel.nbBytes.toNat < PAGE_SIZE) :
    InOrder (channel.copyByte value) ∧
      (channel.copyByte value).nbBytes.toNat = channel.nbBytes.toNat + 1 ∧
      (channel.copyByte value).transmitted = channel.transmitted ∧
      (channel.copyByte value).ring = channel.ring ++ [value] := by
  have hsucc := succ_toNat hroom
  refine ⟨⟨?_, h.inside, ?_⟩, hsucc, rfl, ?_⟩
  · show (channel.nbBytes + 1).toNat ≤ PAGE_SIZE
    omega
  · show (channel.pointerRead + 1) % PAGE_SIZE =
      (channel.pointerWrite + (channel.nbBytes + 1).toNat) % PAGE_SIZE
    rw [h.apart, hsucc, Nat.mod_add_mod, Nat.add_assoc]
  · show held PAGE_SIZE (Function.update channel.xmitBuf channel.pointerRead value)
      channel.pointerWrite (channel.nbBytes + 1).toNat = _
    rw [hsucc, h.apart, held_push _ _ _ hroom]
    rfl

end

end Coht.Ipack
