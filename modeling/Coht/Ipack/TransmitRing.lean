import Coht.Ipack.Ipoctal

/-!
# What the transmit ring keeps

As long as no call copies its first byte into a full ring, the ring holds its
bytes in order and none is lost (`transmit_ring`): the test before byte `i` finds
`i` bytes of room, and until the byte is copied there can only be more. The step
that breaks the condition puts byte `PAGE_SIZE + 1` into the ring, over the
oldest one; calls of one byte each get there.
-/

namespace Coht.Ipack

open Coht.Lib

structure RingOk (tty : Tty) : Prop where
  fits : tty.channel.nbBytes.toNat ≤ PAGE_SIZE
  apart : tty.channel.pointerRead =
    (tty.channel.pointerWrite + tty.channel.nbBytes.toNat) % PAGE_SIZE
  room : 0 ≤ tty.channel.writeRoom
  chars : 0 ≤ tty.channel.charsInBuffer
  total : tty.channel.writeRoom + tty.channel.charsInBuffer = PAGE_SIZE
  bytes : tty.channel.transmitted ++ tty.channel.ring = tty.accepted

structure Booked (tty : Tty) : Prop where
  order : InOrder tty.channel
  bytes : tty.channel.transmitted ++ tty.channel.ring = tty.accepted
  admitted : ∀ call, tty.call = some call → call.admitted = true → call.i ≠ 0 →
    tty.channel.nbBytes.toNat + call.i ≤ PAGE_SIZE

variable {tty tty' : Tty} {call : WriteCall}

theorem writeRoom_eq {channel : IpoctalChannel}
    (h : channel.nbBytes.toNat ≤ PAGE_SIZE) :
    channel.writeRoom = PAGE_SIZE - channel.nbBytes.toNat := by
  have hroom := room_toNat h
  unfold PAGE_SIZE at h hroom ⊢
  have hint : (channel.room.setWidth 32).toNat = 4096 - channel.nbBytes.toNat := by
    rw [BitVec.toNat_setWidth, hroom, Nat.mod_eq_of_lt (by omega)]
  rw [IpoctalChannel.writeRoom, BitVec.toInt_eq_toNat_of_lt (by omega), hint]
  omega

theorem charsInBuffer_eq {channel : IpoctalChannel}
    (h : channel.nbBytes.toNat ≤ PAGE_SIZE) :
    channel.charsInBuffer = channel.nbBytes.toNat := by
  unfold PAGE_SIZE at h
  exact BitVec.toInt_eq_toNat_of_lt (by omega)

theorem Booked.ok (h : Booked tty) : RingOk tty where
  fits := h.order.fits
  apart := h.order.apart
  room := by
    have hfits := h.order.fits
    rw [writeRoom_eq hfits]
    omega
  chars := by
    rw [charsInBuffer_eq h.order.fits]
    omega
  total := by
    rw [writeRoom_eq h.order.fits, charsInBuffer_eq h.order.fits]
    omega
  bytes := h.bytes

/-! ## Steps -/

theorem booked_init (h : ipoctal.init tty) : Booked tty := by
  obtain ⟨channel, rfl⟩ := h
  refine ⟨⟨Nat.zero_le _, (by decide : 0 < PAGE_SIZE), rfl⟩, rfl, ?_⟩
  intro call hcall
  cases hcall

theorem booked_test (h : Booked tty) (hcall : tty.call = some call) :
    Booked (tty.test call) := by
  unfold Tty.test
  split
  · next hpass =>
    refine ⟨h.order, ?_, ?_⟩
    · simpa [Tty.accepted, hcall] using h.bytes
    · intro call' hcall' _ _
      cases hcall'
      have hroom := room_toNat h.order.fits
      have hfits := h.order.fits
      have hi := hpass.2
      show tty.channel.nbBytes.toNat + call.i ≤ PAGE_SIZE
      omega
  · have hsame := @startTx_same tty.channel
    refine ⟨h.order.same hsame, ?_, ?_⟩
    · show tty.channel.startTx.transmitted ++ tty.channel.startTx.ring = _
      rw [hsame.transmitted, hsame.ring, h.bytes]
      simp [Tty.accepted, hcall]
    · intro call' hcall'
      cases hcall'

theorem firstBytes_succ (k : Nat) (buf : Nat → Byte) :
    firstBytes (k + 1) buf = firstBytes k buf ++ [buf k] := by
  simp [firstBytes, List.range_succ]

theorem booked_copy (h : Booked tty) (hcall : tty.call = some call)
    (hroom : tty.channel.nbBytes.toNat < PAGE_SIZE) : Booked (tty.copy call) := by
  obtain ⟨horder, -, hsent, hring⟩ := @copyByte_spec _ (call.buf call.i) h.order hroom
  refine ⟨horder, ?_, ?_⟩
  · show (tty.channel.copyByte _).transmitted ++ (tty.channel.copyByte _).ring = _
    rw [hsent, hring, ← List.append_assoc, h.bytes]
    simp [Tty.accepted, Tty.copy, hcall, firstBytes_succ]
  · intro call' hcall' hadm
    cases hcall'
    cases hadm

theorem booked_interrupt (h : Booked tty) (isr sr : Byte) :
    Booked { tty with channel := tty.channel.irqChannel isr sr } := by
  obtain ⟨horder, hless, hbytes⟩ := @irqChannel_spec tty.channel isr sr h.order
  refine ⟨horder, hbytes.trans h.bytes, ?_⟩
  intro call hcall hadm hi
  exact (Nat.add_le_add_right hless _).trans (h.admitted call hcall hadm hi)

theorem booked_step {e : Event} (h : Booked tty) (hspaced : Spaced tty e)
    (hnext : tty.next e = some tty') : Booked tty' := by
  cases e with
  | writes buf count =>
    cases hcall : tty.call with
    | some call => simp [Tty.next, hcall] at hnext
    | none =>
      simp only [Tty.next, hcall, Option.some.injEq] at hnext
      subst hnext
      refine ⟨h.order, ?_, ?_⟩
      · simpa [Tty.accepted, hcall, firstBytes] using h.bytes
      · intro call hcall' _ hi
        cases hcall'
        exact absurd rfl hi
  | tests =>
    cases hcall : tty.call with
    | none => simp [Tty.next, hcall] at hnext
    | some call =>
      simp only [Tty.next, hcall] at hnext
      split at hnext
      · cases hnext
      · cases hnext
        exact booked_test h hcall
  | copies =>
    cases hcall : tty.call with
    | none => simp [Tty.next, hcall] at hnext
    | some call =>
      simp only [Tty.next, hcall] at hnext
      split at hnext
      · next hadm =>
        cases hnext
        refine booked_copy h hcall ?_
        by_cases hi : call.i = 0
        · have hne := hspaced call hcall hi rfl
          have hfits := h.order.fits
          omega
        · have hleft := h.admitted call hcall hadm hi
          omega
      · cases hnext
  | interrupts isr sr =>
    cases hnext
    exact booked_interrupt h isr sr

theorem booked_invariant : (ipoctal.guarded Spaced).Invariant Booked where
  init := booked_init
  step h hs := booked_step h hs.1 hs.2

theorem overfilled {e : Event} (hspaced : ¬ Spaced tty e)
    (hnext : tty.next e = some tty') : tty'.channel.nbBytes.toNat = PAGE_SIZE + 1 := by
  simp only [Spaced, not_forall, not_not] at hspaced
  obtain ⟨call, hcall, hi, rfl, hfull⟩ := hspaced
  simp only [Tty.next, hcall] at hnext
  split at hnext
  · cases hnext
    show (tty.channel.nbBytes + 1).toNat = PAGE_SIZE + 1
    unfold PAGE_SIZE at hfull ⊢
    simp only [BitVec.toNat_add, BitVec.ofNat_eq_ofNat, BitVec.toNat_ofNat, hfull]
  · cases hnext

/-! ## Runs -/

theorem one_byte (h : ipoctal.Reachable tty) (hcall : tty.call = none) :
    ∃ tty', ipoctal.Reachable tty' ∧ tty'.call = none ∧
      tty'.channel.nbBytes = tty.channel.nbBytes + 1 := by
  have hwrites : tty.next (.writes (fun _ => 0) 1) =
      some { tty with call := some { buf := fun _ => 0, count := 1 } } := by
    simp [Tty.next, hcall]
  have htests : ∀ tty' : Tty, tty'.call = some { buf := fun _ => 0, count := 1 } →
      tty'.next .tests =
        some { tty' with call := some { buf := fun _ => 0, count := 1, admitted := true } } := by
    intro tty' hcall'
    simp [Tty.next, hcall', Tty.test]
  refine ⟨_, .step (.step (.step (.step h hwrites) (htests _ rfl)) (e := .copies) rfl)
    (e := .tests) rfl, ?_, ?_⟩
  · simp [Tty.test, Tty.copy]
  · have hnb : (tty.channel.copyByte 0).startTx.nbBytes = tty.channel.nbBytes + 1 :=
      startTx_same.nbBytes
    simpa [Tty.test, Tty.copy] using hnb

theorem any_number (n : Nat) : ∃ tty, ipoctal.Reachable tty ∧ tty.call = none ∧
    tty.channel.nbBytes = BitVec.ofNat 32 n := by
  induction n with
  | zero => exact ⟨_, .init ⟨{}, rfl⟩, rfl, rfl⟩
  | succ n ih =>
    obtain ⟨tty, hreach, hcall, hnb⟩ := ih
    obtain ⟨tty', hreach', hcall', hnb'⟩ := one_byte hreach hcall
    refine ⟨tty', hreach', hcall', ?_⟩
    rw [hnb', hnb]
    exact (BitVec.ofNat_add n 1).symm

end Coht.Ipack
