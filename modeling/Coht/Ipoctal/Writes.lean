import Coht.Ipack.TransmitRing
import Coht.Ipoctal.Driver

/-!
# What a call sends (`ipoctal_drvr.c`)

From its first byte on a call has its bytes in two places: those that were sent since it came
and those in the ring, one after the other the first bytes of its buffer (`CallOk`). It starts
so if nothing has been left in the ring, and a byte only goes from one place to the other
while the call has the transmitter. `count_wr` counts the first part.

A call that finds `write` set has been announced by its own channel if the flag was not set
when it came and has been set by no other channel since (`BoardOk`).
-/

namespace Coht.Ipoctal

open Coht.Lib
open Coht.Ipack (Byte Reg firstBytes firstBytes_succ)

namespace Phase

def early : Phase → Bool
  | entered | copying | admitted | copied => true
  | _ => false

def writes : Phase → Bool
  | testing | preparing | queued | woken | asleep | ended | cleared => true
  | _ => false

def past : Phase → Bool
  | ended | cleared | stopped => true
  | _ => false

def awake : Phase → Phase
  | preparing | queued | woken | asleep => preparing
  | phase => phase

variable (phase : Phase)

theorem awake_early : phase.awake.early = phase.early := by
  cases phase <;> rfl

theorem awake_writes : phase.awake.writes = phase.writes := by
  cases phase <;> rfl

theorem awake_past : phase.awake.past = phase.past := by
  cases phase <;> rfl

theorem awake_eq_entered : phase.awake = .entered ↔ phase = .entered := by
  cases phase <;> decide

theorem awake_eq_admitted : phase.awake = .admitted ↔ phase = .admitted := by
  cases phase <;> decide

theorem wake_awake : phase.wake.awake = phase.awake := by
  cases phase <;> rfl

variable {phase} {phase' : Phase}

theorem unset_spec (h : phase.unset = some phase') :
    phase ≠ .entered ∧ phase.past = false ∧ phase'.early = false ∧ phase' ≠ .admitted ∧
      phase'.writes = true ∧ phase'.past = false := by
  cases phase <;> cases h <;> decide

theorem interruptible_spec (h : phase.interruptible = true) :
    phase ≠ .entered ∧ phase.past = false := by
  cases phase <;> first | decide | cases h

end Phase

def Call.awake (call : Call) : Call := { call with phase := call.phase.awake }

structure CallOk (channel : Channel) (call : Call) : Prop where
  entered : call.entered ≤ channel.transmitted.length
  fits : channel.nbBytes.toNat ≤ MAX_CHAR
  apart : channel.pointerRead = (channel.pointerWrite + channel.nbBytes.toNat) % MAX_CHAR
  bytes : channel.sent call ++ channel.ring = firstBytes call.i call.buf
  counted : call.phase ≠ .entered → channel.countWr.toNat = (channel.sent call).length
  early : call.phase.early = true → channel.sent call = []
  few : call.i ≤ 129
  count : call.i ≤ call.count.toNat
  admitted : call.phase = .admitted → call.i ≤ 128 ∧ (call.i : Int) < call.count
  cause : call.cause ≠ some (.flag false)
  waits : call.phase.past = false → call.cause = none

structure ChannelOk (channel : Channel) : Prop where
  inside : channel.pointerWrite < MAX_CHAR
  status : channel.status = .write → ∃ call, channel.call = some call ∧ call.phase.writes = true
  call : ∀ call, channel.call = some call → CallOk channel call
  returned : ∀ r ∈ channel.returned, ReturnedOk r

structure BoardOk (board : Board) : Prop where
  channel : ∀ c, ChannelOk (board.channels c)
  flag : board.write = true → ∀ c call, (board.channels c).call = some call →
    call.cause = none → (board.channels c).announced = true

/-! ## Bytes -/

theorem length_firstBytes (k : Nat) (buf : Nat → Byte) : (firstBytes k buf).length = k := by
  rw [firstBytes, List.length_map, List.length_range]

theorem firstBytes_front {front back : List Byte} {n : Nat} {buf : Nat → Byte}
    (h : front ++ back = firstBytes n buf) :
    front.length ≤ n ∧ front = firstBytes front.length buf := by
  have hlen := congrArg List.length h
  rw [List.length_append, length_firstBytes] at hlen
  have hle : front.length ≤ n := by omega
  refine ⟨hle, ?_⟩
  have htake := congrArg (List.take front.length) h
  rw [List.take_left, firstBytes, ← List.map_take, List.take_range, Nat.min_eq_left hle] at htake
  exact htake

section

variable {channel channel' : Channel} {call call' : Call} {boardId isr sr value : Byte} {c : Chan}

@[simp] theorem transmitted_thr :
    (channel.writeIoReg .thr value).transmitted = channel.transmitted ++ [value] := by
  simp [Channel.writeIoReg, Channel.transmitted]

@[simp] theorem transmitted_cr :
    (channel.writeIoReg .cr value).transmitted = channel.transmitted := by
  simp [Channel.writeIoReg, Channel.transmitted]

theorem CallOk.sent (h : CallOk channel call) :
    (channel.sent call).length ≤ call.i ∧
      channel.sent call = firstBytes (channel.sent call).length call.buf :=
  firstBytes_front h.bytes

theorem CallOk.sound (h : CallOk channel call) : CallSound channel call where
  sent := ⟨_, h.sent.1.trans h.count, h.sent.2⟩
  cause := h.cause

theorem BoardOk.sound {board : Board} (h : BoardOk board) : Sound board where
  returned c := (h.channel c).returned
  call c call hcall := ((h.channel c).call call hcall).sound

/-! ## What does not touch the bytes -/

structure SameBytes (channel channel' : Channel) : Prop where
  nbBytes : channel'.nbBytes = channel.nbBytes
  countWr : channel'.countWr = channel.countWr
  pointerRead : channel'.pointerRead = channel.pointerRead
  pointerWrite : channel'.pointerWrite = channel.pointerWrite
  buffer : channel'.buffer = channel.buffer
  transmitted : channel'.transmitted = channel.transmitted
  returned : channel'.returned = channel.returned
  call : channel'.call.map Call.awake = channel.call.map Call.awake

structure Quiet (channel channel' : Channel) : Prop extends SameBytes channel channel' where
  status : channel'.status = .write → channel.status = .write

theorem SameBytes.refl (channel : Channel) : SameBytes channel channel :=
  ⟨rfl, rfl, rfl, rfl, rfl, rfl, rfl, rfl⟩

theorem SameBytes.trans {channel'' : Channel} (h : SameBytes channel channel')
    (h' : SameBytes channel' channel'') : SameBytes channel channel'' where
  nbBytes := h'.nbBytes.trans h.nbBytes
  countWr := h'.countWr.trans h.countWr
  pointerRead := h'.pointerRead.trans h.pointerRead
  pointerWrite := h'.pointerWrite.trans h.pointerWrite
  buffer := h'.buffer.trans h.buffer
  transmitted := h'.transmitted.trans h.transmitted
  returned := h'.returned.trans h.returned
  call := h'.call.trans h.call

theorem Quiet.refl (channel : Channel) : Quiet channel channel := ⟨.refl channel, id⟩

theorem Quiet.trans {channel'' : Channel} (h : Quiet channel channel')
    (h' : Quiet channel' channel'') : Quiet channel channel'' :=
  ⟨h.toSameBytes.trans h'.toSameBytes, fun hw => h.status (h'.status hw)⟩

theorem same_status (status : ChanStatus) : SameBytes channel { channel with status := status } :=
  ⟨rfl, rfl, rfl, rfl, rfl, rfl, rfl, rfl⟩

theorem quiet_cr : Quiet channel (channel.writeIoReg .cr value) :=
  ⟨⟨rfl, rfl, rfl, rfl, rfl, transmitted_cr, rfl, rfl⟩, id⟩

theorem quiet_opened : Quiet channel { channel with status := .opened } :=
  ⟨same_status .opened, nofun⟩

theorem quiet_wakeUp : Quiet channel channel.wakeUp := by
  refine ⟨⟨rfl, rfl, rfl, rfl, rfl, rfl, rfl, ?_⟩, id⟩
  show (channel.call.map _).map Call.awake = _
  rw [Option.map_map]
  congr 1
  funext call
  simp only [Function.comp_apply, Call.awake, Phase.wake_awake]

theorem quiet_irqEmpty : Quiet channel (channel.irqEmpty boardId sr).1 := by
  unfold Channel.irqEmpty
  split
  · exact ((quiet_cr.trans quiet_cr).trans quiet_cr).trans quiet_wakeUp
  · exact .refl channel

theorem quiet_irqLast : Quiet channel (channel.irqLast boardId).1 := by
  unfold Channel.irqLast
  split
  · split
    · exact quiet_wakeUp
    · exact quiet_opened
  · exact .refl channel

theorem quiet_irqError : Quiet channel (channel.irqError sr) := by
  unfold Channel.irqError
  split
  · dsimp only
    split
    · exact (quiet_cr.trans quiet_opened).trans quiet_wakeUp
    · exact quiet_cr
  · exact .refl channel

theorem call_of_awake (h : channel'.call.map Call.awake = channel.call.map Call.awake)
    (hcall' : channel'.call = some call') :
    ∃ call, channel.call = some call ∧ call'.awake = call.awake := by
  rw [hcall', Option.map_some] at h
  obtain ⟨call, hcall, hawake⟩ := Option.map_eq_some_iff.mp h.symm
  exact ⟨call, hcall, hawake.symm⟩

theorem CallOk.same (h : CallOk channel call) (hq : SameBytes channel channel')
    (hcall : call'.awake = call.awake) : CallOk channel' call' := by
  simp only [Call.awake, Call.mk.injEq] at hcall
  obtain ⟨hbuf, hcount, hi, hphase, hentered, hcause⟩ := hcall
  have hsent : channel'.sent call' = channel.sent call := by
    rw [Channel.sent, Channel.sent, hq.transmitted, hentered]
  constructor
  · rw [hentered, hq.transmitted]
    exact h.entered
  · rw [hq.nbBytes]
    exact h.fits
  · rw [hq.pointerRead, hq.pointerWrite, hq.nbBytes]
    exact h.apart
  · rw [hsent, hi, hbuf, Channel.ring, hq.buffer, hq.pointerWrite, hq.nbBytes]
    exact h.bytes
  · intro hne
    rw [hsent, hq.countWr]
    apply h.counted
    rwa [ne_eq, ← Phase.awake_eq_entered, ← hphase, Phase.awake_eq_entered]
  · intro hearly
    rw [hsent]
    apply h.early
    rwa [← Phase.awake_early, ← hphase, Phase.awake_early]
  · rw [hi]
    exact h.few
  · rw [hi, hcount]
    exact h.count
  · intro hadmitted
    rw [hi, hcount]
    apply h.admitted
    rwa [← Phase.awake_eq_admitted, ← hphase, Phase.awake_eq_admitted]
  · rw [hcause]
    exact h.cause
  · intro hover
    rw [hcause]
    apply h.waits
    rwa [← Phase.awake_past, ← hphase, Phase.awake_past]

theorem ChannelOk.quiet (h : ChannelOk channel) (hq : Quiet channel channel') :
    ChannelOk channel' where
  inside := by
    rw [hq.pointerWrite]
    exact h.inside
  status hw := by
    obtain ⟨call, hcall, hwrites⟩ := h.status (hq.status hw)
    have hmap := hq.call
    rw [hcall, Option.map_some] at hmap
    obtain ⟨call', hcall', hawake⟩ := Option.map_eq_some_iff.mp hmap
    refine ⟨call', hcall', ?_⟩
    have hphase := congrArg Call.phase hawake
    change call'.phase.awake = call.phase.awake at hphase
    rwa [← Phase.awake_writes, hphase, Phase.awake_writes]
  call call' hcall' := by
    obtain ⟨call, hcall, hawake⟩ := call_of_awake hq.call hcall'
    exact (h.call call hcall).same hq.toSameBytes hawake
  returned := by
    rw [hq.returned]
    exact h.returned

/-! ## The interrupt -/

theorem toNat_pred {n : BitVec 32} (h : n ≠ 0) : (n - 1).toNat + 1 = n.toNat := by
  have hpos : n.toNat ≠ 0 := fun h0 => h (BitVec.eq_of_toNat_eq h0)
  have hlt := n.isLt
  simp only [BitVec.toNat_sub, BitVec.ofNat_eq_ofNat, BitVec.toNat_ofNat]
  omega

theorem toNat_succ {n : BitVec 32} (h : n.toNat ≤ MAX_CHAR) : (n + 1).toNat = n.toNat + 1 := by
  unfold MAX_CHAR at h
  simp only [BitVec.toNat_add, BitVec.ofNat_eq_ofNat, BitVec.toNat_ofNat]
  omega

theorem Phase.not_early {phase : Phase} (h : phase.writes = true) : phase.early = false := by
  cases phase <;> first | rfl | cases h

theorem sent_sendByte (h : call.entered ≤ channel.transmitted.length) :
    channel.sendByte.sent call =
      channel.sent call ++ [channel.buffer channel.pointerWrite] := by
  show (channel.writeIoReg .thr _).transmitted.drop call.entered = _
  rw [transmitted_thr, List.drop_append_of_le_length h]
  rfl

theorem CallOk.sendByte (h : CallOk channel call) (hinside : channel.pointerWrite < MAX_CHAR)
    (hwrites : call.phase.writes = true) (hnb : channel.nbBytes ≠ 0) :
    CallOk channel.sendByte call := by
  have hpred := toNat_pred hnb
  have hfits := h.fits
  have hsent := sent_sendByte h.entered
  have hearly := Phase.not_early hwrites
  constructor
  · show call.entered ≤ (channel.writeIoReg .thr _).transmitted.length
    rw [transmitted_thr, List.length_append]
    exact Nat.le_add_right_of_le h.entered
  · show (channel.nbBytes - 1).toNat ≤ MAX_CHAR
    omega
  · show channel.pointerRead =
      ((channel.pointerWrite + 1) % MAX_CHAR + (channel.nbBytes - 1).toNat) % MAX_CHAR
    rw [h.apart, ← hpred, Nat.mod_add_mod]
    congr 1
    omega
  · have hring : channel.ring = channel.buffer channel.pointerWrite :: channel.sendByte.ring := by
      rw [Channel.ring, ← hpred, held_pop _ _ hinside]
      rfl
    rw [hsent, List.append_assoc, List.singleton_append, ← hring]
    exact h.bytes
  · intro hne
    have hcounted := h.counted hne
    have hlen := h.sent.1
    have hfew := h.few
    rw [hsent, List.length_append, ← hcounted]
    exact toNat_succ (by unfold MAX_CHAR; omega)
  · intro h'
    rw [hearly] at h'
    cases h'
  · exact h.few
  · exact h.count
  · exact h.admitted
  · exact h.cause
  · exact h.waits

theorem ChannelOk.sendByte (h : ChannelOk channel) (hstatus : channel.status = .write)
    (hnb : channel.nbBytes ≠ 0) : ChannelOk channel.sendByte where
  inside := Nat.mod_lt _ (by decide)
  status := h.status
  call call hcall := by
    obtain ⟨call', hcall', hwrites⟩ := h.status hstatus
    obtain rfl : call' = call := Option.some.inj (hcall'.symm.trans hcall)
    exact (h.call call' hcall').sendByte h.inside hwrites hnb
  returned := h.returned

theorem ChannelOk.irq (h : ChannelOk channel) : ChannelOk (channel.irq boardId c isr sr).1 := by
  have hempty : ChannelOk (channel.irqEmpty boardId sr).1 := h.quiet quiet_irqEmpty
  unfold Channel.irq
  dsimp only
  split
  · next hready =>
    split
    · exact hempty
    · next hnb =>
      exact ((hempty.sendByte hready.2.2 hnb).quiet quiet_irqLast).quiet quiet_irqError
  · exact hempty.quiet quiet_irqError

theorem irq_awake : (channel.irq boardId c isr sr).1.call.map Call.awake =
    channel.call.map Call.awake := by
  have hempty : Quiet channel (channel.irqEmpty boardId sr).1 := quiet_irqEmpty
  unfold Channel.irq
  dsimp only
  split
  · split
    · exact hempty.call
    · exact (quiet_irqLast.trans quiet_irqError).call.trans hempty.call
  · exact (hempty.trans quiet_irqError).call

theorem irqEmpty_of_ne (h : boardId ≠ IP_OCTAL_485_ID) :
    channel.irqEmpty boardId sr = (channel, false) :=
  if_neg fun h' => h h'.1

theorem irqEmpty_announces (h : (channel.irqEmpty boardId sr).2 = true) :
    Announces boardId channel c isr sr := by
  unfold Channel.irqEmpty at h
  split at h
  · next hall =>
    rw [Announces, if_pos hall.1]
    exact hall.2
  · cases h

theorem irqLast_sets (h : (channel.sendByte.irqLast boardId).2 = true) :
    boardId ≠ IP_OCTAL_485_ID ∧ channel.nbBytes = 1 ∧ channel.queueActive = true := by
  unfold Channel.irqLast at h
  split at h
  · next hlast =>
    split at h
    · next hid =>
      refine ⟨hid, ?_, hlast.2⟩
      have hzero : channel.nbBytes - 1 = 0 := hlast.1
      rw [← BitVec.sub_add_cancel channel.nbBytes 1, hzero]
      rfl
    · cases h
  · cases h

theorem irq_announces (h : (channel.irq boardId c isr sr).2 = true) :
    Announces boardId channel c isr sr := by
  unfold Channel.irq at h
  dsimp only at h
  split at h
  · next hready =>
    split at h
    · exact irqEmpty_announces h
    · rcases Bool.or_eq_true_iff.mp h with hempty | hlast
      · exact irqEmpty_announces hempty
      · obtain ⟨hid, hone, hactive⟩ := irqLast_sets hlast
        rw [irqEmpty_of_ne hid] at hready hone hactive
        rw [Announces, if_neg hid]
        exact ⟨hready, hone, hactive⟩
  · exact irqEmpty_announces h

/-! ## The call -/

theorem CallOk.moveTo (h : CallOk channel call) {phase : Phase}
    (hentered : call.phase ≠ .entered) (hearly : phase.early = true → call.phase.early = true)
    (hadmitted : phase = .admitted → call.i ≤ 128 ∧ (call.i : Int) < call.count)
    (hover : phase.past = false → call.phase.past = false) :
    CallOk (channel.moveTo call phase) { call with phase := phase } where
  entered := h.entered
  fits := h.fits
  apart := h.apart
  bytes := h.bytes
  counted _ := h.counted hentered
  early hphase := h.early (hearly hphase)
  few := h.few
  count := h.count
  admitted := hadmitted
  cause := h.cause
  waits hphase := h.waits (hover hphase)

theorem ChannelOk.moveTo (h : ChannelOk channel) (hcall : channel.call = some call)
    {phase : Phase} (hentered : call.phase ≠ .entered)
    (hearly : phase.early = true → call.phase.early = true)
    (hadmitted : phase = .admitted → call.i ≤ 128 ∧ (call.i : Int) < call.count)
    (hwrites : call.phase.writes = true → phase.writes = true)
    (hover : phase.past = false → call.phase.past = false) :
    ChannelOk (channel.moveTo call phase) where
  inside := h.inside
  status hw := by
    obtain ⟨call', hcall', hwrites'⟩ := h.status hw
    obtain rfl : call' = call := Option.some.inj (hcall'.symm.trans hcall)
    exact ⟨_, rfl, hwrites hwrites'⟩
  call call' hcall' := by
    cases hcall'
    exact (h.call call hcall).moveTo hentered hearly hadmitted hover
  returned := h.returned

theorem ChannelOk.not_write (h : ChannelOk channel) (hcall : channel.call = some call)
    (hwrites : call.phase.writes = false) : channel.status ≠ .write := by
  intro hw
  obtain ⟨call', hcall', hwrites'⟩ := h.status hw
  obtain rfl : call' = call := Option.some.inj (hcall'.symm.trans hcall)
  rw [hwrites] at hwrites'
  cases hwrites'

theorem enter_ok (h : ChannelOk channel) (hnone : channel.call = none)
    (hempty : channel.pointerRead = channel.pointerWrite) (buf : Nat → Byte) (count : Int) :
    ChannelOk
      { channel with
        nbBytes := 0
        announced := false
        call := some { buf, count, entered := channel.transmitted.length } } where
  inside := h.inside
  status hw := by
    obtain ⟨call, hcall, -⟩ := h.status hw
    cases hnone.symm.trans hcall
  call call hcall := by
    cases hcall
    exact
      { entered := Nat.le_refl _
        fits := Nat.zero_le _
        apart := hempty.trans (Nat.mod_eq_of_lt h.inside).symm
        bytes := by
          show channel.transmitted.drop channel.transmitted.length ++ [] = _
          rw [List.drop_length]
          rfl
        counted := fun hne => absurd rfl hne
        early := fun _ => List.drop_length
        few := Nat.zero_le _
        count := Nat.zero_le _
        admitted := nofun
        cause := nofun
        waits := fun _ => rfl }
  returned := h.returned

theorem zero_ok (h : ChannelOk channel) (hcall : channel.call = some call)
    (hphase : call.phase = .entered) :
    ChannelOk ({ channel with countWr := 0 }.moveTo call .copying) where
  inside := h.inside
  status hw := absurd hw (h.not_write hcall (by rw [hphase]; rfl))
  call call' hcall' := by
    cases hcall'
    have hok := h.call call hcall
    have hsent := hok.early (by rw [hphase]; rfl)
    exact
      { entered := hok.entered
        fits := hok.fits
        apart := hok.apart
        bytes := hok.bytes
        counted := fun _ => (congrArg List.length hsent).symm
        early := fun _ => hsent
        few := hok.few
        count := hok.count
        admitted := nofun
        cause := hok.cause
        waits := fun _ => hok.waits (by rw [hphase]; rfl) }
  returned := h.returned

theorem CallOk.nbBytes_eq (h : CallOk channel call) (hearly : call.phase.early = true) :
    channel.nbBytes.toNat = call.i := by
  have hlen := congrArg List.length h.bytes
  rwa [h.early hearly, List.nil_append, Channel.ring, length_held, length_firstBytes] at hlen

theorem room_toNat (h : channel.nbBytes.toNat ≤ MAX_CHAR) :
    channel.room.toNat = MAX_CHAR - channel.nbBytes.toNat := by
  unfold MAX_CHAR at h ⊢
  simp only [Channel.room, MAX_CHAR, BitVec.toNat_sub, BitVec.toNat_ofNat]
  omega

theorem test_ok (h : ChannelOk channel) (hcall : channel.call = some call)
    (hphase : call.phase = .copying) :
    ChannelOk (channel.moveTo call
      (if (call.i : Int) < call.count ∧ call.i ≤ channel.room.toNat then .admitted
      else .copied)) := by
  have hok := h.call call hcall
  have hearly : call.phase.early = true := by
    rw [hphase]
    rfl
  have hne : call.phase ≠ .entered := by
    rw [hphase]
    decide
  have hnot : call.phase.writes ≠ true := by
    rw [hphase]
    decide
  have hover : call.phase.past = false := by
    rw [hphase]
    rfl
  split
  · next hpass =>
    refine h.moveTo hcall hne (fun _ => hearly) (fun _ => ⟨?_, hpass.1⟩) (absurd · hnot)
      fun _ => hover
    have hroom := room_toNat hok.fits
    have hnb := hok.nbBytes_eq hearly
    have hi := hpass.2
    unfold MAX_CHAR at hroom
    omega
  · exact h.moveTo hcall hne (fun _ => hearly) nofun (absurd · hnot) fun _ => hover

theorem copy_ok (h : ChannelOk channel) (hcall : channel.call = some call)
    (hphase : call.phase = .admitted) :
    ChannelOk ((channel.copyByte (call.buf call.i)).moveTo { call with i := call.i + 1 }
      .copying) where
  inside := h.inside
  status hw := absurd hw (h.not_write hcall (by rw [hphase]; rfl))
  call call' hcall' := by
    cases hcall'
    have hok := h.call call hcall
    have hearly : call.phase.early = true := by
      rw [hphase]
      rfl
    have hsent := hok.early hearly
    have hnb := hok.nbBytes_eq hearly
    obtain ⟨hfew, hcount⟩ := hok.admitted hphase
    have hsucc := toNat_succ hok.fits
    have hroom : channel.nbBytes.toNat < MAX_CHAR := by
      unfold MAX_CHAR
      omega
    exact
      { entered := hok.entered
        fits := by
          show (channel.nbBytes + 1).toNat ≤ MAX_CHAR
          omega
        apart := by
          show (channel.pointerRead + 1) % MAX_CHAR =
            (channel.pointerWrite + (channel.nbBytes + 1).toNat) % MAX_CHAR
          rw [hok.apart, hsucc, Nat.mod_add_mod, Nat.add_assoc]
        bytes := by
          show channel.sent call ++
            held MAX_CHAR (Function.update channel.buffer channel.pointerRead (call.buf call.i))
              channel.pointerWrite (channel.nbBytes + 1).toNat = firstBytes (call.i + 1) call.buf
          rw [hsucc, hok.apart, held_push _ _ _ hroom, ← List.append_assoc, firstBytes_succ]
          exact congrArg (· ++ [call.buf call.i]) hok.bytes
        counted := fun _ => hok.counted (by rw [hphase]; decide)
        early := fun _ => hsent
        few := Nat.succ_le_succ hfew
        count := by
          show call.i + 1 ≤ call.count.toNat
          omega
        admitted := nofun
        cause := hok.cause
        waits := fun _ => hok.waits (by rw [hphase]; rfl) }
  returned := h.returned

theorem same_startTx : SameBytes channel (channel.startTx boardId) := by
  unfold Channel.startTx
  dsimp only
  split
  · exact (((same_status .write).trans quiet_cr.toSameBytes).trans quiet_cr.toSameBytes).trans
      quiet_cr.toSameBytes
  · exact ((same_status .write).trans quiet_cr.toSameBytes).trans quiet_cr.toSameBytes

theorem start_ok (h : ChannelOk channel) (hcall : channel.call = some call)
    (hphase : call.phase = .copied) :
    ChannelOk ((channel.startTx boardId).moveTo call .testing) where
  inside := by
    show (channel.startTx boardId).pointerWrite < MAX_CHAR
    rw [same_startTx.pointerWrite]
    exact h.inside
  status _ := ⟨_, rfl, rfl⟩
  call call' hcall' := by
    cases hcall'
    exact ((h.call call hcall).same same_startTx rfl).moveTo (by rw [hphase]; decide) nofun nofun
      fun _ => by rw [hphase]; rfl
  returned := by
    show ∀ r ∈ (channel.startTx boardId).returned, ReturnedOk r
    rw [same_startTx.returned]
    exact h.returned

theorem finish_ok (h : ChannelOk channel) (hcall : channel.call = some call)
    (hentered : call.phase ≠ .entered) {cause : Cause} (hcause : cause ≠ .flag false) :
    ChannelOk (channel.finish call cause) where
  inside := h.inside
  status _ := ⟨_, rfl, rfl⟩
  call call' hcall' := by
    cases hcall'
    have hok := h.call call hcall
    exact
      { entered := hok.entered
        fits := hok.fits
        apart := hok.apart
        bytes := hok.bytes
        counted := fun _ => hok.counted hentered
        early := nofun
        few := hok.few
        count := hok.count
        admitted := nofun
        cause := fun heq => hcause (Option.some.inj heq)
        waits := nofun }
  returned := h.returned

theorem startTx_announced : (channel.startTx boardId).announced = channel.announced := by
  unfold Channel.startTx
  dsimp only
  split <;> rfl

theorem endTx_announced : (channel.endTx boardId).announced = channel.announced := by
  unfold Channel.endTx
  dsimp only
  split <;> rfl

theorem quiet_endTx : Quiet channel (channel.endTx boardId) := by
  have hread : Quiet channel { channel with status := .read } := ⟨same_status .read, nofun⟩
  unfold Channel.endTx
  dsimp only
  split
  · exact (hread.trans quiet_cr).trans quiet_cr
  · exact hread

theorem stop_ok (h : ChannelOk channel) (hcall : channel.call = some call)
    (hphase : call.phase = .cleared) :
    ChannelOk ((channel.endTx boardId).moveTo call .stopped) where
  inside := (h.quiet quiet_endTx).inside
  status hw := by
    have hread : (channel.endTx boardId).status = .read := by
      unfold Channel.endTx
      dsimp only
      split <;> rfl
    cases hread.symm.trans hw
  call call' hcall' := by
    cases hcall'
    exact ((h.call call hcall).same quiet_endTx.toSameBytes rfl).moveTo (by rw [hphase]; decide)
      nofun nofun nofun
  returned := (h.quiet quiet_endTx).returned

theorem giveBack_ok (h : ChannelOk channel) (hcall : channel.call = some call)
    (hphase : call.phase = .stopped) : ChannelOk (channel.giveBack call) where
  inside := h.inside
  status hw := absurd hw (h.not_write hcall (by rw [hphase]; rfl))
  call := nofun
  returned r hr := by
    rcases List.mem_append.mp hr with hr | hr
    · exact h.returned r hr
    · obtain rfl := List.mem_singleton.mp hr
      have hok := h.call call hcall
      have hcounted := hok.counted (by rw [hphase]; decide)
      obtain ⟨hlen, hsent⟩ := hok.sent
      have hfew := hok.few
      have hcount := hok.count
      have hvalue : channel.countWr.toInt = channel.countWr.toNat :=
        BitVec.toInt_eq_toNat_of_lt (by omega)
      constructor
      · intro _
        show channel.sent call = firstBytes channel.countWr.toInt.toNat call.buf
        rw [hvalue, Int.toNat_natCast, hcounted]
        exact hsent
      · show channel.countWr.toInt ≤ call.count.toNat
        omega
      · exact hok.cause

theorem free_ok (h : ChannelOk channel) (hnone : channel.call = none) :
    ChannelOk channel.freeChannel where
  inside := (by decide : 0 < MAX_CHAR)
  status := nofun
  call call hcall := by
    cases hnone.symm.trans hcall
  returned := h.returned

end

/-! ## Steps -/

section

variable {board board' : Board} {c : Chan} {channel : Channel} {call : Call} {phase : Phase}

theorem callIn_eq_some (h : board.callIn c phase = some call) :
    (board.channels c).call = some call ∧ call.phase = phase := by
  obtain ⟨hcall, hphase⟩ := Option.filter_eq_some_iff.mp h
  exact ⟨hcall, of_decide_eq_true hphase⟩

theorem setChannel_self : (board.setChannel c channel).channels c = channel :=
  Function.update_self ..

theorem setChannel_of_ne {c' : Chan} (h : c' ≠ c) :
    (board.setChannel c channel).channels c' = board.channels c' :=
  Function.update_of_ne h ..

theorem BoardOk.setChannel (h : BoardOk board) (hok : ChannelOk channel)
    (hflag : board.write = true → ∀ call, channel.call = some call → call.cause = none →
      channel.announced = true) :
    BoardOk (board.setChannel c channel) where
  channel c' := by
    by_cases hc : c' = c
    · subst hc
      rw [setChannel_self]
      exact hok
    · rw [setChannel_of_ne hc]
      exact h.channel c'
  flag hw c' := by
    by_cases hc : c' = c
    · subst hc
      rw [setChannel_self]
      exact hflag hw
    · rw [setChannel_of_ne hc]
      exact h.flag hw c'

theorem BoardOk.moveTo (h : BoardOk board) (hcall : (board.channels c).call = some call)
    {call' : Call} (hok : ChannelOk (channel.moveTo call' phase))
    (hcause : call'.cause = call.cause)
    (hannounced : channel.announced = (board.channels c).announced) :
    BoardOk (board.setChannel c (channel.moveTo call' phase)) := by
  refine h.setChannel hok fun hw call'' heq hnone => ?_
  cases heq
  exact hannounced.trans (h.flag hw c call hcall (hcause.symm.trans hnone))

theorem BoardOk.cause_ne (h : BoardOk board) (hcall : (board.channels c).call = some call)
    (hnone : call.cause = none) : board.cause c ≠ .flag false := by
  unfold Board.cause
  split
  · next hw =>
    rw [h.flag hw c call hcall hnone]
    nofun
  · nofun

theorem BoardOk.finish (h : BoardOk board) (hcall : (board.channels c).call = some call)
    (hentered : call.phase ≠ .entered) (hover : call.phase.past = false) :
    BoardOk (board.setChannel c ((board.channels c).finish call (board.cause c))) := by
  have hnone := ((h.channel c).call call hcall).waits hover
  refine h.setChannel (finish_ok (h.channel c) hcall hentered (h.cause_ne hcall hnone)) ?_
  rintro - _ heq hnone'
  cases heq
  cases hnone'

theorem interrupt_ok (h : BoardOk board) {isr sr : Byte}
    (hok : Ok board (.interrupt c isr sr)) (hs : board.next (.interrupt c isr sr) = some board') :
    BoardOk board' := by
  cases hs
  have hirq : ChannelOk ((board.channels c).irq board.boardId c isr sr).1 := (h.channel c).irq
  have hquiet (announced : Bool) {channel : Channel} (hch : ChannelOk channel) :
      ChannelOk { channel with announced := announced } :=
    hch.quiet ⟨⟨rfl, rfl, rfl, rfl, rfl, rfl, rfl, rfl⟩, id⟩
  constructor
  · intro c'
    by_cases hc : c' = c
    · subst hc
      show ChannelOk ((board.setChannel c' _).channels c')
      rw [setChannel_self]
      exact hquiet _ hirq
    · show ChannelOk ((board.setChannel c _).channels c')
      rw [setChannel_of_ne hc]
      exact h.channel c'
  · intro hw c' call hcall hnone
    by_cases hc : c' = c
    · subst hc
      change ((board.setChannel c' _).channels c').call = some call at hcall
      show ((board.setChannel c' _).channels c').announced = true
      rw [setChannel_self] at hcall ⊢
      rcases Bool.or_eq_true_iff.mp hw with hold | hsets
      · obtain ⟨call', hcall', hawake⟩ := call_of_awake irq_awake hcall
        have hcause := congrArg Call.cause hawake
        exact Bool.or_eq_true_iff.mpr (.inl (h.flag hold c' call' hcall' (hcause.symm.trans hnone)))
      · exact Bool.or_eq_true_iff.mpr (.inr hsets)
    · change ((board.setChannel c _).channels c').call = some call at hcall
      show ((board.setChannel c _).channels c').announced = true
      rw [setChannel_of_ne hc] at hcall ⊢
      rcases Bool.or_eq_true_iff.mp hw with hold | hsets
      · exact h.flag hold c' call hcall hnone
      · exact absurd hnone (hok (irq_announces hsets) c' hc call hcall)

theorem clear_ok (h : BoardOk board) (hcall : (board.channels c).call = some call)
    (hphase : call.phase = .ended) :
    BoardOk { board with
      write := false
      channels := fun c' =>
        { Function.update board.channels c ((board.channels c).moveTo call .cleared) c' with
          announced := false } } := by
  have hquiet {channel : Channel} (hch : ChannelOk channel) :
      ChannelOk { channel with announced := false } :=
    hch.quiet ⟨⟨rfl, rfl, rfl, rfl, rfl, rfl, rfl, rfl⟩, id⟩
  refine ⟨fun c' => hquiet ?_, nofun⟩
  by_cases hc : c' = c
  · subst hc
    rw [Function.update_self]
    exact (h.channel c').moveTo hcall (by rw [hphase]; decide) nofun nofun (fun _ => rfl) nofun
  · rw [Function.update_of_ne hc]
    exact h.channel c'

theorem board_step {e : Event} (h : BoardOk board) (hok : Ok board e)
    (hs : board.next e = some board') : BoardOk board' := by
  cases e with
  | enter c buf count =>
    simp only [Board.next] at hs
    split at hs
    · next hnone =>
      cases hs
      refine h.setChannel (enter_ok (h.channel c) hnone hok.2 buf count) fun hw => ?_
      exact absurd (hok.1.symm.trans hw) nofun
    · cases hs
  | zero c =>
    simp only [Board.next, Option.bind_eq_bind, Option.bind_eq_some_iff] at hs
    obtain ⟨call, hin, hs⟩ := hs
    obtain ⟨hcall, hphase⟩ := callIn_eq_some hin
    cases hs
    exact h.moveTo hcall (zero_ok (h.channel c) hcall hphase) rfl rfl
  | test c =>
    simp only [Board.next, Option.bind_eq_bind, Option.bind_eq_some_iff] at hs
    obtain ⟨call, hin, hs⟩ := hs
    obtain ⟨hcall, hphase⟩ := callIn_eq_some hin
    cases hs
    exact h.moveTo hcall (test_ok (h.channel c) hcall hphase) rfl rfl
  | copy c =>
    simp only [Board.next, Option.bind_eq_bind, Option.bind_eq_some_iff] at hs
    obtain ⟨call, hin, hs⟩ := hs
    obtain ⟨hcall, hphase⟩ := callIn_eq_some hin
    cases hs
    exact h.moveTo hcall (copy_ok (h.channel c) hcall hphase) rfl rfl
  | start c =>
    simp only [Board.next, Option.bind_eq_bind, Option.bind_eq_some_iff] at hs
    obtain ⟨call, hin, hs⟩ := hs
    obtain ⟨hcall, hphase⟩ := callIn_eq_some hin
    cases hs
    exact h.moveTo hcall (start_ok (h.channel c) hcall hphase) rfl startTx_announced
  | check c =>
    simp only [Board.next, Option.bind_eq_bind, Option.bind_eq_some_iff] at hs
    obtain ⟨call, hcall, phase, hphase, hs⟩ := hs
    obtain ⟨hentered, hover, hearly, hadmitted, hwrites, hover'⟩ := Phase.unset_spec hphase
    split at hs
    · cases hs
      exact h.finish hcall hentered hover
    · cases hs
      refine h.moveTo hcall ?_ rfl rfl
      exact (h.channel c).moveTo hcall hentered (fun he => absurd (hearly.symm.trans he) nofun)
        (fun ha => absurd ha hadmitted) (fun _ => hwrites) fun _ => hover
  | prepare c =>
    simp only [Board.next, Option.bind_eq_bind, Option.bind_eq_some_iff] at hs
    obtain ⟨call, hin, hs⟩ := hs
    obtain ⟨hcall, hphase⟩ := callIn_eq_some hin
    cases hs
    refine h.moveTo hcall ?_ rfl rfl
    exact (h.channel c).moveTo hcall (by rw [hphase]; decide) nofun nofun (fun _ => rfl)
      fun _ => by rw [hphase]; rfl
  | signal c =>
    simp only [Board.next, Option.bind_eq_bind, Option.bind_eq_some_iff] at hs
    obtain ⟨call, hin, hs⟩ := hs
    obtain ⟨hcall, hinterruptible⟩ := Option.filter_eq_some_iff.mp hin
    obtain ⟨hentered, hover⟩ := Phase.interruptible_spec hinterruptible
    cases hs
    exact h.finish hcall hentered hover
  | clear c =>
    simp only [Board.next, Option.bind_eq_bind, Option.bind_eq_some_iff] at hs
    obtain ⟨call, hin, hs⟩ := hs
    obtain ⟨hcall, hphase⟩ := callIn_eq_some hin
    cases hs
    exact clear_ok h hcall hphase
  | stop c =>
    simp only [Board.next, Option.bind_eq_bind, Option.bind_eq_some_iff] at hs
    obtain ⟨call, hin, hs⟩ := hs
    obtain ⟨hcall, hphase⟩ := callIn_eq_some hin
    cases hs
    exact h.moveTo hcall (stop_ok (h.channel c) hcall hphase) rfl endTx_announced
  | giveBack c =>
    simp only [Board.next, Option.bind_eq_bind, Option.bind_eq_some_iff] at hs
    obtain ⟨call, hin, hs⟩ := hs
    obtain ⟨hcall, hphase⟩ := callIn_eq_some hin
    cases hs
    exact h.setChannel (giveBack_ok (h.channel c) hcall hphase) nofun
  | interrupt c isr sr => exact interrupt_ok h hok hs
  | free c =>
    simp only [Board.next] at hs
    split at hs
    · next hnone =>
      cases hs
      refine h.setChannel (free_ok (h.channel c) hnone) fun _ call hcall => ?_
      cases hnone.symm.trans hcall
    · cases hs

end

/-! ## Runs -/

theorem board_init (boardId : Byte) : BoardOk { boardId } where
  channel _ :=
    { inside := (by decide : 0 < MAX_CHAR)
      status := nofun
      call := nofun
      returned := nofun }
  flag := nofun

theorem board_invariant : (ipoctal.guarded Ok).Invariant BoardOk where
  init := by
    rintro _ ⟨boardId, rfl⟩
    exact board_init boardId
  step h hs := board_step h hs.1 hs.2

def callOfOne (value : Byte) : List Event :=
  [.enter 0 (fun _ => value) 1, .zero 0, .test 0, .copy 0, .test 0, .start 0, .check 0, .prepare 0]

def leftOver : List Event :=
  callOfOne 0x41 ++ [.signal 0, .clear 0, .stop 0, .giveBack 0] ++ callOfOne 0x42 ++
    [.interrupt 0 0x01 0x04, .check 0, .clear 0, .stop 0, .giveBack 0]

theorem leftOver_sent :
    ((leftOver.foldlM Board.next { boardId := 0x22 }).map fun board =>
      (board.channels 0).returned.map fun r => (r.value, r.sent, r.buf 0)) =
        some [(0, [], 0x41), (1, [0x41], 0x42)] := by
  decide +kernel

end Coht.Ipoctal
