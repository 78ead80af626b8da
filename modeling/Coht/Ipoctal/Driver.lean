import Coht.Ipack.Ipoctal

/-!
# Writes to the channels of an IP-Octal board (`ipoctal_drvr.c`)

A call of `ipoctal_write_tty()` owns its channel: it copies its bytes into the ring of the
channel, switches the transmitter on and waits. The interrupt sends the bytes, and announces
the last one by a flag, `write`, that the eight channels share; each call clears it when its
wait is over. A signal may end the wait before, and an error interrupt only wakes the call
and stops the transmission.

`nb_bytes` and `count_wr` are set to zero by each call, the two pointers of the ring only when
the channel is freed.

Every access of a call to a field that the interrupts use is a step of its own, with the
registers that are written next to it, and so is each channel that the handler looks at. The
processes that wait for `lock_write` of a channel, or leave it because of a signal, change
nothing. Reception, the statistics and `error_flag` are left out.

`entered` is the number of bytes that the transmitter had got when the call came, and `cause`
is why its wait is over. `announced` says that an interrupt of the channel has set `write`
since the last call came, and that nobody has cleared it.
-/

namespace Coht.Ipoctal

open Coht.Lib
open Coht.Ipack (Byte Reg firstBytes CR_ENABLE_RX CR_DISABLE_RX CR_ENABLE_TX CR_DISABLE_TX
  CR_CMD_ASSERT_RTSN CR_CMD_NEGATE_RTSN SR_TX_READY SR_TX_EMPTY)

def MAX_CHAR : Nat := 256

abbrev NR_CHANNELS : Nat := 8

abbrev Chan := Fin NR_CHANNELS

def IP_OCTAL_485_ID : Byte := 0x48

def CR_CMD_RESET_ERR_STATUS : Byte := 0x40

def SR_ERROR : Byte := 0xf0

/-- `ISR_TxRDY_A` and `ISR_TxRDY_B` -/
def isrTxRdy (channel : Chan) : Byte := if channel.val % 2 = 1 then 0x10 else 0x01

inductive ChanStatus
  | close
  | opened
  | read
  | write
  deriving DecidableEq

/-- Where a call is in `ipoctal_write()`. -/
inductive Phase
  /-- `nb_bytes` is zero -/
  | entered
  | copying
  /-- the next byte has passed the test -/
  | admitted
  | copied
  /-- the transmitter is on; the first test of `write` -/
  | testing
  | preparing
  /-- on the queue, to test `write` again -/
  | queued
  /-- taken off the queue before the test -/
  | woken
  | asleep
  /-- the wait is over -/
  | ended
  | cleared
  | stopped
  deriving DecidableEq

namespace Phase

def onQueue : Phase → Bool
  | queued | asleep => true
  | _ => false

/-- A call that is woken leaves the queue. -/
def wake : Phase → Phase
  | queued => woken
  | asleep => preparing
  | phase => phase

/-- A test of `write` has found it not set. -/
def unset : Phase → Option Phase
  | testing | woken => some preparing
  | queued => some asleep
  | _ => none

def interruptible : Phase → Bool
  | queued | woken | asleep => true
  | _ => false

end Phase

inductive Cause
  | signal
  | flag (own : Bool)
  deriving DecidableEq

structure Call where
  buf : Nat → Byte
  count : Int
  i : Nat := 0
  phase : Phase := .entered
  entered : Nat
  cause : Option Cause := none

/-- A call that has returned, with the bytes that were sent since it came. -/
structure Returned where
  buf : Nat → Byte
  count : Int
  value : Int
  sent : List Byte
  cause : Option Cause

structure Channel where
  status : ChanStatus := .close
  nbBytes : BitVec 32 := 0
  countWr : BitVec 32 := 0
  pointerRead : Nat := 0
  pointerWrite : Nat := 0
  buffer : Nat → Byte := fun _ => 0
  /-- what was written to the registers -/
  wrote : List (Reg × Byte) := []
  call : Option Call := none
  announced : Bool := false
  returned : List Returned := []

namespace Channel

variable (channel : Channel)

def writeIoReg (reg : Reg) (value : Byte) : Channel :=
  { channel with wrote := channel.wrote ++ [(reg, value)] }

/-- The bytes given to the transmitter. -/
def transmitted : List Byte :=
  channel.wrote.filterMap fun (reg, value) => if reg = .thr then some value else none

/-- The bytes sent since a call came. -/
def sent (call : Call) : List Byte := channel.transmitted.drop call.entered

def ring : List Byte :=
  held MAX_CHAR channel.buffer channel.pointerWrite channel.nbBytes.toNat

/-- `waitqueue_active()` -/
def queueActive : Bool := channel.call.any fun call => call.phase.onQueue

/-- `wake_up_interruptible()` -/
def wakeUp : Channel :=
  { channel with call := channel.call.map fun call => { call with phase := call.phase.wake } }

/-! ### The interrupt -/

/-- An RS-485 board has sent all bytes. -/
def irqEmpty (boardId sr : Byte) : Channel × Bool :=
  if boardId = IP_OCTAL_485_ID ∧ sr &&& SR_TX_EMPTY ≠ 0 ∧ channel.nbBytes = 0 then
    ((((channel.writeIoReg .cr CR_DISABLE_TX).writeIoReg .cr CR_CMD_NEGATE_RTSN).writeIoReg
      .cr CR_ENABLE_RX).wakeUp, true)
  else (channel, false)

/-- The locked section. -/
def sendByte : Channel :=
  { channel.writeIoReg .thr (channel.buffer channel.pointerWrite) with
    countWr := channel.countWr + 1
    pointerWrite := (channel.pointerWrite + 1) % MAX_CHAR
    nbBytes := channel.nbBytes - 1 }

/-- What comes after a byte has been sent. -/
def irqLast (boardId : Byte) : Channel × Bool :=
  if channel.nbBytes = 0 ∧ channel.queueActive = true then
    if boardId ≠ IP_OCTAL_485_ID then (channel.wakeUp, true)
    else ({ channel with status := .opened }, false)
  else (channel, false)

def irqError (sr : Byte) : Channel :=
  if sr &&& SR_ERROR ≠ 0 then
    let channel := channel.writeIoReg .cr CR_CMD_RESET_ERR_STATUS
    if channel.queueActive then { channel with status := .opened }.wakeUp else channel
  else channel

/-- The handler asks the channel to transmit. -/
def TxReady (c : Chan) (isr sr : Byte) : Prop :=
  isr &&& isrTxRdy c ≠ 0 ∧ sr &&& SR_TX_READY ≠ 0 ∧ channel.status = .write

instance (c : Chan) (isr sr : Byte) : Decidable (channel.TxReady c isr sr) :=
  inferInstanceAs (Decidable (_ ∧ _ ∧ _))

/-- One channel in `ipoctal_irq_handler()`, for what is read in the registers `isr` and `sr`,
and whether `write` is set. A channel with nothing to send is left without a look at its
errors. -/
def irq (boardId : Byte) (c : Chan) (isr sr : Byte) : Channel × Bool :=
  let (channel, empty) := channel.irqEmpty boardId sr
  if channel.TxReady c isr sr then
    if channel.nbBytes = 0 then (channel, empty)
    else
      let (channel, last) := channel.sendByte.irqLast boardId
      (channel.irqError sr, empty || last)
  else (channel.irqError sr, empty)

/-! ### The call -/

def moveTo (call : Call) (phase : Phase) : Channel :=
  { channel with call := some { call with phase := phase } }

/-- `MAX_CHAR - ipoctal->nb_bytes[channel]` -/
def room : BitVec 32 := BitVec.ofNat 32 MAX_CHAR - channel.nbBytes

/-- The locked section of `ipoctal_copy_write_buffer()`. -/
def copyByte (value : Byte) : Channel :=
  { channel with
    buffer := Function.update channel.buffer channel.pointerRead value
    pointerRead := (channel.pointerRead + 1) % MAX_CHAR
    nbBytes := channel.nbBytes + 1 }

/-- Half-duplex: the receiver goes off. -/
def startTx (boardId : Byte) : Channel :=
  let channel := { channel with status := .write }.writeIoReg .cr CR_DISABLE_RX
  let channel :=
    if boardId = IP_OCTAL_485_ID then channel.writeIoReg .cr CR_CMD_ASSERT_RTSN else channel
  channel.writeIoReg .cr CR_ENABLE_TX

def endTx (boardId : Byte) : Channel :=
  let channel := { channel with status := .read }
  if boardId ≠ IP_OCTAL_485_ID then
    (channel.writeIoReg .cr CR_DISABLE_TX).writeIoReg .cr CR_ENABLE_RX
  else channel

def finish (call : Call) (cause : Cause) : Channel :=
  { channel with call := some { call with phase := .ended, cause := some cause } }

/-- The call returns `count_wr`. -/
def giveBack (call : Call) : Channel :=
  { channel with
    call := none
    returned := channel.returned ++
      [{ buf := call.buf, count := call.count, value := channel.countWr.toInt,
         sent := channel.sent call, cause := call.cause }] }

/-- `ipoctal_free_channel()` -/
def freeChannel : Channel :=
  { channel with status := .close, pointerRead := 0, pointerWrite := 0, nbBytes := 0 }

end Channel

structure Board where
  boardId : Byte
  write : Bool := false
  channels : Chan → Channel := fun _ => {}

/-- The steps of the call on a channel, one look of the handler at a channel, and the last
close of a channel, which comes when nobody writes to it. -/
inductive Event
  | enter (c : Chan) (buf : Nat → Byte) (count : Int)
  | zero (c : Chan)
  | test (c : Chan)
  | copy (c : Chan)
  | start (c : Chan)
  | check (c : Chan)
  | prepare (c : Chan)
  | signal (c : Chan)
  | clear (c : Chan)
  | stop (c : Chan)
  | giveBack (c : Chan)
  | interrupt (c : Chan) (isr sr : Byte)
  | free (c : Chan)

namespace Board

variable (board : Board)

def setChannel (c : Chan) (channel : Channel) : Board :=
  { board with channels := Function.update board.channels c channel }

/-- The call on a channel, if it has come to a phase. -/
def callIn (c : Chan) (phase : Phase) : Option Call :=
  (board.channels c).call.filter fun call => call.phase = phase

/-- The flag as a call finds it at the end of its wait. -/
def cause (c : Chan) : Cause :=
  if board.write then .flag (board.channels c).announced else .signal

def next : Event → Option Board
  | .enter c buf count =>
    let channel := board.channels c
    match channel.call with
    | none =>
      some (board.setChannel c
        { channel with
          nbBytes := 0
          announced := false
          call := some { buf, count, entered := channel.transmitted.length } })
    | some _ => none
  | .zero c => do
      let call ← board.callIn c .entered
      some (board.setChannel c ({ board.channels c with countWr := 0 }.moveTo call .copying))
  | .test c => do
      let channel := board.channels c
      let call ← board.callIn c .copying
      some (board.setChannel c (channel.moveTo call
        (if (call.i : Int) < call.count ∧ call.i ≤ channel.room.toNat then .admitted
        else .copied)))
  | .copy c => do
      let call ← board.callIn c .admitted
      some (board.setChannel c (((board.channels c).copyByte (call.buf call.i)).moveTo
        { call with i := call.i + 1 } .copying))
  | .start c => do
      let call ← board.callIn c .copied
      some (board.setChannel c (((board.channels c).startTx board.boardId).moveTo call .testing))
  | .check c => do
      let channel := board.channels c
      let call ← channel.call
      let phase ← call.phase.unset
      some (board.setChannel c
        (if board.write then channel.finish call (board.cause c) else channel.moveTo call phase))
  | .prepare c => do
      let call ← board.callIn c .preparing
      some (board.setChannel c ((board.channels c).moveTo call .queued))
  | .signal c => do
      let channel := board.channels c
      let call ← channel.call.filter fun call => call.phase.interruptible
      some (board.setChannel c (channel.finish call (board.cause c)))
  | .clear c => do
      let call ← board.callIn c .ended
      some { board with
        write := false
        channels := fun c' =>
          { Function.update board.channels c ((board.channels c).moveTo call .cleared) c' with
            announced := false } }
  | .stop c => do
      let call ← board.callIn c .cleared
      some (board.setChannel c (((board.channels c).endTx board.boardId).moveTo call .stopped))
  | .giveBack c => do
      let call ← board.callIn c .stopped
      some (board.setChannel c ((board.channels c).giveBack call))
  | .interrupt c isr sr =>
    let (channel, write) := (board.channels c).irq board.boardId c isr sr
    let announced := (board.channels c).announced || write
    some { board.setChannel c { channel with announced } with write := board.write || write }
  | .free c =>
    match (board.channels c).call with
    | none => some (board.setChannel c (board.channels c).freeChannel)
    | some _ => none

end Board

/-- The board after its installation. -/
def ipoctal : System Board Event where
  init board := ∃ boardId, board = { boardId }
  step board e board' := board.next e = some board'

/-! ## What should hold, and when it does -/

/-- A call that has returned got what its value says sent, and ended its wait because of
its own channel or a signal. -/
structure ReturnedOk (r : Returned) : Prop where
  sent : 0 ≤ r.value → r.sent = firstBytes r.value.toNat r.buf
  count : r.value ≤ r.count.toNat
  cause : r.cause ≠ some (.flag false)

/-- Of the bytes sent since a call came, all are its own. -/
structure CallSound (channel : Channel) (call : Call) : Prop where
  sent : ∃ k : Nat, k ≤ call.count.toNat ∧ channel.sent call = firstBytes k call.buf
  cause : call.cause ≠ some (.flag false)

structure Sound (board : Board) : Prop where
  returned : ∀ c, ∀ r ∈ (board.channels c).returned, ReturnedOk r
  call : ∀ c call, (board.channels c).call = some call → CallSound (board.channels c) call

/-- What makes the handler set `write`: on RS-485 that there is nothing to send, else that it
sends the last byte of a call that is on its queue. -/
def Announces (boardId : Byte) (channel : Channel) (c : Chan) (isr sr : Byte) : Prop :=
  if boardId = IP_OCTAL_485_ID then sr &&& SR_TX_EMPTY ≠ 0 ∧ channel.nbBytes = 0
  else channel.TxReady c isr sr ∧ channel.nbBytes = 1 ∧ channel.queueActive = true

/-- A call comes when `write` is not set and nothing has been left in its ring, and an
interrupt sets `write` while no call on another channel waits for it or is going to. -/
def Ok (board : Board) : Event → Prop
  | .enter c _ _ =>
    board.write = false ∧
      (board.channels c).pointerRead = (board.channels c).pointerWrite
  | .interrupt c isr sr =>
    Announces board.boardId (board.channels c) c isr sr →
      ∀ c', c' ≠ c → ∀ call, (board.channels c').call = some call → call.cause ≠ none
  | _ => True

end Coht.Ipoctal
