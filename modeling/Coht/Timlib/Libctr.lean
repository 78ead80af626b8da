import Coht.Ctr.Inquiries
import Coht.Lib.Calls

/-!
# The CTR timing library (`libctr_common.c`)

A handle is a client of the driver, `c` is its number. The functions of the
library are made of `ioctl()` calls: one that fails makes the function return
-1, and what the calls before it did stays.

`ctr_set_ccv()` reads the action of an LTIM, edits the fields that are selected
and writes it back. The output mask and the polarity are not in the action; they
are written on the way, before it is known that the CTIM exists.
-/

namespace Coht.Timlib

open Coht.Lib Coht.Ctr

/-- Why a function of the library returns -1, or does not return. -/
inductive Failure
  /-- an `ioctl()` failed -/
  | ioctl (err : Errno)
  | ERANGE | ENODEV | EADDRNOTAVAIL | ENOTCONN
  /-- the driver does what C does not define -/
  | undefined
  deriving DecidableEq

abbrev Libctr := EStateM Failure WorkingArea

/-- `ioctl()` of a command that changes the driver. -/
def command (behind : Nat → Behind) (c : Nat) (cmd : Ioctl) : Libctr Unit := fun wa =>
  match wa.ioctl behind c cmd with
  | .returns wa' => .ok () wa'
  | .fails err => .error (.ioctl err) wa
  | .undefined => .error .undefined wa

/-- `ioctl()` of a command that reads. -/
def inquiry {α : Type} (c : Nat) (read : WorkingArea → Except Errno α) : Libctr α :=
  fun wa =>
    match wa.inquire c read with
    | .ok a => .ok a wa
    | .error err => .error (.ioctl err) wa

/-- The context of the module the client has selected. -/
def current (c : Nat) (wa : WorkingArea) : ModuleContext :=
  wa.moduleContexts (wa.selected c)

/-- The commands but for `DISCONNECT` do not look behind the tables. -/
def noMemory : Nat → Behind := fun _ _ => 0

/-! ## Settings -/

/-- `struct ctr_ccv_s` -/
structure CtrCcv where
  enable : U32 := 0
  start : U32 := 0
  mode : U32 := 0
  clock : U32 := 0
  pulseWidth : U32 := 0
  delay : U32 := 0
  counterMask : U32 := 0
  polarity : U32 := 0
  ctim : U32 := 0
  payload : U32 := 0
  cmpMethod : U32 := 0
  grnum : U32 := 0
  grval : U32 := 0
  tgnum : U32 := 0
  deriving DecidableEq

def CTR_CCV_ENABLE : U32 := 0x0001
def CTR_CCV_START : U32 := 0x0002
def CTR_CCV_MODE : U32 := 0x0004
def CTR_CCV_CLOCK : U32 := 0x0008
def CTR_CCV_PULSE_WIDTH : U32 := 0x0010
def CTR_CCV_DELAY : U32 := 0x0020
def CTR_CCV_COUNTER_MASK : U32 := 0x0040
def CTR_CCV_POLARITY : U32 := 0x0080
def CTR_CCV_CTIM : U32 := 0x0100
def CTR_CCV_PAYLOAD : U32 := 0x0200
def CTR_CCV_CMP_METHOD : U32 := 0x0400
def CTR_CCV_GRNUM : U32 := 0x0800
def CTR_CCV_GRVAL : U32 := 0x1000
def CTR_CCV_TGNUM : U32 := 0x2000

def CtrDrvrCounterOnZeroOUT : U32 := 2

/-- The new value if the field is selected. -/
def pick {α : Type} (fields field : U32) (new old : α) : α :=
  if fields &&& field ≠ 0 then new else old

/-- A bit of `OnZero` is set or cleared as it is in `enable`. -/
def copyBit (bit enable onZero : U32) : U32 :=
  if enable &&& bit ≠ 0 then onZero ||| bit else onZero &&& ~~~bit

/-- `Frame.Struct.Value` -/
def frameValue (frame : CtrDrvrEventFrame) : U32 := (frame.long.extractLsb' 0 16).setWidth 32

section

variable (ccv : CtrCcv) (fields : U32)

/-- The fields of the configuration that `ctr_set_ccv()` sets. -/
def setConfigFields (cnf : CtrDrvrCounterConfiguration) : CtrDrvrCounterConfiguration where
  onZero := pick fields CTR_CCV_ENABLE
    (copyBit CtrDrvrCounterOnZeroOUT ccv.enable
      (copyBit CtrDrvrCounterOnZeroBUS ccv.enable cnf.onZero)) cnf.onZero
  start := pick fields CTR_CCV_START ccv.start cnf.start
  mode := pick fields CTR_CCV_MODE ccv.mode cnf.mode
  clock := pick fields CTR_CCV_CLOCK ccv.clock cnf.clock
  pulsWidth := pick fields CTR_CCV_PULSE_WIDTH ccv.pulseWidth cnf.pulsWidth
  delay := pick fields CTR_CCV_DELAY ccv.delay cnf.delay

/-- The fields of the trigger, but for the CTIM. -/
def setTriggerFields (trg : CtrDrvrTrigger) : CtrDrvrTrigger :=
  { trg with
    frame := pick fields CTR_CCV_PAYLOAD (trg.frame.setValue ccv.payload) trg.frame
    triggerCondition := pick fields CTR_CCV_CMP_METHOD ccv.cmpMethod trg.triggerCondition
    group := {
      groupNumber := pick fields CTR_CCV_GRNUM (ccv.grnum.setWidth 16) trg.group.groupNumber
      groupValue := pick fields CTR_CCV_GRVAL (ccv.grval.setWidth 16) trg.group.groupValue }
    machine := pick fields CTR_CCV_TGNUM ccv.tgnum trg.machine }

def withMask (cmsb : CtrDrvrCounterMaskBuf) : CtrDrvrCounterMaskBuf :=
  { cmsb with mask := ccv.counterMask }

def withPolarity (cmsb : CtrDrvrCounterMaskBuf) : CtrDrvrCounterMaskBuf :=
  { cmsb with polarity := ccv.polarity }

/-- The output mask and the polarity are read, one of them is changed, and both
are written. -/
def editOutMask (c : Nat) (field : U32) (counter : Nat)
    (edit : CtrDrvrCounterMaskBuf → CtrDrvrCounterMaskBuf) : Libctr Unit :=
  if fields &&& field ≠ 0 then do
    let cmsb ← inquiry c fun wa => (current c wa).getOutMask counter
    command noMemory c (.control (.setOutMask counter (edit cmsb).mask
      ((edit cmsb).polarity = CtrDrvrPolarityTTL_BAR)))
  else pure ()

/-- The CTIM and its frame. -/
def setCtim (c : Nat) (trg : CtrDrvrTrigger) : Libctr CtrDrvrTrigger :=
  if fields &&& CTR_CCV_CTIM ≠ 0 then do
    let ctimo ← inquiry c fun wa => .ok wa.ctim
    match lookup (·.eqpNum) ccv.ctim ctimo with
    | some obj => pure { trg with ctim := ccv.ctim, frame := obj.frame }
    | none => throw .EADDRNOTAVAIL
  else pure trg

end

/-- `if (index >= ob.Size)`, as signed numbers. -/
def checkIndex (ob : CtrDrvrPtimBinding) (index : Int) : Libctr Unit :=
  if ob.size ≤ index then throw .ERANGE else pure ()

/-- `anm`, as it is stored in `TriggerNumber`. -/
def actionNumber (ob : CtrDrvrPtimBinding) (index : Int) : Nat :=
  (BitVec.ofInt 32 (ob.startIndex + index + 1)).toNat

/-- The binding of the LTIM, the module of which is selected, and the action. -/
def findAction (c : Nat) (ltim : U32) (index : Int) :
    Libctr (CtrDrvrPtimBinding × CtrDrvrAction) := do
  let ob ← inquiry c fun wa => wa.getPtimBinding ltim
  command noMemory c (.setModule (ob.moduleIndex + 1))
  checkIndex ob index
  let act ← inquiry c fun wa => (current c wa).getAction (actionNumber ob index)
  pure (ob, act)

/-- `ctr_set_ccv()` -/
def ctrSetCcv (c : Nat) (ltim : U32) (index : Int) (ccv : CtrCcv) (fields : U32) :
    Libctr Unit := do
  let (ob, act) ← findAction c ltim index
  let trg := { act.trigger with counter := ob.counter }
  let cnf := setConfigFields ccv fields act.config
  editOutMask fields c CTR_CCV_COUNTER_MASK ob.counter.toNat (withMask ccv)
  editOutMask fields c CTR_CCV_POLARITY ob.counter.toNat (withPolarity ccv)
  let trg ← setCtim ccv fields c trg
  command noMemory c (.setAction
    { act with trigger := setTriggerFields ccv fields trg, config := cnf })

/-- What `ctr_get_ccv()` takes from an action and an output mask. -/
def CtrCcv.of (act : CtrDrvrAction) (cmsb : CtrDrvrCounterMaskBuf) : CtrCcv where
  enable := act.config.onZero
  start := act.config.start
  mode := act.config.mode
  clock := act.config.clock
  pulseWidth := act.config.pulsWidth
  delay := act.config.delay
  counterMask := cmsb.mask
  polarity := cmsb.polarity
  ctim := act.trigger.ctim
  payload := frameValue act.trigger.frame
  cmpMethod := act.trigger.triggerCondition
  grnum := act.trigger.group.groupNumber.setWidth 32
  grval := act.trigger.group.groupValue.setWidth 32
  tgnum := act.trigger.machine

/-- `ctr_get_ccv()` -/
def ctrGetCcv (c : Nat) (ltim : U32) (index : Int) : Libctr CtrCcv := do
  let (ob, act) ← findAction c ltim index
  let cmsb ← inquiry c fun wa => (current c wa).getOutMask ob.counter.toNat
  pure (.of act cmsb)

end Coht.Timlib
