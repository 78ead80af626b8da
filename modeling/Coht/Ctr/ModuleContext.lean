import Mathlib.Logic.Function.Basic

/-!
# The context and the memory map of a CTR module (`ctrdrvrP.h`, `ctrhard.h`)

A timing receiver has a table of `CtrDrvrRamTableSIZE` triggers. Its trigger
and the counter configuration of a slot are in the memory of the module, in
packed form, and again in `CtrDrvrModuleContext`, unpacked; only the context
says which timing object has the slot and which clients are connected to it.

`map` is the memory map, one word after the other, as `RAW_WRITE` sees it.
Everything that is written to a module goes through `HWr()` or `HWrJtag()` and
is noted in `wrote`, the last write first.
-/

namespace Coht.Ctr

abbrev U32 := BitVec 32

def CtrDrvrCLIENT_CONTEXTS : Nat := 16
def CtrDrvrMODULE_CONTEXTS : Nat := 16
def CtrDrvrRamTableSIZE : Nat := 2048
def CtrDrvrInterruptSOURCES : Nat := 14
def CtrDrvrCOUNTERS : Nat := 9

/-- `CtrDrvrConnectionClass`. A caller can pass any number for it. -/
inductive CtrDrvrConnectionClass
  | HARD | CTIM | PTIM | other (n : U32)
  deriving DecidableEq

/-- `Frame.Long` is kept; the bytes of `Frame.Struct` are parts of it. -/
structure CtrDrvrEventFrame where
  long : U32 := 0
  deriving DecidableEq

def CtrDrvrEventFrame.header (frame : CtrDrvrEventFrame) : BitVec 8 :=
  frame.long.extractLsb' 24 8

/-- `Frame.Struct.Value = value` -/
def CtrDrvrEventFrame.setValue (frame : CtrDrvrEventFrame) (value : U32) :
    CtrDrvrEventFrame :=
  ⟨frame.long.extractLsb' 16 16 ++ value.extractLsb' 0 16⟩

structure CtrDrvrTgmGroup where
  groupNumber : BitVec 16 := 0
  groupValue : BitVec 16 := 0
  deriving DecidableEq

structure CtrDrvrTrigger where
  ctim : U32 := 0
  frame : CtrDrvrEventFrame := {}
  triggerCondition : U32 := 0
  machine : U32 := 0
  counter : U32 := 0
  group : CtrDrvrTgmGroup := {}
  deriving DecidableEq

structure CtrDrvrCounterConfiguration where
  onZero : U32 := 0
  start : U32 := 0
  mode : U32 := 0
  clock : U32 := 0
  pulsWidth : U32 := 0
  delay : U32 := 0
  deriving DecidableEq

def CtrDrvrCounterOnZeroBUS : U32 := 1

structure CtrDrvrPll where
  error : U32 := 0
  integrator : U32 := 0
  dac : U32 := 0
  lastItLen : U32 := 0
  phase : U32 := 1950
  numAverage : U32 := 100
  kp : U32 := 337326
  ki : U32 := 901
  deriving DecidableEq

/-! ## The packed forms -/

/-- How far `AutoShiftLeft()` shifts: to the lowest bit of the mask. -/
def shiftOf (mask : U32) : Nat :=
  ((List.range 32).find? mask.getLsbD).getD 32

def autoShiftLeft (mask value : U32) : U32 := (value <<< shiftOf mask) &&& mask

def CtrDrvrTrigCONDITION_MASK : U32 := 0xC0000000
def CtrDrvrTrigMACHINE_MASK : U32 := 0x38000000
def CtrDrvrTrigCOUNTER_MASK : U32 := 0x07800000
def CtrDrvrTrigGROUP_NUMBER_MASK : U32 := 0x007F0000
def CtrDrvrTrigGROUP_VALUE_MASK : U32 := 0x0000FFFF

/-- The word `Trigger` of `TriggerToHard()`; its word `Frame` is the frame. -/
def triggerToHard (strg : CtrDrvrTrigger) : U32 :=
  autoShiftLeft CtrDrvrTrigGROUP_VALUE_MASK (strg.group.groupValue.setWidth 32) |||
  autoShiftLeft CtrDrvrTrigCONDITION_MASK strg.triggerCondition |||
  autoShiftLeft CtrDrvrTrigMACHINE_MASK strg.machine |||
  autoShiftLeft CtrDrvrTrigCOUNTER_MASK strg.counter |||
  autoShiftLeft CtrDrvrTrigGROUP_NUMBER_MASK (strg.group.groupNumber.setWidth 32)

def CtrDrvrCounterConfigON_ZERO_MASK : U32 := 0xC0000000
def CtrDrvrCounterConfigSTART_MASK : U32 := 0x38000000
def CtrDrvrCounterConfigMODE_MASK : U32 := 0x06000000
def CtrDrvrCounterConfigCLOCK_MASK : U32 := 0x01C00000
def CtrDrvrCounterConfigPULSE_WIDTH_MASK : U32 := 0x003FFFFF

/-- The word `Config` of `ConfigToHard()`; its word `Delay` is the delay. -/
def configToHard (scnf : CtrDrvrCounterConfiguration) : U32 :=
  autoShiftLeft CtrDrvrCounterConfigPULSE_WIDTH_MASK scnf.pulsWidth |||
  autoShiftLeft CtrDrvrCounterConfigCLOCK_MASK scnf.clock |||
  autoShiftLeft CtrDrvrCounterConfigMODE_MASK scnf.mode |||
  autoShiftLeft CtrDrvrCounterConfigSTART_MASK scnf.start |||
  autoShiftLeft CtrDrvrCounterConfigON_ZERO_MASK scnf.onZero

/-- The bit that `Connect()` and `DisConnectOne()` change. -/
def busBit : U32 :=
  autoShiftLeft CtrDrvrCounterConfigON_ZERO_MASK CtrDrvrCounterOnZeroBUS

/-! ## The memory map

The words of `CtrDrvrMemoryMap`, up to the last one the driver writes. -/

def mapInterruptEnable : Nat := 1
def mapHptdcJtag : Nat := 2
def mapInputDelay : Nat := 3
def mapOutputByte : Nat := 6
def mapCommand : Nat := 8
/-- eight words -/
def mapPll : Nat := 9
def mapSetTime : Nat := 20

/-- A `CtrDrvrFpgaCounter`: three words of control, eleven of history and two
of configuration. -/
def mapCounters (counter : Nat) : Nat := 21 + 16 * counter

def mapLockConfig (counter : Nat) : Nat := mapCounters counter
def mapRemOutMask (counter : Nat) : Nat := mapCounters counter + 2
def mapCounterConfig (counter : Nat) : Nat := mapCounters counter + 14

/-- The seven telegrams are before it. -/
def mapTrigs (i : Nat) : Nat := 389 + 2 * i

def mapConfigs (i : Nat) : Nat := 4485 + 2 * i

/-- The event history is before it. -/
def mapSetup : Nat := 12678

/-! ## The context -/

/-- What a write goes to: a word of the memory map or the port of the flash. -/
inductive Port
  | map (word : Nat)
  | jtag
  deriving DecidableEq

structure ModuleContext where
  inUse : Bool := false
  upLock : Bool := false
  /-- `Address.JTGAddress` is not `NULL` -/
  jtag : Bool := true
  /-- the level and the vector of `Address`, as they are written to `Setup` -/
  setup : U32 := 0
  outputByte : Nat := 0
  flashOpen : Bool := false
  hptdcOpen : Bool := false
  command : U32 := 0
  interruptEnable : U32 := 0
  inputDelay : U32 := 0
  pll : CtrDrvrPll := {}
  cableId : U32 := 0
  configs : Nat → CtrDrvrCounterConfiguration := fun _ => {}
  clients : Nat → U32 := fun _ => 0
  trigs : Nat → CtrDrvrTrigger := fun _ => {}
  eqpNum : Nat → U32 := fun _ => 0
  eqpClass : Nat → CtrDrvrConnectionClass := fun _ => .HARD
  hardClients : Nat → U32 := fun _ => 0
  map : Nat → U32 := fun _ => 0
  wrote : List (Port × U32) := []

namespace ModuleContext

variable (mcon : ModuleContext)

/-- `HWr(v, &mmap[word])` -/
def hWr (v : U32) (word : Nat) : ModuleContext :=
  { mcon with
    map := Function.update mcon.map word v
    wrote := (.map word, v) :: mcon.wrote }

/-- `HWrJtag(v, JTGAddress)` -/
def hWrJtag (v : U32) : ModuleContext :=
  { mcon with wrote := (.jtag, v) :: mcon.wrote }

/-- `Io32Write()` of the words to the memory map from `word` on. -/
def io32Write (word : Nat) : List U32 → ModuleContext → ModuleContext
  | [], mcon => mcon
  | v :: vs, mcon => io32Write (word + 1) vs (mcon.hWr v word)

def writeTrig (i : Nat) (strg : CtrDrvrTrigger) : ModuleContext :=
  mcon.io32Write (mapTrigs i) [strg.frame.long, triggerToHard strg]

def writeConfig (i : Nat) (scnf : CtrDrvrCounterConfiguration) : ModuleContext :=
  mcon.io32Write (mapConfigs i) [configToHard scnf, scnf.delay]

/-- The slots that have this object, in the order of the table. -/
def matching (eqpNum : U32) (eqpClass : CtrDrvrConnectionClass) : List Nat :=
  (List.range CtrDrvrRamTableSIZE).filter fun i =>
    mcon.eqpNum i = eqpNum ∧ mcon.eqpClass i = eqpClass

end ModuleContext

/-- `1 << ccon->ClientIndex` -/
def clientMask (c : Nat) : U32 := 1#32 <<< c

end Coht.Ctr
