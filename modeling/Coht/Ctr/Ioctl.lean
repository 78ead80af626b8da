import Coht.Ctr.Connect
import Coht.Lib.KeyedList
import Coht.Lib.FirstFit

/-!
# The control functions of the CTR driver (`ctrdrvr-vme.c`)

`CtrDrvrIoctl()` works for a client on the module the client has selected. It
breaks off with `EINVAL` at an update lock, where the command tests for it, and
at arguments it does not accept. CTIM objects belong to the driver; PTIM
objects belong to the driver and to the module that `ModuleIndex` of the
argument names, whichever module is selected.

A request that fails leaves everything as it was. `undefined` is for what C
does not define or the kernel does not survive: a module number that
`DisConnect()` uses as an index unchecked, and an access to a module that has
no memory map.

Commands that only read are one command here.
-/

namespace Coht.Ctr

open Coht.Lib

def CtrDrvrCtimOBJECTS : Nat := 2048
def CtrDrvrPtimOBJECTS : Nat := 2048

structure CtrDrvrAction where
  triggerNumber : Nat := 0
  eqpNum : U32 := 0
  eqpClass : CtrDrvrConnectionClass := .HARD
  trigger : CtrDrvrTrigger := {}
  config : CtrDrvrCounterConfiguration := {}
  deriving DecidableEq

/-! ## Actions and objects -/

/-- The bus bit follows the clients of the slot. -/
def overrideBus (clients : U32) (config : CtrDrvrCounterConfiguration) :
    CtrDrvrCounterConfiguration :=
  { config with onZero :=
      if clients ≠ 0 then config.onZero ||| CtrDrvrCounterOnZeroBUS
      else config.onZero &&& ~~~CtrDrvrCounterOnZeroBUS }

namespace ModuleContext

variable (mcon : ModuleContext)

/-- The slot belongs to another object than the action says, or to one with
another counter. -/
def refusesAction (i : Nat) (act : CtrDrvrAction) : Prop :=
  mcon.eqpNum i ≠ 0 ∧ (mcon.eqpNum i ≠ act.eqpNum ∨
    mcon.eqpClass i ≠ act.eqpClass ∨ (mcon.trigs i).counter ≠ act.trigger.counter)

instance (i : Nat) (act : CtrDrvrAction) : Decidable (mcon.refusesAction i act) :=
  inferInstanceAs (Decidable (_ ∧ _))

/-- The slot gets the object of the action. -/
def claimAction (i : Nat) (act : CtrDrvrAction) : ModuleContext :=
  { mcon with
    eqpNum := Function.update mcon.eqpNum i act.eqpNum
    eqpClass := Function.update mcon.eqpClass i act.eqpClass
    trigs := Function.update mcon.trigs i
      { mcon.trigs i with counter := act.trigger.counter } }

def writeAction (i : Nat) (act : CtrDrvrAction) : ModuleContext :=
  let mcon := mcon.writeTrig i act.trigger
  let mcon := { mcon with trigs := Function.update mcon.trigs i act.trigger }
  let config := overrideBus (mcon.clients i) act.config
  let mcon := mcon.writeConfig i config
  { mcon with configs := Function.update mcon.configs i config }

/-- `CtrDrvrSET_ACTION` -/
def setAction (act : CtrDrvrAction) : Except Errno ModuleContext :=
  let i := act.triggerNumber - 1
  if act.triggerNumber = 0 ∨ CtrDrvrRamTableSIZE < act.triggerNumber then
    .error .EINVAL
  else if mcon.eqpClass i = .HARD then .error .EINVAL
  else if mcon.refusesAction i act then .error .EINVAL
  else if mcon.eqpNum i ≠ 0 then .ok (mcon.writeAction i act)
  else .ok ((mcon.claimAction i act).writeAction i act)

/-- A slot of a new PTIM object. -/
def claimPtim (eqpNum counter : U32) (i : Nat) : ModuleContext :=
  { mcon with
    eqpNum := Function.update mcon.eqpNum i eqpNum
    eqpClass := Function.update mcon.eqpClass i .PTIM
    trigs := Function.update mcon.trigs i { mcon.trigs i with counter := counter } }

/-- The run of empty slots for a new PTIM object. -/
def ptimSlots (size : Nat) : Search :=
  search (fun i => mcon.eqpNum i = 0) size (List.range' 0 CtrDrvrRamTableSIZE) {}

/-- A slot of a PTIM object that is destroyed. -/
def clearPtim (i : Nat) : ModuleContext :=
  let mcon := mcon.io32Write (mapTrigs i) [0, 0]
  let mcon := { mcon with
    eqpNum := Function.update mcon.eqpNum i 0
    eqpClass := Function.update mcon.eqpClass i .HARD
    configs := Function.update mcon.configs i {}
    trigs := Function.update mcon.trigs i {} }
  mcon.writeConfig i {}

/-- A trigger of the table names the CTIM object. -/
def usesCtim (eqpNum : U32) : Bool :=
  (List.range CtrDrvrRamTableSIZE).any fun j => (mcon.trigs j).ctim = eqpNum

end ModuleContext

/-- `CtrDrvrCREATE_CTIM_OBJECT` -/
def createCtim (wa : WorkingArea) (ctim : CtrDrvrCtimBinding) :
    Except Errno WorkingArea :=
  if (lookup (·.eqpNum) ctim.eqpNum wa.ctim).isSome then .error .EBUSY
  else if wa.ctim.length < CtrDrvrCtimOBJECTS then
    .ok { wa with ctim := wa.ctim ++ [ctim] }
  else .error .ENOMEM

/-- `CtrDrvrDESTROY_CTIM_OBJECT`, with the selected module. -/
def destroyCtim (wa : WorkingArea) (midx : Nat) (ctim : CtrDrvrCtimBinding) :
    Except Errno WorkingArea :=
  match lookup (·.eqpNum) ctim.eqpNum wa.ctim with
  | none => .error .EINVAL
  | some _ =>
    if (wa.moduleContexts midx).usesCtim ctim.eqpNum then .error .EBUSY
    else .ok { wa with ctim := swapRemove (·.eqpNum) ctim.eqpNum wa.ctim }

/-- `CtrDrvrCHANGE_CTIM_FRAME`, with the selected module. -/
def changeCtimFrame (wa : WorkingArea) (midx : Nat) (ctim : CtrDrvrCtimBinding) :
    Except Errno WorkingArea :=
  match lookup (·.eqpNum) ctim.eqpNum wa.ctim with
  | none => .error .EINVAL
  | some _ =>
    if (wa.moduleContexts midx).usesCtim ctim.eqpNum then .error .EBUSY
    else .ok { wa with
      ctim := alter (·.eqpNum) ctim.eqpNum
        (fun obj => { obj with frame := ctim.frame }) wa.ctim }

/-- `CtrDrvrCREATE_PTIM_OBJECT` -/
def createPtim (wa : WorkingArea) (ptim : CtrDrvrPtimBinding) :
    Except Errno WorkingArea :=
  if (lookup (·.eqpNum) ptim.eqpNum wa.ptim).isSome then .error .EBUSY
  else if CtrDrvrPtimOBJECTS ≤ wa.ptim.length then .error .ENOMEM
  else if ptim.moduleIndex < wa.modules then
    let mcon := wa.moduleContexts ptim.moduleIndex
    let found := mcon.ptimSlots ptim.size
    if found.count ≠ 0 ∧ ptim.size ≤ found.count then
      let mcon := (List.range' found.start ptim.size).foldl
        (fun mcon i => mcon.claimPtim ptim.eqpNum ptim.counter i) mcon
      .ok { wa.setModule ptim.moduleIndex mcon with
        ptim := wa.ptim ++ [{ ptim with startIndex := found.start }] }
    else .error .EINVAL
  else .error .EINVAL

/-- `CtrDrvrDESTROY_PTIM_OBJECT` -/
def destroyPtim (wa : WorkingArea) (ptim : CtrDrvrPtimBinding) :
    Except Errno WorkingArea :=
  if ptim.moduleIndex < wa.modules then
    let mcon := wa.moduleContexts ptim.moduleIndex
    let slots := mcon.matching ptim.eqpNum .PTIM
    if slots.any (fun i => mcon.clients i ≠ 0) then .error .EBUSY
    else if slots = [] then .error .EINVAL
    else
      let mcon := slots.foldl (fun mcon i => mcon.clearPtim i) mcon
      .ok { wa.setModule ptim.moduleIndex mcon with
        ptim := swapRemove (·.eqpNum) ptim.eqpNum wa.ptim }
  else .error .EINVAL

/-! ## Control of the module -/

def CtrDrvrCommandRESET : U32 := 0x01
def CtrDrvrCommandENABLE : U32 := 0x02
def CtrDrvrCommandDISABLE : U32 := 0x04
def CtrDrvrCommandLATCH_UTC : U32 := 0x08
def CtrDrvrCommandSET_UTC : U32 := 0x10
def CtrDrvrCommandSET_HPTDC : U32 := 0x20
def CtrDrvrCommandDebugHisOn : U32 := 0x80
def CtrDrvrCommandDebugHisOff : U32 := 0x100
def CtrDrvrCommandUtcPllOff : U32 := 0x200
def CtrDrvrCommandUtcPllOn : U32 := 0x400

def CtrDrvrCntrCntrlREMOTE_MASK : U32 := 0x3F
def CtrDrvrCntrCntrlOUT_MASK : U32 := 0x3FFC0
def CtrDrvrCntrCntrlTTL_BAR : U32 := 0x80000000
def CtrDrvrRemoteEXEC : U32 := 0x20

def HptdcJTAG_TRST : U32 := 0x01
def HptdcJTAG_TCK : U32 := 0x02
def HptdcJTAG_TDI : U32 := 0x04
def HptdcJTAG_TMS : U32 := 0x10
def HptdcCmdBITS : Nat := 4

/-- `HptdcRegisterVlaue` -/
structure HptdcRegister where
  value : U32 := 0
  endBit : Nat := 0
  startBit : Nat := 0
  deriving DecidableEq

/-- `CtrDrvrHptdcIoBuf` -/
structure CtrDrvrHptdcIoBuf where
  cmd : U32 := 0
  wreg : List HptdcRegister := []
  pflg : Bool := false
  rflg : Bool := false
  deriving DecidableEq

namespace ModuleContext

variable (mcon : ModuleContext)

/-- The command word is changed and written. -/
def writeCommand (command : U32) : ModuleContext :=
  { mcon with command := command }.hWr command mapCommand

/-- What `HptdcBitTransfer()` writes; the bit it reads back does not matter to
what is written. -/
def hptdcBitTransfer (tdi tms : U32) : ModuleContext :=
  let jwd := HptdcJTAG_TRST ||| tdi ||| tms
  ((mcon.hWr jwd mapHptdcJtag).hWr (jwd ||| HptdcJTAG_TCK) mapHptdcJtag).hWr jwd
    mapHptdcJtag

def hptdcStateReset : ModuleContext :=
  let mcon := [HptdcJTAG_TRST, 0, HptdcJTAG_TCK, HptdcJTAG_TRST ||| HptdcJTAG_TCK,
    HptdcJTAG_TRST].foldl (fun mcon jwd => mcon.hWr jwd mapHptdcJtag) mcon
  mcon.hptdcBitTransfer 0 0

/-- The lowest bits of a value, each with its `tdi`. -/
def hptdcBits (value : U32) (bits : Nat) : List U32 :=
  (List.range bits).map fun i => if value.getLsbD i then HptdcJTAG_TDI else 0

def hptdcParity (bits : List U32) : U32 :=
  if bits.countP (· ≠ 0) % 2 = 1 then HptdcJTAG_TDI else 0

/-- The transfers of `HptdcCommand()` for the registers. With no parity bit to
follow, the last bit of a register has `TMS`. -/
def hptdcRegister (pflg : Bool) (reg : HptdcRegister) : List (U32 × U32) :=
  let bits := hptdcBits reg.value (reg.endBit - reg.startBit + 1)
  bits.zipIdx.map fun (tdi, i) =>
    (tdi, if !pflg && i + 1 = bits.length then HptdcJTAG_TMS else 0)

def hptdcCommand (hpio : CtrDrvrHptdcIoBuf) : ModuleContext :=
  let mcon := if hpio.rflg then mcon.hptdcStateReset else mcon
  let cmd := hptdcBits hpio.cmd HptdcCmdBITS
  let data := hpio.wreg.flatMap (hptdcRegister hpio.pflg)
  let transfers :=
    [(0, HptdcJTAG_TMS), (0, HptdcJTAG_TMS), (0, 0), (0, 0)] ++
    cmd.map (·, 0) ++ [(hptdcParity cmd, HptdcJTAG_TMS)] ++
    [(0, HptdcJTAG_TMS), (0, HptdcJTAG_TMS), (0, 0), (0, 0)] ++
    data ++
    (if hpio.pflg then [(hptdcParity (data.map (·.1)), HptdcJTAG_TMS)] else []) ++
    [(0, HptdcJTAG_TMS), (0, 0)]
  transfers.foldl (fun mcon t => mcon.hptdcBitTransfer t.1 t.2) mcon

/-- The output routing of a counter that has none. -/
def resetOutMask (counter : Nat) : ModuleContext :=
  if mcon.map (mapRemOutMask counter) = 0 then
    mcon.hWr (autoShiftLeft CtrDrvrCntrCntrlOUT_MASK (1#32 <<< counter))
      (mapRemOutMask counter)
  else mcon

def pllWords (pll : CtrDrvrPll) : List U32 :=
  [pll.error, pll.integrator, pll.dac, pll.lastItLen, pll.phase, pll.numAverage,
    pll.kp, pll.ki]

def writePll : ModuleContext := mcon.io32Write mapPll (pllWords mcon.pll)

/-- `HWr(0x100 | ..., &mmap->OutputByte)` -/
def writeOutputByte : ModuleContext :=
  mcon.hWr (0x100#32 |||
    if mcon.outputByte = 0 then 0 else 1#32 <<< (mcon.outputByte - 1)) mapOutputByte

/-- The parameters of a PLL that has none. -/
def defaultPll : ModuleContext :=
  if mcon.pll.kp = 0 then
    { mcon with pll := { mcon.pll with
      kp := 337326, ki := 901, numAverage := 100, phase := 1950 } }
  else mcon

def reset : ModuleContext :=
  let mcon := mcon.hWr CtrDrvrCommandRESET mapCommand
  let mcon := mcon.writeCommand (mcon.command &&& ~~~CtrDrvrCommandSET_HPTDC)
  let mcon := (List.range' 1 8).foldl (fun mcon i => mcon.resetOutMask i) mcon
  let mcon := (mcon.writeOutputByte.hWr mcon.setup mapSetup).defaultPll.writePll
  (mcon.enableInterrupts mcon.interruptEnable).hptdcStateReset

def setTime (tod : U32) : ModuleContext :=
  (mcon.hWr tod mapSetTime).hWr CtrDrvrCommandSET_UTC mapCommand

/-- What `GetTime()` writes: it latches the time. -/
def getTime : ModuleContext := mcon.hWr CtrDrvrCommandLATCH_UTC mapCommand

/-- `CtrDrvrENABLE` -/
def enable (lav : Int) : ModuleContext :=
  if lav = CtrDrvrCommandSET_HPTDC.toNat then
    mcon.writeCommand (mcon.command ||| CtrDrvrCommandSET_HPTDC)
  else if lav = (~~~CtrDrvrCommandSET_HPTDC).toInt then
    mcon.writeCommand (mcon.command &&& ~~~CtrDrvrCommandSET_HPTDC)
  else if lav ≠ 0 then
    mcon.writeCommand
      ((mcon.command ||| CtrDrvrCommandENABLE) &&& ~~~CtrDrvrCommandDISABLE)
  else
    mcon.writeCommand
      ((mcon.command &&& ~~~CtrDrvrCommandENABLE) ||| CtrDrvrCommandDISABLE)

/-- Of two bits of the command word, one is set and the other cleared. -/
def switchCommand (on off : U32) : ModuleContext :=
  mcon.writeCommand ((mcon.command ||| on) &&& ~~~off)

/-- `CtrDrvrSET_DEBUG_HISTORY` -/
def setDebugHistory (lav : Int) : ModuleContext :=
  if lav ≠ 0 then mcon.switchCommand CtrDrvrCommandDebugHisOn CtrDrvrCommandDebugHisOff
  else mcon.switchCommand CtrDrvrCommandDebugHisOff CtrDrvrCommandDebugHisOn

/-- `CtrDrvrSET_BRUTAL_PLL` -/
def setBrutalPll (lav : Int) : ModuleContext :=
  if lav ≠ 0 then mcon.switchCommand CtrDrvrCommandUtcPllOff CtrDrvrCommandUtcPllOn
  else mcon.switchCommand CtrDrvrCommandUtcPllOn CtrDrvrCommandUtcPllOff

/-- `RawIo()` that writes -/
def rawWrite (offset : Nat) (data : List U32) : ModuleContext :=
  mcon.io32Write offset data

/-- `CtrDrvrREMOTE`, `CtrDrvrSET_REMOTE` and `CtrDrvrSET_OUT_MASK` know the
counters 1 to 8. -/
def onCounter (counter : Nat) (mcon : ModuleContext) : Except Errno ModuleContext :=
  if 1 ≤ counter ∧ counter ≤ 8 then .ok mcon else .error .EINVAL

def setRemote (counter : Nat) (remote : U32) : Except Errno ModuleContext :=
  onCounter counter (mcon.hWr (if remote = 0 then 0 else 1) (mapLockConfig counter))

def remote (counter : Nat) (remote : U32) : Except Errno ModuleContext :=
  if mcon.map (mapLockConfig counter) = 0 then .error .EINVAL
  else onCounter counter (mcon.hWr
    (CtrDrvrRemoteEXEC ||| (CtrDrvrCntrCntrlREMOTE_MASK &&& remote))
    (mapRemOutMask counter))

def setOutMask (counter : Nat) (mask : U32) (ttlBar : Bool) :
    Except Errno ModuleContext :=
  let mask := if mask = 0 then 1#32 <<< counter else mask
  onCounter counter (mcon.hWr (autoShiftLeft CtrDrvrCntrCntrlOUT_MASK mask |||
    if ttlBar then CtrDrvrCntrCntrlTTL_BAR else 0) (mapRemOutMask counter))

def setConfig (counter : Nat) (conf : CtrDrvrCounterConfiguration) :
    Except Errno ModuleContext :=
  if mcon.map (mapLockConfig counter) = 0 then .error .EINVAL
  else if counter ≤ 8 then
    .ok (mcon.io32Write (mapCounterConfig counter) [configToHard conf, conf.delay])
  else .error .EINVAL

def setOutputByte (lav : Int) : Except Errno ModuleContext :=
  if 0 ≤ lav ∧ lav ≤ 8 then
    .ok { mcon with outputByte := lav.toNat }.writeOutputByte
  else .error .EINVAL

def setInputDelay (delay : U32) : ModuleContext :=
  { mcon.hWr delay mapInputDelay with inputDelay := delay }

def setPll (pll : CtrDrvrPll) : ModuleContext :=
  { mcon with pll := pll }.writePll

def jtagOpen : Except Errno ModuleContext :=
  if mcon.jtag then .ok { mcon with flashOpen := true } else .error .EINVAL

def jtagWriteByte (byte : U32) : Except Errno ModuleContext :=
  if mcon.flashOpen then .ok (mcon.hWrJtag byte) else .error .EBUSY

def jtagClose : ModuleContext :=
  { mcon.enableInterrupts 0 with flashOpen := false }

def hptdcIo (hpio : CtrDrvrHptdcIoBuf) : Except Errno ModuleContext :=
  if mcon.hptdcOpen then .ok (mcon.hptdcCommand hpio) else .error .EINVAL

/-- The sum that `clr_uplock()` makes of the digits. -/
def digitSum (pw : U32) : Nat :=
  ((List.range 8).map fun i => (pw.toNat >>> (4 * i)) % 16).sum

/-- `clr_uplock()` -/
def clrUplock (pw : U32) : ModuleContext :=
  if digitSum pw = 0x24 then { mcon with upLock := false } else mcon

end ModuleContext

end Coht.Ctr
