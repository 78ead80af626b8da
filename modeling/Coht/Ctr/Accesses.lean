import Coht.Ctr.Connections
import Coht.Ctr.Inquiries
import Coht.Lib.Buffers

/-!
# What the requests of a client access (`ctrdrvr-vme.c`)

The functions that a request goes through are here once more, with each access to an
array of the driver, to the argument of the request and to the memory of a module, in
the order in which they are made. The tests and the loops are those of the source. A
loop over the slots of an object is two loops, one that finds them and one that works
on them, as in the model of the functions; what each function leaves, its `value`, is
what it leaves there.

A module is accessed through `Map`, which is not set where the module is not
installed, or where only its flash could be mapped. The entries of the tables of a
module are its own, but their numbers are bounded alike, so an `Area` is a table of
any module.
-/

namespace Coht.Ctr

open Coht.Lib Accessing Errno

inductive Area
  | moduleContexts
  | configs | clients | trigs | eqpNum | eqpClass | hardClients
  /-- `mmap->Counters` -/
  | counters
  /-- `Connections` of the caller -/
  | connections
  /-- the memory of a module, by words -/
  | map (midx : Nat)
  deriving DecidableEq

abbrev Code := Accessing Area

/-- The words of the memory map that the model has. -/
def mapSIZE : Nat := mapSetup + 1

/-- The arrays, and the memory of the modules that are installed and `mapped`. -/
def areas (wa : WorkingArea) (mapped : Nat → Bool) : Area → Option Nat
  | .moduleContexts => some CtrDrvrMODULE_CONTEXTS
  | .configs | .clients | .trigs | .eqpNum | .eqpClass => some CtrDrvrRamTableSIZE
  | .hardClients => some CtrDrvrInterruptSOURCES
  | .counters => some CtrDrvrCOUNTERS
  | .connections => some CtrDrvrCONNECTIONS
  | .map midx =>
    if (wa.moduleContexts midx).inUse = true ∧ mapped midx = true then some mapSIZE
    else none

namespace Accesses

/-- Two words of the memory map. -/
def words (midx word : Nat) : Code Unit := do
  access (.map midx) word
  access (.map midx) (word + 1)

/-- `HRd()` and `HWr()` of one word. -/
def change (midx word : Nat) : Code Unit := do
  access (.map midx) word
  access (.map midx) word

/-- The slot has this object. -/
def isObject (mcon : ModuleContext) (eqpNum : U32) (eqpClass : CtrDrvrConnectionClass)
    (i : Nat) : Code Bool := do
  access .eqpNum i
  if mcon.eqpNum i = eqpNum then do
    access .eqpClass i
    pure (decide (mcon.eqpClass i = eqpClass))
  else pure false

def matching (mcon : ModuleContext) (eqpNum : U32) (eqpClass : CtrDrvrConnectionClass) :
    Code (List Nat) :=
  select (isObject mcon eqpNum eqpClass) (List.range CtrDrvrRamTableSIZE)

def enableInterrupts (midx : Nat) (mcon : ModuleContext) : Code ModuleContext := do
  access (.map midx) mapInterruptEnable
  pure (mcon.enableInterrupts mcon.interruptEnable)

/-! ## Connect -/

section

variable (midx : Nat) (mcon : ModuleContext) (c : Nat)

def connectSlot (hmsk : U32) (i : Nat) : Code ModuleContext := do
  access .clients i
  change midx (mapConfigs i)
  pure (mcon.connectSlot c hmsk i)

def connectPtimSlot (i : Nat) : Code ModuleContext := do
  access .trigs i
  connectSlot midx mcon c (1#32 <<< (mcon.trigs i).counter.toNat) i

def connectPtim (eqpNum : U32) : Code (Except Errno ModuleContext) := do
  access .moduleContexts midx
  let slots ← matching mcon eqpNum .PTIM
  let connected ← each (fun mcon i => connectPtimSlot midx mcon c i) slots mcon
  if slots = [] then pure (.error ENXIO)
  else do
    let enabled ← enableInterrupts midx connected
    pure (.ok enabled)

def fillCtim (eqpNum : U32) (frame : CtrDrvrEventFrame) (i : Nat) : Code ModuleContext := do
  access .eqpNum i
  access .eqpClass i
  access .trigs i
  access .configs i
  words midx (mapTrigs i)
  words midx (mapConfigs i)
  access .clients i
  pure (mcon.fillCtim eqpNum frame c i)

def isEmpty (i : Nat) : Code Bool := do
  access .eqpNum i
  pure (decide (mcon.eqpNum i = 0))

def connectCtim (ctim : List CtrDrvrCtimBinding) (eqpNum : U32) :
    Code (Except Errno ModuleContext) := do
  let found ← find (isObject mcon eqpNum .CTIM) (List.range CtrDrvrRamTableSIZE)
  match found with
  | some i => do
      let connected ← connectSlot midx mcon c ModuleContext.CtrDrvrInterruptMaskCOUNTER_0 i
      let enabled ← enableInterrupts midx connected
      pure (.ok enabled)
  | none =>
    let frme := ModuleContext.ctimFrame ctim eqpNum
    if frme.header = 0 then pure (.error ENXIO)
    else do
      let empty ← find (isEmpty mcon) (List.range CtrDrvrRamTableSIZE)
      match empty with
      | none => pure (.error .ENOMEM)
      | some i => do
          let filled ← fillCtim midx mcon c eqpNum frme i
          let enabled ← enableInterrupts midx filled
          pure (.ok enabled)

def connectSource (i : Nat) : Code ModuleContext := do
  access .hardClients i
  pure (mcon.connectSource c i)

def connectHard (eqpNum : U32) : Code (Except Errno ModuleContext) := do
  let sources := ModuleContext.sourcesOf eqpNum
  let connected ← each (fun mcon i => connectSource mcon c i) sources mcon
  if sources = [] then pure (.error ENXIO)
  else do
    let enabled ← enableInterrupts midx connected
    pure (.ok enabled)

end

/-- `Connect()` -/
def connect (wa : WorkingArea) (conx : CtrDrvrConnection) (c : Nat) :
    Code (Except Errno (Nat × ModuleContext)) := do
  let midx := connectModule wa conx c
  access .moduleContexts midx
  match conx.eqpClass with
  | .PTIM =>
    match wa.getPtimModule conx.eqpNum with
    | none => pure (.error ENXIO)
    | some midx => do
        let mcon ← connectPtim midx (wa.moduleContexts midx) c conx.eqpNum
        pure (mcon.map (midx, ·))
  | .CTIM => do
      let mcon ← connectCtim midx (wa.moduleContexts midx) c wa.ctim conx.eqpNum
      pure (mcon.map (midx, ·))
  | .HARD | .other _ => do
      let mcon ← connectHard midx (wa.moduleContexts midx) c conx.eqpNum
      pure (mcon.map (midx, ·))

/-! ## Disconnect -/

section

variable (behind : Behind) (midx : Nat) (mcon : ModuleContext) (c : Nat)

/-- The slot has the counter, and another client. -/
def isShared (cntr : U32) (i : Nat) : Code Bool := do
  access .trigs i
  if (mcon.trigs i).counter = cntr then do
    access .clients i
    pure (decide (mcon.clients i &&& ~~~clientMask c ≠ 0))
  else pure false

/-- `HardClients[k] & ~cmsk` -/
def othersAt (k : Nat) : Code Bool := do
  access .hardClients k
  pure (decide (mcon.hardWord behind k &&& ~~~clientMask c ≠ 0))

/-- The tests of `DisableInterrupts()` for other clients. -/
def othersRemain (cntr : U32) (tndx : Nat) : Code Bool :=
  if cntr ≠ -1 then do
    let counter ← othersAt behind mcon c cntr.toNat
    if counter then pure true
    else do
      let shared ← find (isShared mcon c cntr) (List.range CtrDrvrRamTableSIZE)
      if shared.isSome then pure true else othersAt behind mcon c tndx
  else othersAt behind mcon c tndx

/-- The counter of the slot, or of the source. -/
def counterOf (clss : CtrDrvrConnectionClass) (tndx : Nat) : Code U32 :=
  if clss ≠ .HARD then do
    access .trigs tndx
    pure (mcon.counterOf clss tndx)
  else pure (mcon.counterOf clss tndx)

def disableInterrupts (clss : CtrDrvrConnectionClass) (tndx : Nat) : Code ModuleContext := do
  access .moduleContexts midx
  let cntr ← counterOf mcon clss tndx
  let others ← othersRemain behind mcon c cntr tndx
  if others then pure mcon
  else do
    access (.map midx) mapInterruptEnable
    pure (mcon.disableInterrupts behind clss c tndx)

/-- The last client has left the slot. -/
def releaseSlot (tndx : Nat) : Code ModuleContext := do
  access .eqpClass tndx
  if mcon.eqpClass tndx = .CTIM then do
    words midx (mapTrigs tndx)
    words midx (mapConfigs tndx)
    access .eqpNum tndx
    access .eqpClass tndx
    pure (mcon.releaseSlot tndx)
  else do
    change midx (mapConfigs tndx)
    pure (mcon.releaseSlot tndx)

def disConnectSlot (clss : CtrDrvrConnectionClass) (tndx : Nat) : Code ModuleContext := do
  access .clients tndx
  if clientMask c &&& mcon.clients tndx = 0 then pure mcon
  else do
    let left := mcon.leaveSlot c tndx
    access .clients tndx
    if left.clients tndx ≠ 0 then pure left
    else do
      let disabled ← disableInterrupts behind midx left c clss tndx
      releaseSlot midx disabled tndx

def disConnectSource (tndx : Nat) : Code ModuleContext := do
  access .hardClients tndx
  if mcon.hardClients tndx = 0 then pure mcon
  else do
    let left := mcon.leaveSource c tndx
    access .hardClients tndx
    if left.hardClients tndx ≠ 0 then pure left
    else disableInterrupts behind midx left c .HARD tndx

def disConnectOne (clss : CtrDrvrConnectionClass) (tndx : Nat) : Code ModuleContext := do
  access .moduleContexts midx
  match clss with
  | .CTIM | .PTIM => disConnectSlot behind midx mcon c clss tndx
  | .HARD => disConnectSource behind midx mcon c tndx
  | .other _ => pure mcon

def disConnectSources : Code ModuleContext :=
  each (fun mcon i => disConnectOne behind midx mcon c .HARD i)
    (List.range CtrDrvrInterruptSOURCES) mcon

/-- `DisConnect()` -/
def disConnect (eqpNum : U32) (eqpClass : CtrDrvrConnectionClass) : Code ModuleContext := do
  access .moduleContexts midx
  if eqpClass ≠ .HARD then do
    let slots ← matching mcon eqpNum eqpClass
    each (fun mcon i => disConnectOne behind midx mcon c eqpClass i) slots mcon
  else disConnectSources behind midx mcon c

def isOccupied (i : Nat) : Code Bool := do
  access .eqpNum i
  pure (decide (mcon.eqpNum i ≠ 0))

def disConnectOccupied (i : Nat) : Code ModuleContext := do
  access .eqpClass i
  disConnectOne behind midx mcon c (mcon.eqpClass i) i

/-- `DisConnectAll()` on one module. -/
def disConnectModule : Code ModuleContext := do
  access .moduleContexts midx
  let slots ← select (isOccupied mcon) (List.range CtrDrvrRamTableSIZE)
  let left ← each (fun mcon i => disConnectOccupied behind midx mcon c i) slots mcon
  disConnectSources behind midx left c

end

/-- `DisConnectAll()` -/
def disConnectAll (behind : Nat → Behind) (wa : WorkingArea) (c : Nat) : Code WorkingArea :=
  each (fun wa midx => do
      let left ← disConnectModule (behind midx) midx (wa.moduleContexts midx) c
      pure (wa.setModule midx left))
    (List.range wa.modules) wa

/-! ## Actions and objects -/

section

variable (midx : Nat) (mcon : ModuleContext)

def writeAction (i : Nat) (act : CtrDrvrAction) : Code ModuleContext := do
  words midx (mapTrigs i)
  access .trigs i
  access .clients i
  words midx (mapConfigs i)
  access .configs i
  pure (mcon.writeAction i act)

/-- The tests for another object, and the object of an empty slot. -/
def claimAction (i : Nat) (act : CtrDrvrAction) : Code (Except Errno ModuleContext) := do
  access .eqpNum i
  if mcon.eqpNum i ≠ 0 then
    if mcon.eqpNum i ≠ act.eqpNum then pure (.error .EINVAL)
    else do
      access .eqpClass i
      if mcon.eqpClass i ≠ act.eqpClass then pure (.error .EINVAL)
      else do
        access .trigs i
        if (mcon.trigs i).counter ≠ act.trigger.counter then pure (.error .EINVAL)
        else pure (.ok mcon)
  else do
    access .eqpNum i
    access .eqpClass i
    access .trigs i
    pure (.ok (mcon.claimAction i act))

/-- `CtrDrvrSET_ACTION` -/
def setAction (act : CtrDrvrAction) : Code (Except Errno ModuleContext) :=
  let i := act.triggerNumber - 1
  if act.triggerNumber = 0 ∨ CtrDrvrRamTableSIZE < act.triggerNumber then
    pure (.error .EINVAL)
  else do
    access .eqpClass i
    if mcon.eqpClass i = .HARD then pure (.error .EINVAL)
    else do
      let claimed ← claimAction mcon i act
      match claimed with
      | .error err => pure (.error err)
      | .ok claimed => do
          let written ← writeAction midx claimed i act
          pure (.ok written)

/-- `CtrDrvrGET_ACTION` -/
def getAction (triggerNumber : Nat) : Code (Except Errno CtrDrvrAction) :=
  let i := triggerNumber - 1
  if 0 < triggerNumber ∧ triggerNumber ≤ CtrDrvrRamTableSIZE then do
    words midx (mapTrigs i)
    words midx (mapConfigs i)
    access .trigs i
    access .eqpNum i
    access .eqpClass i
    pure (.ok (mcon.action i))
  else pure (.error .EINVAL)

/-- The search for a run of empty slots. -/
def searchSlots (want : Nat) : List Nat → Search → Code Search
  | [], acc => pure acc
  | n :: ns, acc => do
      access .eqpNum n
      if mcon.eqpNum n = 0 then
        let start := if acc.count = 0 then n else acc.start
        if want ≤ acc.count + 1 then pure ⟨n, start, acc.count + 1⟩
        else searchSlots want ns ⟨n, start, acc.count + 1⟩
      else searchSlots want ns ⟨n, acc.start, 0⟩

def claimPtim (eqpNum counter : U32) (i : Nat) : Code ModuleContext := do
  access .eqpNum i
  access .eqpClass i
  access .trigs i
  pure (mcon.claimPtim eqpNum counter i)

def clearPtim (i : Nat) : Code ModuleContext := do
  words midx (mapTrigs i)
  access .eqpNum i
  access .eqpClass i
  access .configs i
  access .trigs i
  words midx (mapConfigs i)
  pure (mcon.clearPtim i)

/-- The slot has this PTIM object, and a client. -/
def isBusy (eqpNum : U32) (i : Nat) : Code Bool := do
  let found ← isObject mcon eqpNum .PTIM i
  if found then do
    access .clients i
    pure (decide (mcon.clients i ≠ 0))
  else pure false

end

/-- `CtrDrvrCREATE_PTIM_OBJECT` -/
def createPtim (wa : WorkingArea) (ptim : CtrDrvrPtimBinding) :
    Code (Except Errno WorkingArea) :=
  if (lookup (·.eqpNum) ptim.eqpNum wa.ptim).isSome then pure (.error .EBUSY)
  else if CtrDrvrPtimOBJECTS ≤ wa.ptim.length then pure (.error .ENOMEM)
  else if ptim.moduleIndex < wa.modules then do
    let mcon := wa.moduleContexts ptim.moduleIndex
    access .moduleContexts ptim.moduleIndex
    let found ← searchSlots mcon ptim.size (List.range' 0 CtrDrvrRamTableSIZE) {}
    if found.count ≠ 0 ∧ ptim.size ≤ found.count then do
      let claimed ← each (fun mcon i => claimPtim mcon ptim.eqpNum ptim.counter i)
        (List.range' found.start ptim.size) mcon
      pure (.ok { wa.setModule ptim.moduleIndex claimed with
        ptim := wa.ptim ++ [{ ptim with startIndex := found.start }] })
    else pure (.error .EINVAL)
  else pure (.error .EINVAL)

/-- `CtrDrvrDESTROY_PTIM_OBJECT` -/
def destroyPtim (wa : WorkingArea) (ptim : CtrDrvrPtimBinding) :
    Code (Except Errno WorkingArea) :=
  let midx := ptim.moduleIndex
  let mcon := wa.moduleContexts midx
  if midx < wa.modules then do
    access .moduleContexts midx
    let busy ← find (isBusy mcon ptim.eqpNum) (List.range CtrDrvrRamTableSIZE)
    if busy.isSome then pure (.error .EBUSY)
    else do
      let slots ← matching mcon ptim.eqpNum .PTIM
      if slots = [] then pure (.error .EINVAL)
      else do
        let cleared ← each (fun mcon i => clearPtim midx mcon i) slots mcon
        pure (.ok { wa.setModule midx cleared with
          ptim := swapRemove (·.eqpNum) ptim.eqpNum wa.ptim })
  else pure (.error .EINVAL)

/-! ## The list of connections -/

/-- An entry of the list for the object of the slot. -/
def isListed (mcon : ModuleContext) (k : Nat) (conns : List CtrDrvrConnection) (n : Nat) :
    Code Bool := do
  access .connections n
  pure (conns[n]?.any fun conx =>
    mcon.eqpNum k = conx.eqpNum ∧ mcon.eqpClass k = conx.eqpClass)

/-- A new entry at the end of the list. -/
def addConnection (conns : List CtrDrvrConnection) (conx : CtrDrvrConnection) :
    Code (List CtrDrvrConnection) := do
  access .connections conns.length
  pure (conns ++ [conx])

section

variable (mcon : ModuleContext) (i j : Nat)

def listObject (conns : List CtrDrvrConnection) (k : Nat) : Code (List CtrDrvrConnection) := do
  access .eqpNum k
  access .eqpClass k
  let found ← find (isListed mcon k conns) (List.range conns.length)
  if found.isSome then pure conns
  else
    addConnection conns
      { module := j + 1, eqpNum := mcon.eqpNum k, eqpClass := mcon.eqpClass k }

/-- One slot. After an entry past the end the command has returned. -/
def listSlot (conns : List CtrDrvrConnection) (k : Nat) : Code (List CtrDrvrConnection) :=
  if CtrDrvrCONNECTIONS < conns.length then pure conns
  else do
    access .clients k
    if clientMask i &&& mcon.clients k ≠ 0 then listObject mcon j conns k
    else pure conns

def listSource (hmsk : U32) (k : Nat) : Code U32 := do
  access .hardClients k
  pure (if clientMask i &&& mcon.hardClients k ≠ 0 then hmsk ||| 1#32 <<< k else hmsk)

def listSources (conns : List CtrDrvrConnection) : Code (List CtrDrvrConnection) :=
  if CtrDrvrCONNECTIONS < conns.length then pure conns
  else do
    let hmsk ← each (listSource mcon i) (List.range CtrDrvrInterruptSOURCES) 0
    if hmsk ≠ 0 then addConnection conns { module := j + 1, eqpNum := hmsk, eqpClass := .HARD }
    else pure conns

/-- All of one client on one module. -/
def list (conns : List CtrDrvrConnection) : Code (List CtrDrvrConnection) := do
  access .moduleContexts j
  let slots ← each (listSlot mcon i j) (List.range CtrDrvrRamTableSIZE) conns
  listSources mcon i j slots

end

/-- `CtrDrvrGET_CLIENT_CONNECTIONS` -/
def clientConnections (wa : WorkingArea) (pids : Nat → Nat) (pid : Nat) :
    Code (List CtrDrvrConnection) :=
  each (fun conns i =>
      if (wa.clientContexts i).inUse = true ∧ pids i = pid then
        each (fun conns j => list (wa.moduleContexts j) i j conns)
          (List.range CtrDrvrMODULE_CONTEXTS) conns
      else pure conns)
    (List.range CtrDrvrCLIENT_CONTEXTS) []

/-! ## Configurations and simulated events -/

section

variable (midx : Nat) (mcon : ModuleContext)

/-- `CtrDrvrSET_CONFIG` reads the lock of the counter before it tests its number. -/
def setConfig (counter : Nat) (conf : CtrDrvrCounterConfiguration) :
    Code (Except Errno ModuleContext) := do
  access .counters counter
  access (.map midx) (mapLockConfig counter)
  if mcon.map (mapLockConfig counter) = 0 then pure (.error .EINVAL)
  else if counter ≤ 8 then do
    access .counters counter
    words midx (mapCounterConfig counter)
    pure (.ok (mcon.io32Write (mapCounterConfig counter) [configToHard conf, conf.delay]))
  else pure (.error .EINVAL)

/-- `CtrDrvrGET_CONFIG` -/
def getConfig (counter : Nat) : Code (Except Errno CtrDrvrCounterConfiguration) :=
  if counter ≤ 8 then do
    access .counters counter
    words midx (mapCounterConfig counter)
    pure (.ok (hardToConfig (mcon.map (mapCounterConfig counter))
      (mcon.map (mapCounterConfig counter + 1))))
  else pure (.error .EINVAL)

/-- `CtrDrvrWrite()` at one slot. -/
def writtenSlot (tndx : Nat) : Code (U32 × CtrDrvrReadBuf) := do
  access .clients tndx
  access .trigs tndx
  pure (mcon.clients tndx, mcon.slotBuf tndx)

def writtenSource (w : U32 × CtrDrvrReadBuf) (i : Nat) : Code (U32 × CtrDrvrReadBuf) := do
  access .hardClients i
  pure (w.1 ||| mcon.hardClients i, { w.2 with interruptNumber := BitVec.ofNat 32 (i + 1) })

/-- The clients and the buffer of `CtrDrvrWrite()`. -/
def written (wb : CtrDrvrWriteBuf) : Code (U32 × CtrDrvrReadBuf) :=
  let conx := wb.connection
  if conx.eqpClass ≠ .HARD then
    if wb.triggerNumber = 0 then do
      let found ← find (isObject mcon conx.eqpNum conx.eqpClass)
        (List.range CtrDrvrRamTableSIZE)
      match found with
      | some tndx => do
          let w ← writtenSlot mcon tndx
          pure (w.1, { w.2 with frame := w.2.frame.setValue wb.payload })
      | none => pure (0, {})
    else writtenSlot mcon (wb.triggerNumber - 1)
  else each (writtenSource mcon) (ModuleContext.sourcesOf conx.eqpNum) (0, {})

end

/-- `CtrDrvrWrite()` -/
def ctrDrvrWrite (wb : CtrDrvrWriteBuf) (time : CtrDrvrCTime) (wa : WorkingArea) :
    Code (Except Errno WorkingArea) :=
  let conx := wb.connection
  if conx.module = 0 ∨ CtrDrvrMODULE_CONTEXTS < conx.module then pure (.error .EINVAL)
  else do
    let midx := conx.module - 1
    let mcon := wa.moduleContexts midx
    access .moduleContexts midx
    let w ← written mcon wb
    if w.1 = 0 then pure (.ok wa)
    else do
      access (.map midx) mapCommand
      pure (.ok ((deliver w.1 { w.2 with
        connection := conx
        triggerTime := time
        startTime := time
        onZeroTime := time } wa).setModule midx mcon.getTime))

end Accesses

end Coht.Ctr
