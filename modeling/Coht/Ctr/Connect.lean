import Coht.Ctr.ClientQueue

/-!
# Connecting and disconnecting (`ctrdrvr-vme.c`)

A client is connected to a module by its bit in the word `Clients[i]` of a
trigger slot or in the word `HardClients[s]` of an interrupt source. A PTIM
object has slots on the module of its binding; a CTIM object gets a slot on a
module when the first client connects to it there and gives it back when the
last one leaves.

The loops go over the slots that match, which are chosen before: to free a slot
changes the object of that slot only, and the loop is past it.

`DisableInterrupts()` is given the number of a slot and reads `HardClients[]`
at that number, and at the counter of the slot, which nothing bounds.
`behind` is the memory behind the table, as these reads find it.
-/

namespace Coht.Ctr

open Errno

structure CtrDrvrCtimBinding where
  eqpNum : U32 := 0
  frame : CtrDrvrEventFrame := {}
  deriving DecidableEq

structure CtrDrvrPtimBinding where
  eqpNum : U32 := 0
  moduleIndex : Nat := 0
  counter : U32 := 0
  size : Nat := 0
  startIndex : Nat := 0
  deriving DecidableEq

structure WorkingArea where
  ctim : List CtrDrvrCtimBinding := []
  ptim : List CtrDrvrPtimBinding := []
  modules : Nat := 0
  moduleContexts : Nat → ModuleContext := fun _ => {}
  clientContexts : Nat → ClientContext := fun _ => {}

namespace WorkingArea

variable (wa : WorkingArea)

def setModule (midx : Nat) (mcon : ModuleContext) : WorkingArea :=
  { wa with moduleContexts := Function.update wa.moduleContexts midx mcon }

def setClient (c : Nat) (ccon : ClientContext) : WorkingArea :=
  { wa with clientContexts := Function.update wa.clientContexts c ccon }

end WorkingArea

/-- The memory behind `HardClients[]`, by index. -/
abbrev Behind := Nat → U32

namespace ModuleContext

variable (mcon : ModuleContext)

def enableInterrupts (msk : U32) : ModuleContext :=
  let mcon := { mcon with interruptEnable := mcon.interruptEnable ||| msk }
  mcon.hWr mcon.interruptEnable mapInterruptEnable

/-- What is read for `HardClients[k]`. -/
def hardWord (behind : Behind) (k : Nat) : U32 :=
  if k < CtrDrvrInterruptSOURCES then mcon.hardClients k else behind k

/-- The counter of the slot, the number of the source, or -1 for a source that
is no counter. -/
def counterOf (clss : CtrDrvrConnectionClass) (tndx : Nat) : U32 :=
  if clss ≠ .HARD then (mcon.trigs tndx).counter
  else if tndx ≤ CtrDrvrCOUNTERS then BitVec.ofNat 32 tndx
  else -1

/-- The tests of `DisableInterrupts()` for other clients. The last one takes
the number of a slot for that of a source. -/
def othersRemain (behind : Behind) (cntr : U32) (tndx c : Nat) : Prop :=
  (cntr ≠ -1 ∧ (mcon.hardWord behind cntr.toNat &&& ~~~clientMask c ≠ 0 ∨
    ∃ i ∈ List.range CtrDrvrRamTableSIZE,
      (mcon.trigs i).counter = cntr ∧ mcon.clients i &&& ~~~clientMask c ≠ 0)) ∨
  mcon.hardWord behind tndx &&& ~~~clientMask c ≠ 0

instance (behind : Behind) (cntr : U32) (tndx c : Nat) :
    Decidable (mcon.othersRemain behind cntr tndx c) :=
  inferInstanceAs (Decidable (_ ∨ _))

def disableInterrupts (behind : Behind) (clss : CtrDrvrConnectionClass)
    (c tndx : Nat) : ModuleContext :=
  let cntr := mcon.counterOf clss tndx
  if mcon.othersRemain behind cntr tndx c then mcon
  else
    let hmsk := 1#32 <<< (if cntr ≠ -1 then cntr.toNat else tndx)
    let mcon := { mcon with interruptEnable := mcon.interruptEnable &&& ~~~hmsk }
    mcon.hWr mcon.interruptEnable mapInterruptEnable

/-! ## Connect -/

/-- `Clients[i] |= cmsk` and the bus bit of the slot, with the mask of the
interrupt. -/
def connectSlot (c : Nat) (hmsk : U32) (i : Nat) : ModuleContext :=
  let mcon := { mcon with
    clients := Function.update mcon.clients i (mcon.clients i ||| clientMask c)
    interruptEnable := mcon.interruptEnable ||| hmsk }
  mcon.hWr (mcon.map (mapConfigs i) ||| busBit) (mapConfigs i)

def connectPtim (eqpNum : U32) (c : Nat) : Except Errno ModuleContext :=
  let slots := mcon.matching eqpNum .PTIM
  if slots = [] then .error ENXIO
  else
    let mcon := slots.foldl (fun mcon i =>
      mcon.connectSlot c (1#32 <<< (mcon.trigs i).counter.toNat) i) mcon
    .ok (mcon.enableInterrupts mcon.interruptEnable)

def CtrDrvrInterruptMaskCOUNTER_0 : U32 := 1

def ctimTrigger (eqpNum : U32) (frame : CtrDrvrEventFrame) : CtrDrvrTrigger :=
  { ctim := eqpNum, frame := frame }

def ctimConfig : CtrDrvrCounterConfiguration :=
  { onZero := CtrDrvrCounterOnZeroBUS }

/-- A new instance of a CTIM object in the slot. -/
def fillCtim (eqpNum : U32) (frame : CtrDrvrEventFrame) (c i : Nat) :
    ModuleContext :=
  let trig := ctimTrigger eqpNum frame
  let mcon := { mcon with
    eqpNum := Function.update mcon.eqpNum i eqpNum
    eqpClass := Function.update mcon.eqpClass i .CTIM
    trigs := Function.update mcon.trigs i trig
    configs := Function.update mcon.configs i ctimConfig }
  let mcon := (mcon.writeTrig i trig).writeConfig i ctimConfig
  { mcon with
    clients := Function.update mcon.clients i (mcon.clients i ||| clientMask c)
    interruptEnable := mcon.interruptEnable ||| CtrDrvrInterruptMaskCOUNTER_0 }

/-- The first slot whose `EqpNum` is 0. -/
def emptySlot : Option Nat :=
  (List.range CtrDrvrRamTableSIZE).find? fun i => mcon.eqpNum i = 0

/-- The frame of the CTIM object, or the zero frame. -/
def ctimFrame (ctim : List CtrDrvrCtimBinding) (eqpNum : U32) :
    CtrDrvrEventFrame :=
  ((ctim.find? fun obj => obj.eqpNum = eqpNum).map (·.frame)).getD {}

def connectCtim (ctim : List CtrDrvrCtimBinding) (eqpNum : U32) (c : Nat) :
    Except Errno ModuleContext :=
  match (mcon.matching eqpNum .CTIM).head? with
  | some i =>
    let mcon := mcon.connectSlot c CtrDrvrInterruptMaskCOUNTER_0 i
    .ok (mcon.enableInterrupts mcon.interruptEnable)
  | none =>
    let frme := ctimFrame ctim eqpNum
    if frme.header = 0 then .error ENXIO
    else
      match mcon.emptySlot with
      | none => .error .ENOMEM
      | some i =>
        let mcon := mcon.fillCtim eqpNum frme c i
        .ok (mcon.enableInterrupts mcon.interruptEnable)

/-- The sources that the number names as a mask. -/
def sourcesOf (eqpNum : U32) : List Nat :=
  (List.range CtrDrvrInterruptSOURCES).filter eqpNum.getLsbD

def connectSource (c i : Nat) : ModuleContext :=
  { mcon with
    interruptEnable := mcon.interruptEnable ||| 1#32 <<< i
    hardClients := Function.update mcon.hardClients i
      (mcon.hardClients i ||| clientMask c) }

def connectHard (eqpNum : U32) (c : Nat) : Except Errno ModuleContext :=
  let sources := sourcesOf eqpNum
  if sources = [] then .error ENXIO
  else
    let mcon := sources.foldl (fun mcon i => mcon.connectSource c i) mcon
    .ok (mcon.enableInterrupts mcon.interruptEnable)

end ModuleContext

/-- The index of the module of a PTIM object. -/
def WorkingArea.getPtimModule (wa : WorkingArea) (eqpNum : U32) : Option Nat :=
  (wa.ptim.find? fun obj => obj.eqpNum = eqpNum).map (·.moduleIndex)

/-- The module a connection names, or else the one the client has selected. -/
def connectModule (wa : WorkingArea) (conx : CtrDrvrConnection) (c : Nat) : Nat :=
  if 1 ≤ conx.module ∧ conx.module ≤ CtrDrvrMODULE_CONTEXTS then conx.module - 1
  else (wa.clientContexts c).moduleIndex

/-- `Connect()`: the module it works on, and what it leaves there. -/
def connect (wa : WorkingArea) (conx : CtrDrvrConnection) (c : Nat) :
    Except Errno (Nat × ModuleContext) :=
  let midx := connectModule wa conx c
  match conx.eqpClass with
  | .PTIM =>
    match wa.getPtimModule conx.eqpNum with
    | none => .error ENXIO
    | some midx =>
      ((wa.moduleContexts midx).connectPtim conx.eqpNum c).map (midx, ·)
  | .CTIM =>
    ((wa.moduleContexts midx).connectCtim wa.ctim conx.eqpNum c).map (midx, ·)
  | .HARD | .other _ =>
    ((wa.moduleContexts midx).connectHard conx.eqpNum c).map (midx, ·)

/-! ## Disconnect -/

namespace ModuleContext

variable (mcon : ModuleContext) (behind : Behind)

/-- What `DisConnectOne()` does to a slot that its last client has left. -/
def releaseSlot (tndx : Nat) : ModuleContext :=
  if mcon.eqpClass tndx = .CTIM then
    let mcon := (mcon.writeTrig tndx {}).writeConfig tndx {}
    { mcon with
      eqpNum := Function.update mcon.eqpNum tndx 0
      eqpClass := Function.update mcon.eqpClass tndx .HARD }
  else mcon.hWr (mcon.map (mapConfigs tndx) &&& ~~~busBit) (mapConfigs tndx)

/-- `Clients[tndx] &= ncmsk` -/
def leaveSlot (c tndx : Nat) : ModuleContext :=
  { mcon with clients :=
      Function.update mcon.clients tndx (mcon.clients tndx &&& ~~~clientMask c) }

/-- `HardClients[tndx] &= ncmsk` -/
def leaveSource (c tndx : Nat) : ModuleContext :=
  { mcon with hardClients :=
      Function.update mcon.hardClients tndx (mcon.hardClients tndx &&& ~~~clientMask c) }

/-- `DisConnectOne()` of a CTIM or a PTIM. -/
def disConnectSlot (clss : CtrDrvrConnectionClass) (c tndx : Nat) :
    ModuleContext :=
  if clientMask c &&& mcon.clients tndx = 0 then mcon
  else
    let mcon := mcon.leaveSlot c tndx
    if mcon.clients tndx ≠ 0 then mcon
    else (mcon.disableInterrupts behind clss c tndx).releaseSlot tndx

/-- `DisConnectOne()` of an interrupt source. -/
def disConnectSource (c tndx : Nat) : ModuleContext :=
  if mcon.hardClients tndx = 0 then mcon
  else
    let mcon := mcon.leaveSource c tndx
    if mcon.hardClients tndx ≠ 0 then mcon
    else mcon.disableInterrupts behind .HARD c tndx

def disConnectOne (clss : CtrDrvrConnectionClass) (c tndx : Nat) :
    ModuleContext :=
  match clss with
  | .CTIM | .PTIM => mcon.disConnectSlot behind clss c tndx
  | .HARD => mcon.disConnectSource behind c tndx
  | .other _ => mcon

/-- All raw interrupts. -/
def disConnectSources (c : Nat) : ModuleContext :=
  (List.range CtrDrvrInterruptSOURCES).foldl
    (fun mcon i => mcon.disConnectOne behind .HARD c i) mcon

/-- `DisConnect()` on the module it names. -/
def disConnect (eqpNum : U32) (eqpClass : CtrDrvrConnectionClass) (c : Nat) :
    ModuleContext :=
  if eqpClass ≠ .HARD then
    (mcon.matching eqpNum eqpClass).foldl
      (fun mcon i => mcon.disConnectOne behind eqpClass c i) mcon
  else mcon.disConnectSources behind c

/-- The slots whose `EqpNum` is not 0. -/
def occupied : List Nat :=
  (List.range CtrDrvrRamTableSIZE).filter fun i => mcon.eqpNum i ≠ 0

/-- `DisConnectAll()` on one module. -/
def disConnectModule (c : Nat) : ModuleContext :=
  let mcon := mcon.occupied.foldl
    (fun mcon i => mcon.disConnectOne behind (mcon.eqpClass i) c i) mcon
  mcon.disConnectSources behind c

end ModuleContext

/-- `DisConnectAll()` -/
def disConnectAll (wa : WorkingArea) (behind : Nat → Behind) (c : Nat) :
    WorkingArea :=
  { wa with moduleContexts := fun midx =>
      if midx < wa.modules then
        (wa.moduleContexts midx).disConnectModule (behind midx) c
      else wa.moduleContexts midx }

end Coht.Ctr
