import Coht.Ctr.Ioctl
import Coht.Lib.System

/-!
# The CTR driver as a state machine (`ctrdrvr-vme.c`, `ModuleLynxOs.c`)

The entry points of the driver, each one step: the file operations of the
clients, of which `read` is the row of steps of `ClientQueue`, and the
interrupts of the modules. Opens, closes and ioctls exclude one another by a
mutex. A close comes with the last reference to the file, which a read in
progress holds.

What the hardware shows is part of the event: the sources of an interrupt, the
histories of the counters, the time. So is what lies behind `HardClients[]`.
A step that C does not define, or that ends in the kernel, has no next state.
-/

namespace Coht.Ctr

open Coht.Lib

/-! ## The control functions -/

/-- The commands that test the update lock of the selected module, and work on
it alone. -/
inductive Control
  | reset
  | setUtc (tod : U32)
  | setCableId (lav : U32)
  | jtagOpen
  | jtagWriteByte (byte : U32)
  | jtagClose
  | hptdcOpen
  | hptdcIo (hpio : CtrDrvrHptdcIoBuf)
  | hptdcClose
  | rawWrite (offset : Nat) (data : List U32)
  | setOutputByte (lav : Int)
  | enable (lav : Int)
  | setDebugHistory (lav : Int)
  | setBrutalPll (lav : Int)
  | setInputDelay (lav : U32)
  | setRemote (counter : Nat) (remote : U32)
  | remote (counter : Nat) (remote : U32)
  | setOutMask (counter : Nat) (mask : U32) (ttlBar : Bool)
  | setConfig (counter : Nat) (conf : CtrDrvrCounterConfiguration)
  | setPll (pll : CtrDrvrPll)

def ModuleContext.control (mcon : ModuleContext) :
    Control → Except Errno ModuleContext
  | .reset => .ok mcon.reset
  | .setUtc tod => .ok (mcon.setTime tod)
  | .setCableId lav => .ok { mcon with cableId := lav }
  | .jtagOpen => mcon.jtagOpen
  | .jtagWriteByte byte => mcon.jtagWriteByte byte
  | .jtagClose => .ok mcon.jtagClose
  | .hptdcOpen => .ok { mcon with hptdcOpen := true }
  | .hptdcIo hpio => mcon.hptdcIo hpio
  | .hptdcClose => .ok { mcon with hptdcOpen := false }
  | .rawWrite offset data => .ok (mcon.rawWrite offset data)
  | .setOutputByte lav => mcon.setOutputByte lav
  | .enable lav => .ok (mcon.enable lav)
  | .setDebugHistory lav => .ok (mcon.setDebugHistory lav)
  | .setBrutalPll lav => .ok (mcon.setBrutalPll lav)
  | .setInputDelay lav => .ok (mcon.setInputDelay lav)
  | .setRemote counter remote => mcon.setRemote counter remote
  | .remote counter remote => mcon.remote counter remote
  | .setOutMask counter mask ttlBar => mcon.setOutMask counter mask ttlBar
  | .setConfig counter conf => mcon.setConfig counter conf
  | .setPll pll => .ok (mcon.setPll pll)

inductive Ioctl
  | setTimeout (lav : U32)
  | setQueueFlag (lav : Bool)
  | getQueueOverflow
  | setModule (lav : Int)
  | lock
  | unlock (pw : U32)
  | getUtc
  | connect (conx : CtrDrvrConnection)
  | disconnect (conx : CtrDrvrConnection)
  | setAction (act : CtrDrvrAction)
  | createCtim (ctim : CtrDrvrCtimBinding)
  | destroyCtim (ctim : CtrDrvrCtimBinding)
  | changeCtimFrame (ctim : CtrDrvrCtimBinding)
  | createPtim (ptim : CtrDrvrPtimBinding)
  | destroyPtim (ptim : CtrDrvrPtimBinding)
  | control (cmd : Control)
  /-- a command that only reads, or one the driver does not know -/
  | inquiry

/-- The command breaks off at the update lock of the selected module. -/
def Ioctl.testsLock : Ioctl → Bool
  | .connect _ | .disconnect _ | .setAction _ | .createCtim _ | .destroyCtim _
  | .changeCtimFrame _ | .createPtim _ | .destroyPtim _ | .control _ => true
  | .setTimeout _ | .setQueueFlag _ | .getQueueOverflow | .setModule _ | .lock
  | .unlock _ | .getUtc | .inquiry => false

inductive Outcome
  | returns (wa : WorkingArea)
  | fails (err : Errno)
  | undefined

def Outcome.of : Except Errno WorkingArea → Outcome
  | .ok wa => .returns wa
  | .error err => .fails err

/-- An occupied slot of class HARD, which `DisConnectAll()` takes for the number
of an interrupt source. -/
def ModuleContext.strays (mcon : ModuleContext) : Bool :=
  mcon.occupied.any fun i =>
    CtrDrvrInterruptSOURCES ≤ i ∧ mcon.eqpClass i = .HARD

namespace WorkingArea

variable (wa : WorkingArea)

def disConnectAll (behind : Nat → Behind) (c : Nat) : Outcome :=
  if (List.range wa.modules).any fun midx => (wa.moduleContexts midx).strays then
    .undefined
  else .returns (Ctr.disConnectAll wa behind c)

def onModule (midx : Nat) (mcon : Except Errno ModuleContext) : Outcome :=
  .of (mcon.map (wa.setModule midx))

def onClient (c : Nat) (e : ClientEvent) : Outcome :=
  .returns (wa.setClient c ((wa.clientContexts c).next e))

/-- A command past the tests that all of them have in common. -/
def command (behind : Nat → Behind) (c : Nat) (cmd : Ioctl) : Outcome :=
  let ccon := wa.clientContexts c
  let midx := ccon.moduleIndex
  let mcon := wa.moduleContexts midx
  match cmd with
  | .setTimeout lav => wa.onClient c (.setsTimeout lav)
  | .setQueueFlag lav => wa.onClient c (.setsFlag lav)
  | .getQueueOverflow => wa.onClient c .readsOverflow
  | .setModule lav =>
    if 1 ≤ lav ∧ lav ≤ wa.modules then
      .returns (wa.setClient c { ccon with moduleIndex := lav.toNat - 1 })
    else .fails .EINVAL
  | .lock => .returns (wa.setModule midx { mcon with upLock := true })
  | .unlock pw => .returns (wa.setModule midx (mcon.clrUplock pw))
  | .getUtc => .returns (wa.setModule midx mcon.getTime)
  | .connect conx =>
    match Ctr.connect wa conx c with
    | .error err => .fails err
    | .ok (midx, mcon) =>
      if (wa.moduleContexts midx).inUse then .returns (wa.setModule midx mcon)
      else .undefined
  | .disconnect conx =>
    if conx.eqpNum = 0 then wa.disConnectAll behind c
    else if 1 ≤ conx.module ∧ conx.module ≤ CtrDrvrMODULE_CONTEXTS then
      let midx := conx.module - 1
      .returns (wa.setModule midx ((wa.moduleContexts midx).disConnect
        (behind midx) conx.eqpNum conx.eqpClass c))
    else .undefined
  | .setAction act => wa.onModule midx (mcon.setAction act)
  | .createCtim ctim => .of (Ctr.createCtim wa ctim)
  | .destroyCtim ctim => .of (Ctr.destroyCtim wa midx ctim)
  | .changeCtimFrame ctim => .of (Ctr.changeCtimFrame wa midx ctim)
  | .createPtim ptim => .of (Ctr.createPtim wa ptim)
  | .destroyPtim ptim =>
    match Ctr.destroyPtim wa ptim with
    | .error err => .fails err
    | .ok wa' =>
      if (wa.moduleContexts ptim.moduleIndex).inUse then .returns wa'
      else .undefined
  | .control cmd => wa.onModule midx (mcon.control cmd)
  | .inquiry => .returns wa

/-- `CtrDrvrIoctl()` -/
def ioctl (behind : Nat → Behind) (c : Nat) (cmd : Ioctl) : Outcome :=
  let ccon := wa.clientContexts c
  let mcon := wa.moduleContexts ccon.moduleIndex
  if CtrDrvrCLIENT_CONTEXTS ≤ c then .fails .ENODEV
  else if ccon.inUse = false then .fails .EBADF
  else if mcon.inUse = false then .fails .ENODEV
  else if mcon.upLock = true ∧ cmd.testsLock = true then .fails .EINVAL
  else wa.command behind c cmd

/-- `CtrDrvrOpen()` of a file that is not open. -/
def openClient (c : Nat) : WorkingArea :=
  let ccon := wa.clientContexts c
  wa.setClient c (ClientContext.sreset
    { inUse := true, semaphore := ccon.semaphore, timers := ccon.timers,
      reads := ccon.reads })

/-- `CtrDrvrClose()` -/
def closeClient (behind : Nat → Behind) (c : Nat) : Outcome :=
  (wa.setClient c { cancelTimeout (wa.clientContexts c) with inUse := false })
    |>.disConnectAll behind c

end WorkingArea

/-! ## Interrupts and simulated events -/

structure CtrDrvrCounterHistory where
  index : Nat := 0
  frame : CtrDrvrEventFrame := {}
  triggerTime : CtrDrvrCTime := {}
  startTime : CtrDrvrCTime := {}
  onZeroTime : CtrDrvrCTime := {}
  deriving DecidableEq

/-- What the module shows to its interrupt handler. -/
structure Raised where
  source : U32 := 0
  history : Nat → CtrDrvrCounterHistory := fun _ => {}
  time : CtrDrvrCTime := {}

namespace ModuleContext

variable (mcon : ModuleContext) (midx : Nat)

/-- The slot that the history of the counter names, if clients are connected
to it. -/
def loadedSlot (raised : Raised) (inum : Nat) : Option Nat :=
  let tndx := (raised.history inum).index
  if inum < CtrDrvrCOUNTERS ∧ mcon.map (mapLockConfig inum) = 0 ∧
      tndx < CtrDrvrRamTableSIZE ∧ mcon.clients tndx ≠ 0 then some tndx
  else none

/-- The buffer of `IntrHandler()` for one source, but for `InterruptNumber`. -/
def intrBuf (raised : Raised) (inum : Nat) : CtrDrvrReadBuf :=
  let hist := raised.history inum
  match mcon.loadedSlot raised inum with
  | some tndx =>
    { triggerNumber := tndx + 1
      frame := hist.frame
      triggerTime := hist.triggerTime
      startTime := hist.startTime
      onZeroTime := hist.onZeroTime
      ctim := (mcon.trigs tndx).ctim
      connection := ⟨midx + 1, mcon.eqpClass tndx, mcon.eqpNum tndx⟩ }
  | none =>
    if mcon.hardClients inum = 0 then {}
    else
      { onZeroTime := if inum < CtrDrvrCOUNTERS then hist.onZeroTime else raised.time
        connection := ⟨midx + 1, .HARD, 1#32 <<< inum⟩ }

/-- Those on whose queues the buffer is put. -/
def intrClients (raised : Raised) (inum : Nat) : U32 :=
  match mcon.loadedSlot raised inum with
  | some tndx => mcon.clients tndx ||| mcon.hardClients inum
  | none => mcon.hardClients inum

/-- `GetTime()` is called for a source that is no counter. -/
def intrLatch (inum : Nat) : ModuleContext :=
  if CtrDrvrCOUNTERS ≤ inum ∧ mcon.hardClients inum ≠ 0 then mcon.getTime else mcon

end ModuleContext

/-- The buffer is put on the queues of the clients. -/
def deliver (clients : U32) (rb : CtrDrvrReadBuf) (wa : WorkingArea) : WorkingArea :=
  { wa with clientContexts := fun c =>
      if c < CtrDrvrCLIENT_CONTEXTS ∧ clients.getLsbD c then
        queuePut rb (wa.clientContexts c)
      else wa.clientContexts c }

/-- One round of the loop in `IntrHandler()`. -/
def intrSource (midx : Nat) (raised : Raised) (wa : WorkingArea) (inum : Nat) :
    WorkingArea :=
  let mcon := wa.moduleContexts midx
  let rb := { mcon.intrBuf midx raised inum with interruptNumber := BitVec.ofNat 32 inum }
  (deliver (mcon.intrClients raised inum) rb wa).setModule midx (mcon.intrLatch inum)

def intrHandler (midx : Nat) (raised : Raised) (wa : WorkingArea) : WorkingArea :=
  (ModuleContext.sourcesOf raised.source).foldl (intrSource midx raised) wa

structure CtrDrvrWriteBuf where
  triggerNumber : Nat := 0
  connection : CtrDrvrConnection := {}
  payload : U32 := 0
  deriving DecidableEq

namespace ModuleContext

variable (mcon : ModuleContext)

/-- What `CtrDrvrWrite()` takes from a slot. -/
def slotBuf (tndx : Nat) : CtrDrvrReadBuf :=
  let trig := mcon.trigs tndx
  { triggerNumber := tndx + 1
    frame := trig.frame
    ctim := trig.ctim
    interruptNumber := trig.counter }

/-- The clients and the buffer of `CtrDrvrWrite()`, but for the connection and
the times. -/
def written (wb : CtrDrvrWriteBuf) : U32 × CtrDrvrReadBuf :=
  let conx := wb.connection
  if conx.eqpClass ≠ .HARD then
    if wb.triggerNumber = 0 then
      match (mcon.matching conx.eqpNum conx.eqpClass).head? with
      | some tndx =>
        let rb := mcon.slotBuf tndx
        (mcon.clients tndx, { rb with frame := rb.frame.setValue wb.payload })
      | none => (0, {})
    else
      let tndx := wb.triggerNumber - 1
      (mcon.clients tndx, mcon.slotBuf tndx)
  else
    (sourcesOf conx.eqpNum).foldl
      (fun (clients, rb) i =>
        (clients ||| mcon.hardClients i,
          { rb with interruptNumber := BitVec.ofNat 32 (i + 1) }))
      (0, {})

end ModuleContext

/-- `CtrDrvrWrite()`. A trigger number is not tested against the table. -/
def ctrDrvrWrite (wb : CtrDrvrWriteBuf) (time : CtrDrvrCTime) (wa : WorkingArea) :
    Outcome :=
  let conx := wb.connection
  if conx.module = 0 ∨ CtrDrvrMODULE_CONTEXTS < conx.module then .fails .EINVAL
  else if conx.eqpClass ≠ .HARD ∧ CtrDrvrRamTableSIZE < wb.triggerNumber then
    .undefined
  else
    let midx := conx.module - 1
    let mcon := wa.moduleContexts midx
    let (clients, rb) := mcon.written wb
    if clients = 0 then .returns wa
    else
      .returns ((deliver clients { rb with
        connection := conx
        triggerTime := time
        startTime := time
        onZeroTime := time } wa).setModule midx mcon.getTime)

/-! ## Steps -/

inductive Event
  | opens (c : Nat)
  | closes (c : Nat) (behind : Nat → Behind)
  | ioctl (c : Nat) (cmd : Ioctl) (behind : Nat → Behind)
  | writes (c : Nat) (wb : CtrDrvrWriteBuf) (time : CtrDrvrCTime)
  | reads (c : Nat) (e : ClientEvent)
  | interrupts (midx : Nat) (raised : Raised)

/-- The events of a client that are sections of a read or its time-out. -/
def ClientEvent.ofRead : ClientEvent → Bool
  | .puts _ | .setsFlag _ | .setsTimeout _ | .readsOverflow => false
  | .enters _ | .arms .. | .waits _ | .signalled _ | .aborts _ | .looks _
  | .cancels _ | .takes _ | .fires => true

def ClientEvent.entersRead : ClientEvent → Bool
  | .enters _ => true
  | _ => false

def ClientContext.idle (ccon : ClientContext) : Bool :=
  ccon.reads.isEmpty && ccon.semaphore.waitList.isEmpty

/-- The step can be taken. -/
def WorkingArea.ready (wa : WorkingArea) : Event → Prop
  | .opens c => c < CtrDrvrCLIENT_CONTEXTS ∧ (wa.clientContexts c).inUse = false
  | .closes c _ =>
    c < CtrDrvrCLIENT_CONTEXTS ∧ (wa.clientContexts c).inUse = true ∧
      (wa.clientContexts c).idle = true
  | .ioctl .. => True
  | .writes c _ _ => c < CtrDrvrCLIENT_CONTEXTS ∧ (wa.clientContexts c).inUse = true
  | .reads c e =>
    c < CtrDrvrCLIENT_CONTEXTS ∧ e.ofRead = true ∧ (wa.clientContexts c).ready e ∧
      (e.entersRead = true → (wa.clientContexts c).inUse = true)
  | .interrupts midx _ => (wa.moduleContexts midx).inUse = true

instance (wa : WorkingArea) (e : Event) : Decidable (wa.ready e) :=
  match e with
  | .opens _ | .closes .. | .writes .. | .reads .. => inferInstanceAs (Decidable (_ ∧ _))
  | .ioctl .. => inferInstanceAs (Decidable True)
  | .interrupts .. => inferInstanceAs (Decidable (_ = _))

/-- The state after a step, where it has one. A request that fails leaves the
state as it is. -/
def Outcome.after (wa : WorkingArea) : Outcome → Option WorkingArea
  | .returns wa' => some wa'
  | .fails _ => some wa
  | .undefined => none

def WorkingArea.next (wa : WorkingArea) : Event → Option WorkingArea
  | .opens c => some (wa.openClient c)
  | .closes c behind => (wa.closeClient behind c).after wa
  | .ioctl c cmd behind => (wa.ioctl behind c cmd).after wa
  | .writes _ wb time => (ctrDrvrWrite wb time wa).after wa
  | .reads c e => some (wa.setClient c ((wa.clientContexts c).next e))
  | .interrupts midx raised => some (intrHandler midx raised wa)

/-- The driver after `CtrDrvrInstall()`: some modules are in use, with what
their memory holds. Interrupts are disabled. -/
def installed (modules : Nat) (inUse : Nat → Bool) (map : Nat → Nat → U32) :
    WorkingArea :=
  { modules := modules
    moduleContexts := fun midx => { inUse := inUse midx, map := map midx } }

structure Installed (wa : WorkingArea) : Prop where
  modules : wa.modules ≤ CtrDrvrMODULE_CONTEXTS
  inUse : ∀ midx, (wa.moduleContexts midx).inUse = true → midx < wa.modules
  disabled : ∀ midx, (wa.moduleContexts midx).map mapInterruptEnable = 0
  fresh : wa = installed wa.modules (fun midx => (wa.moduleContexts midx).inUse)
    fun midx => (wa.moduleContexts midx).map

def driver : System WorkingArea Event where
  init := Installed
  step wa e wa' := wa.ready e ∧ wa.next e = some wa'

theorem installed_installed {modules : Nat} {inUse : Nat → Bool}
    {map : Nat → Nat → U32} (hmodules : modules ≤ CtrDrvrMODULE_CONTEXTS)
    (hin : ∀ midx, inUse midx = true → midx < modules)
    (hmap : ∀ midx, map midx mapInterruptEnable = 0) :
    Installed (installed modules inUse map) :=
  ⟨hmodules, hin, hmap, rfl⟩

/-- A driver of one module. -/
def oneModule : WorkingArea := installed 1 (fun midx => midx < 1) fun _ _ => 0

theorem oneModule_installed : Installed oneModule :=
  installed_installed (by decide) (fun _ h => of_decide_eq_true h) fun _ => rfl

def twoModules : WorkingArea := installed 2 (fun midx => midx < 2) fun _ _ => 0

theorem twoModules_installed : Installed twoModules :=
  installed_installed (by decide) (fun _ h => of_decide_eq_true h) fun _ => rfl

/-! ## Runs that are computed -/

/-- The state after the events, where each of them can come and meets the
condition. -/
def WorkingArea.run (ok : WorkingArea → Event → Prop)
    [∀ wa e, Decidable (ok wa e)] (wa : WorkingArea) : List Event → Option WorkingArea
  | [] => some wa
  | e :: es =>
    if wa.ready e ∧ ok wa e then (wa.next e).bind fun wa => wa.run ok es
    else none

section

variable {ok : WorkingArea → Event → Prop} [∀ wa e, Decidable (ok wa e)]
  {wa wa' : WorkingArea} {es : List Event}

theorem run_run (h : wa.run ok es = some wa') : (driver.guarded ok).Run wa es wa' := by
  induction es generalizing wa with
  | nil =>
    cases h
    exact .nil _
  | cons e es ih =>
    unfold WorkingArea.run at h
    split at h
    · next hok =>
      obtain ⟨wa'', hnext, hrest⟩ := Option.bind_eq_some_iff.mp h
      exact .cons ⟨hok.2, hok.1, hnext⟩ (ih hrest)
    · cases h

theorem exists_run {P : WorkingArea → Prop} [DecidablePred P]
    (h : (wa.run ok es).any (fun wa => P wa) = true) :
    ∃ wa', wa.run ok es = some wa' ∧ P wa' := by
  obtain ⟨wa', hrun, hP⟩ := (Option.any_eq_true _ _).mp h
  exact ⟨wa', hrun, of_decide_eq_true hP⟩

end

end Coht.Ctr
