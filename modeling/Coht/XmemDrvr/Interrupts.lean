import Coht.XmemDrvr.ClientQueue
import Coht.XmemDrvr.Connections

/-!
# Delivering interrupts (`xmemDrvr.c`)

`IntrHandler()` goes through the sources that are raised, builds one entry for
all of them, and puts it on the queue of each client whose mask meets them;
`InterruptSelf()` does the same for an interrupt the module sends to itself,
and `XmemDrvrWrite()` for the software wakeup. The segments of an update are
set in `UpdatedSegments` of every client, and `XmemDrvrCHECK_SEGMENT` returns
and clears them.

`xmemSystem` puts the connections and the queues together: interrupts, calls
of the clients and steps of their reads come one after the other. The DMA
interrupts and the registers that only tell the hardware to go on are left
out.
-/

namespace Coht.XmemDrvr

open Coht.Lib

def XmemDrvrDEFAULT_TIMEOUT : U32 := 1000

def VmicLisrSOURCES : Nat := 14
def VmicLisrSOURCE_MASK : U32 := 0x3FCF
def VmicLisrPARITY_ERROR : U32 := 0x2000
def VmicLisrWRITE_ERROR : U32 := 0x1000
def VmicLisrLOST_SYNC : U32 := 0x0800
def VmicLisrRX_OVERFLOW : U32 := 0x0400
def VmicLisrRX_ALMOST_FULL : U32 := 0x0200
def VmicLisrDATA_ERROR : U32 := 0x0100
def VmicLisrPENDING_INIT : U32 := 0x0080
def VmicLisrROGUE_CLOBBER : U32 := 0x0040
def VmicLisrRESET_RQ : U32 := 0x0008
def VmicLisrINT3 : U32 := 0x0004
def VmicLisrINT2 : U32 := 0x0002
def VmicLisrINT1 : U32 := 0x0001

def XmemDrvrIntrSOFTWAKEUP : U32 := 0x10000
def XmemDrvrIntrPENDING_INIT : U32 := 0x0080
def XmemDrvrIntrREQUEST_RESET : U32 := 0x0008
def XmemDrvrIntrSEGMENT_UPDATE : U32 := 0x0004
def XmemDrvrIntrINT_2 : U32 := 0x0002
def XmemDrvrIntrINT_1 : U32 := 0x0001

def XmemDrvrNicTYPE : U32 := 0x07
def XmemDrvrNicREQUEST_RESET : U32 := 0x00
def XmemDrvrNicINT_1 : U32 := 0x01
def XmemDrvrNicINT_2 : U32 := 0x02
def XmemDrvrNicSEGMENT_UPDATE : U32 := 0x03
def XmemDrvrNicINITIALIZED : U32 := 0x07

/-- What the handler reads: whether `INTCSR` says that the local side has
interrupted, the sources, and the data and the sender of each that has them. -/
structure IntrRegs where
  statusLocal : Bool
  lisr : U32
  isd1 : U32
  sid1 : BitVec 8
  isd2 : U32
  sid2 : BitVec 8
  isd3 : U32
  sid3 : BitVec 8
  initd : U32
  initn : BitVec 8

structure XmemDrvrSendBuf where
  module : U32
  interruptType : U32
  data : U32

structure XmemDrvrWriteBuf where
  module : U32
  data : U32
  nodeId : U32

/-! ## The entry -/

def XmemDrvrReadBuf.fill (rbf : XmemDrvrReadBuf) (idx : XmemDrvrIntIdx)
    (data node : U32) : XmemDrvrReadBuf :=
  { rbf with
    ndData := Function.update rbf.ndData idx data
    nodeId := Function.update rbf.nodeId idx node }

/-- `1 << (node - 1)`, by the low five bits. -/
def nodeBit (node : U32) : U32 := 1 <<< ((node - 1).toNat % 32)

/-- What the loop over the sources adds to. -/
structure Gathered where
  rbf : XmemDrvrReadBuf
  usegs : U32
  nodes : U32

/-- The cases of the switch over the sources. -/
inductive LisrCase
  | quiet | pendingInit | int3 | int2 | int1 | other
  deriving DecidableEq

def lisrCase (msk : U32) : LisrCase :=
  if msk = VmicLisrPARITY_ERROR ∨ msk = VmicLisrWRITE_ERROR ∨
      msk = VmicLisrLOST_SYNC ∨ msk = VmicLisrRX_OVERFLOW ∨
      msk = VmicLisrRX_ALMOST_FULL ∨ msk = VmicLisrDATA_ERROR ∨
      msk = VmicLisrROGUE_CLOBBER ∨ msk = VmicLisrRESET_RQ then .quiet
  else if msk = VmicLisrPENDING_INIT then .pendingInit
  else if msk = VmicLisrINT3 then .int3
  else if msk = VmicLisrINT2 then .int2
  else if msk = VmicLisrINT1 then .int1
  else .other

/-- One source that is raised, on a module with the node `own`. -/
def addSource (regs : IntrRegs) (own msk : U32) (g : Gathered) : Gathered :=
  let g := { g with rbf := { g.rbf with mask := g.rbf.mask ||| msk } }
  match lisrCase msk with
  | .quiet => g
  | .pendingInit =>
    let node := regs.initn.setWidth 32
    { g with
      rbf := g.rbf.fill .pendingInit regs.initd node
      nodes :=
        if regs.initd = 0 then g.nodes ||| nodeBit node
        else nodeBit own ||| nodeBit node }
  | .int3 =>
    let node := regs.sid3.setWidth 32
    { rbf := g.rbf.fill .segmentUpdate regs.isd3 node
      usegs := regs.isd3
      nodes := g.nodes ||| nodeBit node }
  | .int2 =>
    let node := regs.sid2.setWidth 32
    { g with
      rbf := g.rbf.fill .int2 regs.isd2 node
      nodes := g.nodes ||| nodeBit node }
  | .int1 =>
    let node := regs.sid1.setWidth 32
    { g with
      rbf := g.rbf.fill .int1 regs.isd1 node
      nodes := g.nodes ||| nodeBit node }
  | .other => { g with rbf := { g.rbf with mask := 0 } }

def sourceStep (regs : IntrRegs) (own isrc : U32) (g : Gathered) (i : Nat) :
    Gathered :=
  if 1#32 <<< i &&& isrc = 0 then g else addSource regs own (1#32 <<< i) g

def gather (regs : IntrRegs) (own isrc : U32) (g : Gathered) : Gathered :=
  (List.range VmicLisrSOURCES).foldl (sourceStep regs own isrc) g

/-- The entry of `InterruptSelf()`, and the segments of an update. -/
def selfEntry (sbuf : XmemDrvrSendBuf) (own : U32) : XmemDrvrReadBuf × U32 :=
  let rbf : XmemDrvrReadBuf := { module := sbuf.module }
  let ntype := sbuf.interruptType &&& XmemDrvrNicTYPE
  if ntype = XmemDrvrNicREQUEST_RESET then
    ({ rbf with mask := XmemDrvrIntrREQUEST_RESET }, 0)
  else if ntype = XmemDrvrNicINT_1 then
    ({ rbf with mask := XmemDrvrIntrINT_1 }.fill .int1 sbuf.data own, 0)
  else if ntype = XmemDrvrNicINT_2 then
    ({ rbf with mask := XmemDrvrIntrINT_2 }.fill .int2 sbuf.data own, 0)
  else if ntype = XmemDrvrNicSEGMENT_UPDATE then
    ({ rbf with mask := XmemDrvrIntrSEGMENT_UPDATE }.fill .segmentUpdate sbuf.data
      own, sbuf.data)
  else if ntype = XmemDrvrNicINITIALIZED then
    ({ rbf with mask := XmemDrvrIntrPENDING_INIT }.fill .pendingInit sbuf.data own,
      0)
  else (rbf, 0)

/-- The entry of `XmemDrvrWrite()`. It is on the stack, and no more of it is
cleared than the size of the writer's buffer, the first three words. -/
def wakeupEntry (stack : XmemDrvrReadBuf) (wbf : XmemDrvrWriteBuf) :
    XmemDrvrReadBuf :=
  { module := wbf.module
    ndData := Function.update (Function.update stack.ndData .int1 0) .int2 0
    nodeId := stack.nodeId
    mask := XmemDrvrIntrSOFTWAKEUP : XmemDrvrReadBuf }.fill .softwakeup wbf.data
    wbf.nodeId

/-! ## Delivery -/

structure XmemArea where
  conns : ConnArea
  /-- `mcon->NodeId` -/
  nodeId : Nat → U32
  /-- `Wa->Nodes` -/
  nodes : U32 := 0
  clients : Nat → Client := fun _ => {}
  updatedSegments : Nat → U32 := fun _ => 0

/-- What a client is connected to on a module. -/
def XmemArea.mask (wa : XmemArea) (m i : Nat) : U32 :=
  (wa.conns.moduleContexts m).clients i

/-- One round of the loop over the clients. -/
def deliverTo (m : Nat) (rbf : XmemDrvrReadBuf) (usegs meets : U32) (i : Nat)
    (wa : XmemArea) : XmemArea :=
  let wa :=
    if usegs = 0 then wa
    else { wa with updatedSegments :=
      Function.update wa.updatedSegments i (wa.updatedSegments i ||| usegs) }
  if wa.mask m i &&& meets = 0 then wa
  else { wa with clients := Function.update wa.clients i (qPut rbf (wa.clients i)) }

/-- The loop over the first `n` clients. -/
def deliver (m : Nat) (rbf : XmemDrvrReadBuf) (usegs meets : U32) :
    Nat → XmemArea → XmemArea
  | 0, wa => wa
  | n + 1, wa => deliverTo m rbf usegs meets n (deliver m rbf usegs meets n wa)

/-- The sources that the handler sees. -/
def raised (regs : IntrRegs) : U32 :=
  if regs.statusLocal then regs.lisr &&& VmicLisrSOURCE_MASK else 0

def intrHandler (m : Nat) (regs : IntrRegs) (wa : XmemArea) : XmemArea :=
  let isrc := raised regs
  if isrc = 0 then wa
  else
    let g := gather regs (wa.nodeId m) isrc
      { rbf := { module := BitVec.ofNat 32 (m + 1) }, usegs := 0
        nodes := wa.nodes }
    deliver m g.rbf g.usegs isrc XmemDrvrCLIENT_CONTEXTS
      { wa with nodes := g.nodes }

def interruptSelf (m : Nat) (sbuf : XmemDrvrSendBuf) (wa : XmemArea) :
    XmemArea :=
  let (rbf, usegs) := selfEntry sbuf (wa.nodeId m)
  deliver m rbf usegs rbf.mask XmemDrvrCLIENT_CONTEXTS wa

/-- `XmemDrvrWrite()` -/
def softWakeup (stack : XmemDrvrReadBuf) (wbf : XmemDrvrWriteBuf)
    (wa : XmemArea) : XmemArea :=
  if wa.conns.modules ≤ (wbf.module - 1).toNat then wa
  else
    deliver (wbf.module - 1).toNat (wakeupEntry stack wbf) 0
      XmemDrvrIntrSOFTWAKEUP XmemDrvrCLIENT_CONTEXTS wa

/-- `XmemDrvrCHECK_SEGMENT`, with what it returns. -/
def checkSegment (i : Nat) (wa : XmemArea) : U32 × XmemArea :=
  (wa.updatedSegments i,
    { wa with updatedSegments := Function.update wa.updatedSegments i 0 })

def XmemArea.client (i : Nat) (f : Client → Client) (wa : XmemArea) : XmemArea :=
  { wa with clients := Function.update wa.clients i (f (wa.clients i)) }

/-- `XmemDrvrOpen()` wipes the context; the semaphore and the timers belong to
the layer below. -/
def openClient (i : Nat) (wa : XmemArea) : XmemArea :=
  { wa.client i fun ccon => qReset
      { semaphore := ccon.semaphore, timers := ccon.timers
        timeout := XmemDrvrDEFAULT_TIMEOUT } with
    updatedSegments := Function.update wa.updatedSegments i 0 }

/-- `XmemDrvrClose()`, but for its `DisConnectAll()`. -/
def wipeClient (i : Nat) (wa : XmemArea) : XmemArea :=
  { wa.client i fun ccon =>
      { semaphore := ccon.semaphore, timers := (cancelTimeout ccon).timers } with
    updatedSegments := Function.update wa.updatedSegments i 0 }

/-! ## Runs -/

inductive XmemEvent
  | interrupts (m : Nat) (regs : IntrRegs)
  | selfs (m : Nat) (sbuf : XmemDrvrSendBuf)
  | writes (stack : XmemDrvrReadBuf) (wbf : XmemDrvrWriteBuf)
  | conn (e : ConnEvent)
  | opens (i : Nat)
  | checks (i : Nat)
  /-- a step of the client's own -/
  | own (i : Nat) (e : ClientEvent)

def XmemArea.next (wa : XmemArea) : XmemEvent → XmemArea
  | .interrupts m regs => intrHandler m regs wa
  | .selfs m sbuf => interruptSelf m sbuf wa
  | .writes stack wbf => softWakeup stack wbf wa
  | .conn e =>
    let wa := { wa with conns := wa.conns.next e }
    match e with
    | .closes i => wipeClient i wa
    | .connects .. | .disConnects .. | .selects .. => wa
  | .opens i => openClient i wa
  | .checks i => (checkSegment i wa).2
  | .own i e => wa.client i fun ccon => ccon.next e

/-- A client opens and closes its file while it does not read, and makes the
steps of its read in their order. -/
def XmemArea.ready (wa : XmemArea) : XmemEvent → Prop
  | .own i e => (wa.clients i).ready e ∧ ∀ rb, e ≠ .puts rb
  | .opens i => (wa.clients i).phase = .idle
  | .conn (.closes i) => (wa.clients i).phase = .idle
  | .interrupts .. | .selfs .. | .writes .. | .conn _ | .checks _ => True

def xmemSystem : System XmemArea XmemEvent where
  init wa := ∃ modules nodeId,
    wa = { conns := { modules := modules }, nodeId := nodeId }
  step wa e wa' := wa.ready e ∧ wa' = wa.next e

/-! ## What the loop over the sources gathers -/

/-- The bit of the interrupt that has a field of its own. -/
def XmemDrvrIntIdx.bit : XmemDrvrIntIdx → Nat
  | .int1 => 0
  | .int2 => 1
  | .segmentUpdate => 2
  | .pendingInit => 7
  | .softwakeup => 16

def IntrRegs.data (regs : IntrRegs) : XmemDrvrIntIdx → U32
  | .int1 => regs.isd1
  | .int2 => regs.isd2
  | .segmentUpdate => regs.isd3
  | .pendingInit => regs.initd
  | .softwakeup => 0

def IntrRegs.node (regs : IntrRegs) : XmemDrvrIntIdx → U32
  | .int1 => regs.sid1.setWidth 32
  | .int2 => regs.sid2.setWidth 32
  | .segmentUpdate => regs.sid3.setWidth 32
  | .pendingInit => regs.initn.setWidth 32
  | .softwakeup => 0

section Gather

variable {regs : IntrRegs} {own isrc : U32} {g g' g'' : Gathered} {i : Nat}
  {l : List Nat}

structure Gathers (regs : IntrRegs) (isrc : U32) (l : List Nat)
    (g g' : Gathered) : Prop where
  module : g'.rbf.module = g.rbf.module
  mask : ∀ j, g'.rbf.mask.getLsbD j =
    (g.rbf.mask.getLsbD j || decide (j ∈ l) && isrc.getLsbD j)
  data : ∀ idx, g'.rbf.ndData idx =
    if idx.bit ∈ l ∧ isrc.getLsbD idx.bit = true then regs.data idx
    else g.rbf.ndData idx
  node : ∀ idx, g'.rbf.nodeId idx =
    if idx.bit ∈ l ∧ isrc.getLsbD idx.bit = true then regs.node idx
    else g.rbf.nodeId idx
  usegs : g'.usegs =
    if 2 ∈ l ∧ isrc.getLsbD 2 = true then regs.isd3 else g.usegs

theorem ite_cons {α : Type} {b : Nat} {c : Prop} [Decidable c] {x y : α} :
    (if b ∈ l ∧ c then x else if b ∈ [i] ∧ c then x else y) =
      if b ∈ i :: l ∧ c then x else y := by
  by_cases hl : b ∈ l ∧ c
  · rw [if_pos hl, if_pos ⟨List.mem_cons_of_mem i hl.1, hl.2⟩]
  · rw [if_neg hl]
    refine if_congr ⟨fun h => ⟨?_, h.2⟩, fun h => ⟨?_, h.2⟩⟩ rfl rfl
    · exact List.mem_cons.mpr (.inl (List.mem_singleton.mp h.1))
    · have hi := (List.mem_cons.mp h.1).resolve_right fun hb => hl ⟨hb, h.2⟩
      exact List.mem_singleton.mpr hi

theorem Gathers.cons (h : Gathers regs isrc [i] g g')
    (hl : Gathers regs isrc l g' g'') : Gathers regs isrc (i :: l) g g'' where
  module := hl.module.trans h.module
  mask j := by
    rw [hl.mask, h.mask]
    simp only [List.mem_cons, Bool.decide_or]
    cases g.rbf.mask.getLsbD j <;> cases isrc.getLsbD j <;> simp
  data idx := by rw [hl.data, h.data, ite_cons]
  node idx := by rw [hl.node, h.node, ite_cons]
  usegs := by rw [hl.usegs, h.usegs, ite_cons]

theorem XmemDrvrIntIdx.bit_inj :
    ∀ idx idx' : XmemDrvrIntIdx, idx.bit = idx'.bit → idx = idx' := by
  decide

theorem lisrCase_known : ∀ i < VmicLisrSOURCES,
    VmicLisrSOURCE_MASK.getLsbD i = true →
      (∃ idx : XmemDrvrIntIdx, idx.bit = i) ∨
      (∀ idx : XmemDrvrIntIdx, idx.bit ≠ i) ∧
        lisrCase (1#32 <<< i) = .quiet := by
  decide

structure Fills (regs : IntrRegs) (idx : XmemDrvrIntIdx) (g g' : Gathered) :
    Prop where
  module : g'.rbf.module = g.rbf.module
  mask : g'.rbf.mask = g.rbf.mask ||| 1#32 <<< idx.bit
  data : g'.rbf.ndData = Function.update g.rbf.ndData idx (regs.data idx)
  node : g'.rbf.nodeId = Function.update g.rbf.nodeId idx (regs.node idx)
  usegs : g'.usegs = if idx = .segmentUpdate then regs.isd3 else g.usegs

theorem addSource_fills {idx : XmemDrvrIntIdx} (hi : idx.bit < VmicLisrSOURCES) :
    Fills regs idx g (addSource regs own (1#32 <<< idx.bit) g) := by
  cases idx with
  | softwakeup => exact absurd hi (by decide)
  | int1 | int2 | segmentUpdate | pendingInit => exact ⟨rfl, rfl, rfl, rfl, rfl⟩

theorem update_eq_ite {idx idx' : XmemDrvrIntIdx} {f v : XmemDrvrIntIdx → U32}
    (hset : isrc.getLsbD idx.bit = true) :
    Function.update f idx (v idx) idx' =
      if idx'.bit ∈ [idx.bit] ∧ isrc.getLsbD idx'.bit = true then v idx'
      else f idx' := by
  by_cases heq : idx' = idx
  · subst heq
    rw [Function.update_self, if_pos ⟨List.mem_singleton_self _, hset⟩]
  · rw [Function.update_of_ne heq, if_neg fun h =>
      heq (XmemDrvrIntIdx.bit_inj _ _ (List.mem_singleton.mp h.1))]

theorem or_oneBit (hi : i < 32) (hset : isrc.getLsbD i = true) {mask : U32}
    (j : Nat) : (mask ||| 1#32 <<< i).getLsbD j =
      (mask.getLsbD j || decide (j ∈ [i]) && isrc.getLsbD j) := by
  rw [BitVec.getLsbD_or, getLsbD_one_shiftLeft_of_lt hi]
  by_cases hj : j = i
  · subst hj
    simp [hset]
  · simp [hj]

theorem Fills.gathers {idx : XmemDrvrIntIdx} (h : Fills regs idx g g')
    (hi : idx.bit < VmicLisrSOURCES) (hset : isrc.getLsbD idx.bit = true) :
    Gathers regs isrc [idx.bit] g g' where
  module := h.module
  mask j := by
    rw [h.mask]
    exact or_oneBit (Nat.lt_trans hi (by decide)) hset j
  data idx' := by
    rw [h.data]
    exact update_eq_ite hset
  node idx' := by
    rw [h.node]
    exact update_eq_ite hset
  usegs := by
    rw [h.usegs]
    by_cases hidx : idx = .segmentUpdate
    · subst hidx
      rw [if_pos rfl, if_pos ⟨List.mem_singleton_self _, hset⟩]
    · rw [if_neg hidx, if_neg fun hbit => hidx
        (XmemDrvrIntIdx.bit_inj idx .segmentUpdate (List.mem_singleton.mp hbit.1).symm)]

theorem addSource_quiet (hcase : lisrCase (1#32 <<< i) = .quiet) :
    addSource regs own (1#32 <<< i) g =
      { g with rbf := { g.rbf with mask := g.rbf.mask ||| 1#32 <<< i } } := by
  unfold addSource
  rw [hcase]

theorem Gathers.none (hclear : isrc.getLsbD i = false) :
    Gathers regs isrc [i] g g := by
  have hnot : ∀ {b : Nat}, ¬ (b ∈ [i] ∧ isrc.getLsbD b = true) := by
    rintro b ⟨hb, hset⟩
    rw [List.mem_singleton.mp hb, hclear] at hset
    cases hset
  refine ⟨rfl, fun j => ?_, fun idx => (if_neg hnot).symm,
    fun idx => (if_neg hnot).symm, (if_neg hnot).symm⟩
  by_cases hj : j = i
  · subst hj
    rw [hclear, Bool.and_false, Bool.or_false]
  · simp [hj]

theorem sourceStep_gathers (hi : i < VmicLisrSOURCES)
    (hknown : isrc.getLsbD i = true → VmicLisrSOURCE_MASK.getLsbD i = true) :
    Gathers regs isrc [i] g (sourceStep regs own isrc g i) := by
  unfold sourceStep
  rw [BitVec.and_comm]
  cases hset : isrc.getLsbD i with
  | false =>
    rw [if_pos (and_one_shiftLeft_eq_zero.mpr hset)]
    exact .none hset
  | true =>
    have hne : ¬ isrc &&& 1#32 <<< i = 0 := fun hzero => by
      rw [and_one_shiftLeft_eq_zero.mp hzero] at hset
      cases hset
    rw [if_neg hne]
    obtain ⟨idx, rfl⟩ | ⟨hno, hcase⟩ := lisrCase_known i hi (hknown hset)
    · exact (addSource_fills hi).gathers hi hset
    · rw [addSource_quiet hcase]
      have hnot : ∀ idx : XmemDrvrIntIdx, ¬ (idx.bit ∈ [i] ∧
          isrc.getLsbD idx.bit = true) := fun idx h =>
        hno idx (List.mem_singleton.mp h.1)
      exact ⟨rfl, or_oneBit (Nat.lt_trans hi (by decide)) hset,
        fun idx => (if_neg (hnot idx)).symm, fun idx => (if_neg (hnot idx)).symm,
        (if_neg (hnot .segmentUpdate)).symm⟩

theorem foldl_gathers (hl : ∀ i ∈ l, i < VmicLisrSOURCES)
    (hknown : ∀ i, isrc.getLsbD i = true → VmicLisrSOURCE_MASK.getLsbD i = true) :
    Gathers regs isrc l g (l.foldl (sourceStep regs own isrc) g) := by
  induction l generalizing g with
  | nil =>
    exact ⟨rfl, fun j => by simp, fun idx => by simp, fun idx => by simp, by simp⟩
  | cons i l ih =>
    exact .cons (sourceStep_gathers (hl i List.mem_cons_self) (hknown i))
      (ih fun j hj => hl j (List.mem_cons_of_mem i hj))

/-- The entry of an interrupt: its mask, and a field for each of its sources
that has one. -/
structure IsEntry (modnr sources : U32) (data node : XmemDrvrIntIdx → U32)
    (rbf : XmemDrvrReadBuf) : Prop where
  module : rbf.module = modnr
  mask : rbf.mask = sources
  ndData : ∀ idx, rbf.ndData idx =
    if sources.getLsbD idx.bit = true then data idx else 0
  nodeId : ∀ idx, rbf.nodeId idx =
    if sources.getLsbD idx.bit = true then node idx else 0

theorem source_lt {j : Nat} (h : VmicLisrSOURCE_MASK.getLsbD j = true) :
    j < VmicLisrSOURCES := by
  have hall : ∀ j < 32, VmicLisrSOURCE_MASK.getLsbD j = true →
      j < VmicLisrSOURCES := by decide
  exact hall j (BitVec.lt_of_getLsbD h) h

theorem gather_entry {modnr nodes : U32}
    (hknown : ∀ i, isrc.getLsbD i = true → VmicLisrSOURCE_MASK.getLsbD i = true) :
    IsEntry modnr isrc regs.data regs.node
        (gather regs own isrc ⟨{ module := modnr }, 0, nodes⟩).rbf ∧
      (gather regs own isrc ⟨{ module := modnr }, 0, nodes⟩).usegs =
        if isrc.getLsbD 2 = true then regs.isd3 else 0 := by
  have h := @foldl_gathers regs own isrc ⟨{ module := modnr }, 0, nodes⟩
    (List.range VmicLisrSOURCES) (fun i hi => List.mem_range.mp hi) hknown
  have hbit : ∀ j, j ∈ List.range VmicLisrSOURCES ∧ isrc.getLsbD j = true ↔
      isrc.getLsbD j = true := fun j =>
    ⟨And.right, fun hset => ⟨List.mem_range.mpr (source_lt (hknown j hset)), hset⟩⟩
  refine ⟨⟨h.module, ?_, fun idx => ?_, fun idx => ?_⟩, ?_⟩
  · apply BitVec.eq_of_getLsbD_eq
    intro j _
    refine (h.mask j).trans ?_
    rw [show (0 : U32).getLsbD j = false from BitVec.getLsbD_zero, Bool.false_or,
      Bool.eq_iff_iff, Bool.and_eq_true, decide_eq_true_iff]
    exact hbit j
  · exact (h.data idx).trans (if_congr (hbit _) rfl rfl)
  · exact (h.node idx).trans (if_congr (hbit _) rfl rfl)
  · exact h.usegs.trans (if_congr (hbit 2) rfl rfl)

theorem raised_known {j : Nat} (h : (raised regs).getLsbD j = true) :
    VmicLisrSOURCE_MASK.getLsbD j = true := by
  unfold raised at h
  split at h
  · rw [BitVec.getLsbD_and, Bool.and_eq_true] at h
    exact h.2
  · simp at h

theorem isEntry_empty {modnr sources : U32} {data node : XmemDrvrIntIdx → U32}
    (h : ∀ idx : XmemDrvrIntIdx, sources.getLsbD idx.bit = false) :
    IsEntry modnr sources data node { module := modnr, mask := sources } :=
  ⟨rfl, rfl, fun idx => (if_neg (Bool.eq_false_iff.mp (h idx))).symm,
    fun idx => (if_neg (Bool.eq_false_iff.mp (h idx))).symm⟩

theorem isEntry_fill {modnr sources data node : U32} {idx : XmemDrvrIntIdx}
    (h : ∀ idx' : XmemDrvrIntIdx,
      sources.getLsbD idx'.bit = true ↔ idx' = idx) :
    IsEntry modnr sources (fun _ => data) (fun _ => node)
      (XmemDrvrReadBuf.fill { module := modnr, mask := sources } idx data node) := by
  have hfield : ∀ (v : U32) (idx' : XmemDrvrIntIdx),
      Function.update (fun _ => (0 : U32)) idx v idx' =
        if sources.getLsbD idx'.bit = true then v else 0 := by
    intro v idx'
    by_cases heq : idx' = idx
    · rw [if_pos ((h idx').mpr heq), heq, Function.update_self]
    · rw [if_neg (mt (h idx').mp heq), Function.update_of_ne heq]
  exact ⟨rfl, rfl, hfield data, hfield node⟩

def XmemDrvrIntIdx.intr : XmemDrvrIntIdx → U32
  | .int1 => XmemDrvrIntrINT_1
  | .int2 => XmemDrvrIntrINT_2
  | .segmentUpdate => XmemDrvrIntrSEGMENT_UPDATE
  | .pendingInit => XmemDrvrIntrPENDING_INIT
  | .softwakeup => XmemDrvrIntrSOFTWAKEUP

theorem XmemDrvrIntIdx.intr_bit : ∀ idx idx' : XmemDrvrIntIdx,
    idx.intr.getLsbD idx'.bit = true ↔ idx' = idx := by
  decide

theorem reset_bit : ∀ idx : XmemDrvrIntIdx,
    XmemDrvrIntrREQUEST_RESET.getLsbD idx.bit = false := by
  decide

theorem selfEntry_entry {sbuf : XmemDrvrSendBuf} :
    IsEntry sbuf.module (selfEntry sbuf own).1.mask (fun _ => sbuf.data)
        (fun _ => own) (selfEntry sbuf own).1 ∧
      (selfEntry sbuf own).2 =
        if sbuf.interruptType &&& XmemDrvrNicTYPE = XmemDrvrNicSEGMENT_UPDATE then
          sbuf.data else 0 := by
  unfold selfEntry
  dsimp only
  generalize sbuf.interruptType &&& XmemDrvrNicTYPE = ntype
  split
  · next h =>
    subst h
    exact ⟨isEntry_empty reset_bit, rfl⟩
  split
  · next h =>
    subst h
    exact ⟨isEntry_fill (XmemDrvrIntIdx.intr_bit .int1), rfl⟩
  split
  · next h =>
    subst h
    exact ⟨isEntry_fill (XmemDrvrIntIdx.intr_bit .int2), rfl⟩
  split
  · exact ⟨isEntry_fill (XmemDrvrIntIdx.intr_bit .segmentUpdate), rfl⟩
  split
  · exact ⟨isEntry_fill (XmemDrvrIntIdx.intr_bit .pendingInit), rfl⟩
  · exact ⟨isEntry_empty fun idx => BitVec.getLsbD_zero, rfl⟩

end Gather

/-! ## What a delivery does -/

section Delivery

variable {m i n : Nat} {rbf : XmemDrvrReadBuf} {usegs meets : U32}
  {wa wa' : XmemArea} {ccon ccon' : Client}

/-- One `__q_put()`: an entry, or if there is no room one more missed. -/
structure Puts (rbf : XmemDrvrReadBuf) (ccon ccon' : Client) : Prop where
  room : ccon.queue.elems < XmemDrvrQUEUE_SIZE →
    ccon'.queue.pending = ccon.queue.pending ++ [rbf] ∧
      ccon'.queue.missed = ccon.queue.missed
  full : XmemDrvrQUEUE_SIZE ≤ ccon.queue.elems →
    ccon'.queue.pending = ccon.queue.pending ∧
      ccon'.queue.missed = ccon.queue.missed + 1

theorem qPut_puts (h : RingOk ccon.queue) : Puts rbf ccon (qPut rbf ccon) := by
  constructor
  · intro hroom
    rw [qPut_room (Nat.not_le.mpr hroom), ssignal_queue]
    exact ⟨(@RingOk.put ccon.queue rbf h (Nat.not_le.mpr hroom)).2, rfl⟩
  · intro hfull
    rw [qPut_full hfull]
    exact ⟨rfl, rfl⟩

/-- The entry is put for the clients whose mask on the module meets the mask of
the interrupt, and for no others. -/
structure Delivered (m : Nat) (meets : U32) (rbf : XmemDrvrReadBuf)
    (wa wa' : XmemArea) : Prop where
  puts : ∀ i < XmemDrvrCLIENT_CONTEXTS, wa.mask m i &&& meets ≠ 0 →
    Puts rbf (wa.clients i) (wa'.clients i)
  others : ∀ i, XmemDrvrCLIENT_CONTEXTS ≤ i ∨ wa.mask m i &&& meets = 0 →
    wa'.clients i = wa.clients i

structure DeliveredTo (m : Nat) (rbf : XmemDrvrReadBuf) (usegs meets : U32)
    (n : Nat) (wa wa' : XmemArea) : Prop where
  conns : wa'.conns = wa.conns
  clients : ∀ i, wa'.clients i =
    if i < n ∧ wa.mask m i &&& meets ≠ 0 then qPut rbf (wa.clients i)
    else wa.clients i
  segments : ∀ i, wa'.updatedSegments i =
    if i < n then wa.updatedSegments i ||| usegs else wa.updatedSegments i

theorem deliverTo_conns : (deliverTo m rbf usegs meets i wa).conns = wa.conns := by
  unfold deliverTo
  dsimp only
  by_cases husegs : usegs = 0
  · rw [if_pos husegs]
    split <;> rfl
  · rw [if_neg husegs]
    split <;> rfl

theorem deliverTo_segments : (deliverTo m rbf usegs meets i wa).updatedSegments =
    Function.update wa.updatedSegments i (wa.updatedSegments i ||| usegs) := by
  unfold deliverTo
  dsimp only
  by_cases husegs : usegs = 0
  · rw [if_pos husegs, husegs,
      show wa.updatedSegments i ||| 0 = wa.updatedSegments i from BitVec.or_zero,
      Function.update_eq_self]
    split <;> rfl
  · rw [if_neg husegs]
    split <;> rfl

theorem deliverTo_clients : (deliverTo m rbf usegs meets i wa).clients =
    if wa.mask m i &&& meets = 0 then wa.clients
    else Function.update wa.clients i (qPut rbf (wa.clients i)) := by
  unfold deliverTo XmemArea.mask
  dsimp only
  by_cases husegs : usegs = 0
  · rw [if_pos husegs]
    split <;> rfl
  · rw [if_neg husegs]
    dsimp only
    split <;> rfl

theorem deliver_to : DeliveredTo m rbf usegs meets n wa
    (deliver m rbf usegs meets n wa) := by
  induction n with
  | zero =>
    exact ⟨rfl, fun i => (if_neg fun h => Nat.not_lt_zero i h.1).symm,
      fun i => (if_neg (Nat.not_lt_zero i)).symm⟩
  | succ n ih =>
    have hmask : (deliver m rbf usegs meets n wa).mask m n = wa.mask m n := by
      unfold XmemArea.mask
      rw [ih.conns]
    have hnow : (deliver m rbf usegs meets n wa).clients n = wa.clients n := by
      rw [ih.clients, if_neg fun h => Nat.lt_irrefl n h.1]
    refine ⟨deliverTo_conns.trans ih.conns, fun i => ?_, fun i => ?_⟩
    · rw [deliver, deliverTo_clients, hmask, hnow]
      by_cases hi : i = n
      · subst hi
        by_cases hmeets : wa.mask m i &&& meets = 0
        · rw [if_pos hmeets, hnow, if_neg fun h => h.2 hmeets]
        · rw [if_neg hmeets, Function.update_self,
            if_pos ⟨Nat.lt_succ_self i, hmeets⟩]
      · have hrest : (if wa.mask m n &&& meets = 0 then
            (deliver m rbf usegs meets n wa).clients
            else Function.update (deliver m rbf usegs meets n wa).clients n
              (qPut rbf (wa.clients n))) i =
            (deliver m rbf usegs meets n wa).clients i := by
          split
          · rfl
          · exact Function.update_of_ne hi ..
        rw [hrest, ih.clients]
        exact if_congr (and_congr_left fun _ => by omega) rfl rfl
    · rw [deliver, deliverTo_segments]
      by_cases hi : i = n
      · subst hi
        rw [Function.update_self, ih.segments, if_neg (Nat.lt_irrefl i),
          if_pos (Nat.lt_succ_self i)]
      · rw [Function.update_of_ne hi, ih.segments]
        exact if_congr (by omega) rfl rfl

theorem DeliveredTo.delivered
    (h : DeliveredTo m rbf usegs meets XmemDrvrCLIENT_CONTEXTS wa wa')
    (hring : ∀ i, RingOk (wa.clients i).queue) : Delivered m meets rbf wa wa' where
  puts i hi hmeets := by
    rw [h.clients, if_pos ⟨hi, hmeets⟩]
    exact qPut_puts (hring i)
  others i hi := by
    rw [h.clients, if_neg]
    rintro ⟨hlt, hmeets⟩
    exact hi.elim (Nat.not_le.mpr hlt) hmeets

end Delivery

/-! ## Every run -/

/-- The segments that an event brings. -/
def XmemEvent.update : XmemEvent → U32
  | .interrupts _ regs => if (raised regs).getLsbD 2 = true then regs.isd3 else 0
  | .selfs _ sbuf =>
    if sbuf.interruptType &&& XmemDrvrNicTYPE = XmemDrvrNicSEGMENT_UPDATE then
      sbuf.data else 0
  | .writes .. | .conn _ | .opens _ | .checks _ | .own .. => 0

/-- The client asks for its segments, or begins anew. -/
def XmemEvent.forgets (i : Nat) : XmemEvent → Bool
  | .checks j | .opens j | .conn (.closes j) => i = j
  | .interrupts .. | .selfs .. | .writes .. | .conn _ | .own .. => false

/-- An update of the segment has come that the client has not asked for since;
the last event stands first. -/
def Updated (i b : Nat) (es : List XmemEvent) : Prop :=
  ∃ newer e older, es = newer ++ e :: older ∧ e.update.getLsbD b = true ∧
    ∀ e' ∈ newer, XmemEvent.forgets i e' = false

section Runs

variable {wa wa' : XmemArea} {e : XmemEvent} {es : List XmemEvent} {i b m : Nat}

theorem not_updated_nil : ¬ Updated i b [] := by
  rintro ⟨newer, e, older, h, -⟩
  cases newer <;> cases h

theorem updated_cons : Updated i b (e :: es) ↔ e.update.getLsbD b = true ∨
    e.forgets i = false ∧ Updated i b es := by
  constructor
  · rintro ⟨newer, e', older, heq, hset, hnewer⟩
    cases newer with
    | nil =>
      cases heq
      exact .inl hset
    | cons e'' newer =>
      cases heq
      exact .inr ⟨hnewer e List.mem_cons_self, newer, e', older, rfl, hset,
        fun e'' he => hnewer e'' (List.mem_cons_of_mem e he)⟩
  · rintro (hset | ⟨hkeeps, newer, e', older, rfl, hset, hnewer⟩)
    · exact ⟨[], e, es, rfl, hset, fun e' he => by cases he⟩
    · refine ⟨e :: newer, e', older, rfl, hset, fun e'' he => ?_⟩
      obtain rfl | he := List.mem_cons.mp he
      · exact hkeeps
      · exact hnewer e'' he

theorem forgets_update (h : e.forgets i = true) : e.update = 0 := by
  cases e with
  | interrupts | selfs => cases h
  | writes | conn | opens | checks | own => rfl

theorem intrHandler_to (m : Nat) (regs : IntrRegs) (wa : XmemArea) :
    ∃ rbf, IsEntry (BitVec.ofNat 32 (m + 1)) (raised regs) regs.data regs.node rbf ∧
      DeliveredTo m rbf (XmemEvent.interrupts m regs).update (raised regs)
        XmemDrvrCLIENT_CONTEXTS wa (intrHandler m regs wa) := by
  obtain ⟨hentry, husegs⟩ := @gather_entry regs (wa.nodeId m) (raised regs)
    (BitVec.ofNat 32 (m + 1)) wa.nodes fun i => raised_known
  refine ⟨_, hentry, ?_⟩
  unfold intrHandler XmemEvent.update
  dsimp only
  by_cases hzero : raised regs = 0
  · rw [if_pos hzero, hzero]
    refine ⟨rfl, fun i => ?_, fun i => ?_⟩
    · rw [if_neg fun h => h.2 BitVec.and_zero]
    · have hkeep : wa.updatedSegments i ||| 0 = wa.updatedSegments i :=
        BitVec.or_zero
      have hnone : (0 : U32).getLsbD 2 = false := BitVec.getLsbD_zero
      rw [hnone, if_neg Bool.false_ne_true, hkeep, ite_self]
  · rw [if_neg hzero, husegs]
    obtain ⟨hconns, hclients, hsegments⟩ := @deliver_to m XmemDrvrCLIENT_CONTEXTS
      (gather regs (wa.nodeId m) (raised regs)
        ⟨{ module := BitVec.ofNat 32 (m + 1) }, 0, wa.nodes⟩).rbf
      (if (raised regs).getLsbD 2 = true then regs.isd3 else 0) (raised regs)
      { wa with nodes := (gather regs (wa.nodeId m) (raised regs)
        ⟨{ module := BitVec.ofNat 32 (m + 1) }, 0, wa.nodes⟩).nodes }
    exact ⟨hconns, hclients, hsegments⟩

theorem interruptSelf_to (m : Nat) (sbuf : XmemDrvrSendBuf) (wa : XmemArea) :
    DeliveredTo m (selfEntry sbuf (wa.nodeId m)).1
      (XmemEvent.selfs m sbuf).update (selfEntry sbuf (wa.nodeId m)).1.mask
      XmemDrvrCLIENT_CONTEXTS wa (interruptSelf m sbuf wa) := by
  have husegs := (@selfEntry_entry (wa.nodeId m) sbuf).2
  unfold interruptSelf XmemEvent.update
  dsimp only
  rw [← husegs]
  exact deliver_to

theorem softWakeup_to (stack : XmemDrvrReadBuf) (wbf : XmemDrvrWriteBuf)
    (wa : XmemArea) : softWakeup stack wbf wa = wa ∨
      ∃ m rbf, DeliveredTo m rbf 0 XmemDrvrIntrSOFTWAKEUP XmemDrvrCLIENT_CONTEXTS wa
        (softWakeup stack wbf wa) := by
  unfold softWakeup
  split
  · exact .inl rfl
  · exact .inr ⟨_, _, deliver_to⟩

structure ClientsOk (wa : XmemArea) : Prop where
  ring : ∀ i, RingOk (wa.clients i).queue
  sem : ∀ i, SemOk (wa.clients i)

theorem qPut_ring {rbf : XmemDrvrReadBuf} {ccon : Client} (h : RingOk ccon.queue) :
    RingOk (qPut rbf ccon).queue := by
  by_cases hfull : XmemDrvrQUEUE_SIZE ≤ ccon.queue.elems
  · rw [qPut_full hfull]
    exact ⟨h.out, h.pointers, h.bounded⟩
  · rw [qPut_room hfull, ssignal_queue]
    exact (@RingOk.put ccon.queue rbf h hfull).1

theorem ClientsOk.delivered {n : Nat} {rbf : XmemDrvrReadBuf} {usegs meets : U32}
    (h : ClientsOk wa) (hto : DeliveredTo m rbf usegs meets n wa wa') :
    ClientsOk wa' := by
  constructor
  all_goals
    intro j
    rw [hto.clients]
    split
  · exact qPut_ring (h.ring j)
  · exact h.ring j
  · exact qPut_semOk (h.sem j)
  · exact h.sem j

theorem ClientsOk.client {f : Client → Client} (h : ClientsOk wa)
    (hring : RingOk (f (wa.clients i)).queue) (hsem : SemOk (f (wa.clients i))) :
    ClientsOk (wa.client i f) := by
  unfold XmemArea.client
  constructor
  all_goals
    intro j
    dsimp only
    by_cases hj : j = i
  · rw [hj, Function.update_self]
    exact hring
  · rw [Function.update_of_ne hj]
    exact h.ring j
  · rw [hj, Function.update_self]
    exact hsem
  · rw [Function.update_of_ne hj]
    exact h.sem j

theorem SemOk.wiped {ccon ccon' : Client} (h : SemOk ccon)
    (hphase : ccon.phase = .idle) (hsem : ccon'.semaphore = ccon.semaphore)
    (hphase' : ccon'.phase = .idle) (hpermit : ccon'.permit = false) :
    SemOk ccon' := by
  have hlist := h.waits
  rw [if_neg (by rw [hphase]; decide)] at hlist
  refine ⟨?_, fun hw => ?_, fun hp => ?_⟩
  · rw [hsem, hlist, hphase']
    rfl
  · rw [hphase'] at hw
    cases hw
  · rw [hpermit] at hp
    cases hp

theorem ClientsOk.step (h : ClientsOk wa) (hready : wa.ready e) :
    ClientsOk (wa.next e) := by
  cases e with
  | interrupts m regs =>
    obtain ⟨rbf, -, hto⟩ := intrHandler_to m regs wa
    exact h.delivered hto
  | selfs m sbuf => exact h.delivered (interruptSelf_to m sbuf wa)
  | writes stack wbf =>
    obtain hsame | ⟨m, rbf, hto⟩ := softWakeup_to stack wbf wa
    · show ClientsOk (softWakeup stack wbf wa)
      rw [hsame]
      exact h
    · exact h.delivered hto
  | conn e =>
    cases e with
    | closes i =>
      have hwiped : ClientsOk (wa.client i fun ccon =>
          { semaphore := ccon.semaphore
            timers := (cancelTimeout ccon).timers }) :=
        h.client .cleared ((h.sem i).wiped hready rfl rfl rfl)
      exact ⟨hwiped.ring, hwiped.sem⟩
    | connects | disConnects | selects => exact ⟨h.ring, h.sem⟩
  | opens i =>
    have hfresh : SemOk ({ semaphore := (wa.clients i).semaphore
                           timers := (wa.clients i).timers
                           timeout := XmemDrvrDEFAULT_TIMEOUT } : Client) :=
      (h.sem i).wiped hready rfl rfl rfl
    have hopened : ClientsOk (wa.client i fun ccon => qReset
        { semaphore := ccon.semaphore, timers := ccon.timers
          timeout := XmemDrvrDEFAULT_TIMEOUT }) := by
      refine h.client ?_ (qReset_semOk hfresh)
      rw [(qReset_cleared hfresh).queue]
      exact .cleared
    exact ⟨hopened.ring, hopened.sem⟩
  | checks i => exact ⟨h.ring, h.sem⟩
  | own i e =>
    have hring : RingOk ((wa.clients i).next e).queue :=
      (ring_step (h.ring i) (h.sem i)).1
    exact @ClientsOk.client wa i (fun ccon => ccon.next e) h hring
      (semOk_step (h.sem i) hready.1)

theorem next_segments (hi : i < XmemDrvrCLIENT_CONTEXTS) :
    (wa.next e).updatedSegments i =
      if e.forgets i then 0 else wa.updatedSegments i ||| e.update := by
  have hkeep : wa.updatedSegments i = wa.updatedSegments i ||| 0 :=
    BitVec.or_zero.symm
  have hclear : ∀ j, Function.update wa.updatedSegments j 0 i =
      if decide (i = j) = true then 0 else wa.updatedSegments i ||| 0 := by
    intro j
    by_cases hj : i = j
    · rw [if_pos (decide_eq_true hj), hj, Function.update_self]
    · rw [if_neg (fun h => hj (of_decide_eq_true h)), Function.update_of_ne hj]
      exact hkeep
  cases e with
  | interrupts m regs =>
    obtain ⟨rbf, -, hto⟩ := intrHandler_to m regs wa
    exact (hto.segments i).trans (if_pos hi)
  | selfs m sbuf => exact ((interruptSelf_to m sbuf wa).segments i).trans (if_pos hi)
  | writes stack wbf =>
    show (softWakeup stack wbf wa).updatedSegments i = _
    obtain hsame | ⟨m, rbf, hto⟩ := softWakeup_to stack wbf wa
    · rw [hsame]
      exact hkeep
    · exact (hto.segments i).trans (if_pos hi)
  | conn e =>
    cases e with
    | closes j => exact hclear j
    | connects | disConnects | selects => exact hkeep
  | opens j => exact hclear j
  | checks j => exact hclear j
  | own j e => exact hkeep

theorem xmemSystem_clients : xmemSystem.Invariant ClientsOk where
  init hinit := by
    obtain ⟨modules, nodeId, rfl⟩ := hinit
    exact ⟨fun i => .cleared,
      fun i => ⟨rfl, fun h => (by cases h), fun h => by cases h⟩⟩
  step h hstep := by
    obtain ⟨hready, rfl⟩ := hstep
    exact h.step hready

structure Tracked (s : XmemArea × List XmemEvent) : Prop where
  clients : ClientsOk s.1
  segments : ∀ i < XmemDrvrCLIENT_CONTEXTS, ∀ b,
    (s.1.updatedSegments i).getLsbD b = true ↔ Updated i b s.2

theorem xmemSystem_tracked : xmemSystem.recorded.Invariant Tracked where
  init {s} hinit := by
    obtain ⟨wa, es⟩ := s
    refine ⟨xmemSystem_clients.init hinit.1, fun i _ b => ?_⟩
    obtain ⟨⟨modules, nodeId, rfl⟩, rfl⟩ := hinit
    refine iff_of_false (fun h => ?_) not_updated_nil
    change (0 : U32).getLsbD b = true at h
    rw [show (0 : U32).getLsbD b = false from BitVec.getLsbD_zero] at h
    cases h
  step {s s' e} h hstep := by
    obtain ⟨wa, es⟩ := s
    obtain ⟨wa', es'⟩ := s'
    obtain ⟨⟨hready, rfl⟩, rfl⟩ := hstep
    refine ⟨h.clients.step hready, fun i hi b => ?_⟩
    dsimp only
    rw [next_segments hi, updated_cons]
    cases hforgets : e.forgets i with
    | true =>
      rw [if_pos rfl, forgets_update hforgets]
      simp
    | false =>
      rw [if_neg (by decide), BitVec.getLsbD_or, Bool.or_eq_true,
        h.segments i hi b, or_comm]
      exact or_congr_right (iff_and_self.mpr fun _ => rfl)

/-- In every run an interrupt puts its entry once for each client it is for,
and for no other, and a client that asks for its segments gets those that were
updated since it last asked. -/
theorem interrupt_delivery (hs : xmemSystem.recorded.Reachable (wa, es)) :
    (∀ m regs, ∃ rbf,
      IsEntry (BitVec.ofNat 32 (m + 1)) (raised regs) regs.data regs.node rbf ∧
      Delivered m (raised regs) rbf wa (wa.next (.interrupts m regs))) ∧
    (∀ m sbuf, ∃ rbf,
      IsEntry sbuf.module rbf.mask (fun _ => sbuf.data) (fun _ => wa.nodeId m) rbf ∧
      rbf = (selfEntry sbuf (wa.nodeId m)).1 ∧
      Delivered m rbf.mask rbf wa (wa.next (.selfs m sbuf))) ∧
    ∀ i < XmemDrvrCLIENT_CONTEXTS, ∀ b,
      ((wa.updatedSegments i).getLsbD b = true ↔ Updated i b es) ∧
      ((checkSegment i wa).1.getLsbD b = true ↔ Updated i b es) ∧
      ¬ Updated i b (.checks i :: es) := by
  obtain ⟨hclients, hsegments⟩ := xmemSystem_tracked.reachable hs
  refine ⟨fun m regs => ?_, fun m sbuf => ?_, fun i hi b =>
    ⟨hsegments i hi b, hsegments i hi b, ?_⟩⟩
  · obtain ⟨rbf, hentry, hto⟩ := intrHandler_to m regs wa
    exact ⟨rbf, hentry, hto.delivered hclients.ring⟩
  · exact ⟨_, selfEntry_entry.1, rfl,
      (interruptSelf_to m sbuf wa).delivered hclients.ring⟩
  · rw [updated_cons]
    rintro (hset | ⟨hkeeps, -⟩)
    · have hnone : (0 : U32).getLsbD b = false := BitVec.getLsbD_zero
      change (0 : U32).getLsbD b = true at hset
      rw [hnone] at hset
      cases hset
    · exact Bool.eq_false_iff.mp hkeeps (decide_eq_true rfl)

end Runs

/-! ## One client of one module -/

def oneArea : XmemArea := { conns := { modules := 1 }, nodeId := fun _ => 1 }

/-- An interrupt with two sources, one of them an update of two segments. -/
def updateRegs : IntrRegs := ⟨true, 5, 7, 2, 0, 0, 6, 3, 0, 0⟩

def updateEvents : List XmemEvent :=
  [.interrupts 0 updateRegs, .conn (.connects 0 ⟨1, 4⟩)]

def joinedArea : XmemArea := oneArea.next (.conn (.connects 0 ⟨1, 4⟩))

theorem interrupt_delivery_update :
    (checkSegment 0 (joinedArea.next (.interrupts 0 updateRegs))).1 = 6 ∧
      Updated 0 1 updateEvents := by
  have hinit : xmemSystem.recorded.Reachable (oneArea, []) :=
    .init ⟨⟨1, fun _ => 1, rfl⟩, rfl⟩
  have hjoined := hinit.record (e := XmemEvent.conn (.connects 0 ⟨1, 4⟩))
    ⟨trivial, rfl⟩
  have hupdated := hjoined.record (e := XmemEvent.interrupts 0 updateRegs)
    ⟨trivial, rfl⟩
  obtain ⟨-, -, hsegments⟩ := interrupt_delivery hupdated
  have hreturned :
      (checkSegment 0 (joinedArea.next (.interrupts 0 updateRegs))).1 = 6 := by
    have hkeeps : (XmemEvent.interrupts 0 updateRegs).forgets 0 = false := rfl
    have hbrings : (XmemEvent.interrupts 0 updateRegs).update = 6 := by decide
    have hnone : joinedArea.updatedSegments 0 = 0 := rfl
    unfold checkSegment
    rw [next_segments (by decide), hkeeps, hbrings, hnone]
    decide
  refine ⟨hreturned, (hsegments 0 (by decide) 1).2.1.mp ?_⟩
  exact hreturned ▸ (by decide : (6 : U32).getLsbD 1 = true)

def raisedRegs : IntrRegs := ⟨true, 1, 0, 2, 0, 0, 0, 0, 0, 0⟩

def interrupted : Nat → XmemArea
  | 0 => oneArea.next (.conn (.connects 0 ⟨1, 1⟩))
  | n + 1 => (interrupted n).next (.interrupts 0 raisedRegs)

theorem interrupted_reachable (n : Nat) : xmemSystem.Reachable (interrupted n) := by
  induction n with
  | zero =>
    have hinit : xmemSystem.Reachable oneArea := .init ⟨1, fun _ => 1, rfl⟩
    exact hinit.step (e := XmemEvent.conn (.connects 0 ⟨1, 1⟩)) ⟨trivial, rfl⟩
  | succ n ih =>
    exact ih.step (e := XmemEvent.interrupts 0 raisedRegs) ⟨trivial, rfl⟩

theorem interrupted_mask (n : Nat) : (interrupted n).mask 0 0 = 1 := by
  induction n with
  | zero => rfl
  | succ n ih =>
    obtain ⟨rbf, -, hto⟩ := intrHandler_to 0 raisedRegs (interrupted n)
    show (((intrHandler 0 raisedRegs (interrupted n)).conns).moduleContexts
      0).clients 0 = 1
    rw [hto.conns]
    exact ih

/-- If each interrupt put an entry, the ring would overflow. -/
theorem not_interrupt_delivery : ¬ ∀ wa, xmemSystem.Reachable wa →
    ∀ m regs, ∀ i < XmemDrvrCLIENT_CONTEXTS, wa.mask m i &&& raised regs ≠ 0 →
      ∃ rbf, ((wa.next (.interrupts m regs)).clients i).queue.pending =
        (wa.clients i).queue.pending ++ [rbf] := by
  intro hall
  have hlength : ∀ n,
      ((interrupted n).clients 0).queue.pending.length = n := by
    intro n
    induction n with
    | zero => rfl
    | succ n ih =>
      obtain ⟨rbf, hput⟩ := hall _ (interrupted_reachable n) 0 raisedRegs 0
        (by decide) (by rw [interrupted_mask]; decide)
      refine (congrArg List.length hput).trans ?_
      rw [List.length_append, ih]
      rfl
  have hbounded := ((xmemSystem_clients.reachable
    (interrupted_reachable 129)).ring 0).bounded
  have hheld := hlength 129
  unfold XmemDrvrQueue.pending at hheld
  rw [length_held] at hheld
  rw [hheld] at hbounded
  exact absurd hbounded (by decide)

end Coht.XmemDrvr
