import Coht.XmemDrvr.Interrupts
import Coht.Lib.Visits
import Coht.Lib.Word
import Mathlib.Tactic.FinCases
import Mathlib.Tactic.IntervalCases

/-!
# Waiting for an event (`VmicLib.c`)

`VmicWait()` reads a buffer from the driver and goes through its sources, from
the lowest bit up. Each case of the switch fills some of the fields of one
structure, adds a kind of event to the mask that is returned, and calls the
callback with the structure if that kind is registered. The structure is
cleared before the loop and not between two sources, and a case fills it
whether or not it calls.

`sourceEvent` is what a source alone would report. A call has what it should
if and only if the buffer is `Unmixed`: what is left in the structure from
the sources below is then 0 wherever a callback looks.

What `XmemErrorCallback()` tells the callback of the library is left out.
-/

namespace Coht.Vmic

open Coht.Lib Coht.XmemDrvr

def XmemEventMaskTIMEOUT : U32 := 0x001
def XmemEventMaskSEND_TABLE : U32 := 0x002
def XmemEventMaskUSER : U32 := 0x004
def XmemEventMaskTABLE_UPDATE : U32 := 0x008
def XmemEventMaskINITIALIZED : U32 := 0x010
def XmemEventMaskIO : U32 := 0x020
def XmemEventMaskKILL : U32 := 0x040
def XmemEventMaskSOFTWAKEUP : U32 := 0x200

def XmemIoErrorPARITY : U32 := 0x01
def XmemIoErrorROGUE : U32 := 0x02
def XmemIoErrorCONTACT : U32 := 0x04
def XmemIoErrorHARDWARE : U32 := 0x08

def XmemErrorNOT_INITIALIZED : U32 := 2

def XmemDrvrIntrSOURCES : Nat := 17

def XmemDrvrIntrPARITY_ERROR : U32 := 0x2000
def XmemDrvrIntrLOST_SYNC : U32 := 0x0800
def XmemDrvrIntrRX_OVERFLOW : U32 := 0x0400
def XmemDrvrIntrRX_ALMOST_FULL : U32 := 0x0200
def XmemDrvrIntrDATA_ERROR : U32 := 0x0100
def XmemDrvrIntrROGUE_CLOBBER : U32 := 0x0040

structure XmemCallbackStruct where
  mask : U32 := 0
  table : U32 := 0
  node : U32 := 0
  data : U32 := 0
  deriving DecidableEq

/-- What the loop works on, and the structures that the callback has been
given. -/
structure Waiting where
  cbs : XmemCallbackStruct := {}
  emsk : U32 := 0
  calls : List XmemCallbackStruct := []

/-! ## The loop over the sources -/

/-- `if (callmask & kind) callback(&cbs)`, with `cbs` as the case has filled it. -/
def Waiting.report (callmask kind : U32) (cbs : XmemCallbackStruct)
    (w : Waiting) : Waiting :=
  { w with
    cbs := cbs
    calls := if callmask &&& kind = 0 then w.calls else w.calls ++ [cbs] }

/-- The cases of the errors, which differ in their code. -/
def ioCase (callmask code : U32) (w : Waiting) : Waiting :=
  { w with emsk := w.emsk ||| XmemEventMaskIO }.report callmask XmemEventMaskIO
    { w.cbs with mask := XmemEventMaskIO, data := code }

def waitCase (callmask : U32) (rbf : XmemDrvrReadBuf) (sw : U32) (w : Waiting) :
    Waiting :=
  if sw = XmemDrvrIntrPARITY_ERROR then ioCase callmask XmemIoErrorPARITY w
  else if sw = XmemDrvrIntrRX_OVERFLOW ∨ sw = XmemDrvrIntrRX_ALMOST_FULL ∨
      sw = XmemDrvrIntrDATA_ERROR then
    ioCase callmask XmemIoErrorHARDWARE w
  else if sw = XmemDrvrIntrLOST_SYNC then ioCase callmask XmemIoErrorCONTACT w
  else if sw = XmemDrvrIntrROGUE_CLOBBER then ioCase callmask XmemIoErrorROGUE w
  else if sw = XmemDrvrIntrPENDING_INIT then
    -- the one case that does not add to `emsk`
    w.report callmask XmemEventMaskINITIALIZED
      { w.cbs with
        mask := XmemEventMaskINITIALIZED
        node := nodeBit (rbf.nodeId .pendingInit)
        data := rbf.ndData .pendingInit }
  else if sw = XmemDrvrIntrREQUEST_RESET then
    { w with emsk := w.emsk ||| XmemEventMaskKILL }.report callmask
      XmemEventMaskKILL { w.cbs with mask := XmemEventMaskKILL }
  else if sw = XmemDrvrIntrSEGMENT_UPDATE then
    { w with emsk := w.emsk ||| XmemEventMaskTABLE_UPDATE }.report callmask
      XmemEventMaskTABLE_UPDATE
      { w.cbs with
        mask := XmemEventMaskTABLE_UPDATE
        node := nodeBit (rbf.nodeId .segmentUpdate)
        table := rbf.ndData .segmentUpdate }
  else if sw = XmemDrvrIntrINT_2 then
    { w with emsk := w.emsk ||| XmemEventMaskSEND_TABLE }.report callmask
      XmemEventMaskSEND_TABLE
      { w.cbs with
        mask := XmemEventMaskSEND_TABLE
        node := nodeBit (rbf.nodeId .int2)
        table := rbf.ndData .int2 }
  else if sw = XmemDrvrIntrINT_1 then
    { w with emsk := w.emsk ||| XmemEventMaskUSER }.report callmask
      XmemEventMaskUSER
      { w.cbs with
        mask := XmemEventMaskUSER
        node := nodeBit (rbf.nodeId .int1)
        data := rbf.ndData .int1 }
  else if sw = XmemDrvrIntrSOFTWAKEUP then
    { w with emsk := w.emsk ||| XmemEventMaskSOFTWAKEUP }.report callmask
      XmemEventMaskSOFTWAKEUP
      { w.cbs with
        mask := XmemEventMaskSOFTWAKEUP
        node := nodeBit (rbf.nodeId .softwakeup)
        table := rbf.ndData .softwakeup }
  else w

def waitStep (callmask : U32) (rbf : XmemDrvrReadBuf) (w : Waiting) (i : Nat) :
    Waiting :=
  let imsk := 1#32 <<< i
  waitCase callmask rbf (imsk &&& rbf.mask) w

/-- The loop over the first `n` sources. -/
def waitLoop (callmask : U32) (rbf : XmemDrvrReadBuf) (n : Nat) : Waiting :=
  (List.range n).foldl (waitStep callmask rbf) {}

/-- What a call finds: whether the module is open, whether the driver takes the
timeout, and the buffer if there is one to read. -/
structure WaitCall where
  xmem : Bool
  timeoutSet : Bool
  read : Option XmemDrvrReadBuf

/-- What is returned, and what the callback has been given. -/
def vmicWait (callmask : U32) (call : WaitCall) : U32 × List XmemCallbackStruct :=
  if callmask = 0 then (0, [])
  else if call.xmem = false then (XmemErrorNOT_INITIALIZED, [])
  else if call.timeoutSet = false then (0, [])
  else
    match call.read with
    | none =>
      (XmemEventMaskTIMEOUT,
        if callmask &&& XmemEventMaskTIMEOUT = 0 then []
        else [{ mask := XmemEventMaskTIMEOUT }])
    | some rbf =>
      let w := waitLoop callmask rbf XmemDrvrIntrSOURCES
      (w.emsk, w.calls)

/-! ## What the sources stand for -/

/-- The kind of event of a source, by its bit; 0 if it has none. -/
def sourceKind : Nat → U32
  | 0 => XmemEventMaskUSER
  | 1 => XmemEventMaskSEND_TABLE
  | 2 => XmemEventMaskTABLE_UPDATE
  | 3 => XmemEventMaskKILL
  | 6 | 8 | 9 | 10 | 11 | 13 => XmemEventMaskIO
  | 7 => XmemEventMaskINITIALIZED
  | 16 => XmemEventMaskSOFTWAKEUP
  | _ => 0

/-- The fields that a source defines. -/
def sourceTable (rbf : XmemDrvrReadBuf) : Nat → Option U32
  | 1 => some (rbf.ndData .int2)
  | 2 => some (rbf.ndData .segmentUpdate)
  | 16 => some (rbf.ndData .softwakeup)
  | _ => none

def sourceNode (rbf : XmemDrvrReadBuf) : Nat → Option U32
  | 0 => some (nodeBit (rbf.nodeId .int1))
  | 1 => some (nodeBit (rbf.nodeId .int2))
  | 2 => some (nodeBit (rbf.nodeId .segmentUpdate))
  | 7 => some (nodeBit (rbf.nodeId .pendingInit))
  | 16 => some (nodeBit (rbf.nodeId .softwakeup))
  | _ => none

def sourceData (rbf : XmemDrvrReadBuf) : Nat → Option U32
  | 0 => some (rbf.ndData .int1)
  | 6 => some XmemIoErrorROGUE
  | 7 => some (rbf.ndData .pendingInit)
  | 8 | 9 | 10 => some XmemIoErrorHARDWARE
  | 11 => some XmemIoErrorCONTACT
  | 13 => some XmemIoErrorPARITY
  | _ => none

/-- What a source alone reports: the fields that it does not define are 0. -/
def sourceEvent (rbf : XmemDrvrReadBuf) (i : Nat) : XmemCallbackStruct :=
  { mask := sourceKind i
    table := (sourceTable rbf i).getD 0
    node := (sourceNode rbf i).getD 0
    data := (sourceData rbf i).getD 0 }

/-- The source is set and its kind of event is registered. -/
def delivers (callmask : U32) (rbf : XmemDrvrReadBuf) (i : Nat) : Bool :=
  rbf.mask.getLsbD i && decide (callmask &&& sourceKind i ≠ 0)

/-- One callback for each source that is set and registered, in the order of
their bits and with what that source alone reports; and the kinds of all sources
that are set. -/
structure Decodes (callmask : U32) (rbf : XmemDrvrReadBuf)
    (res : U32 × List XmemCallbackStruct) : Prop where
  calls : res.2 = ((List.range XmemDrvrIntrSOURCES).filter
    (delivers callmask rbf)).map (sourceEvent rbf)
  mask : res.1 = ((List.range XmemDrvrIntrSOURCES).filter
    fun i => rbf.mask.getLsbD i).foldl (fun m i => m ||| sourceKind i) 0

/-- No source is `PENDING_INIT`, whose kind is not returned, and what is left in
the structure by one source is not seen by the callback of another: a node by one
without, the data of `INT_1` or the code of an error by one without data. -/
structure Unmixed (callmask : U32) (rbf : XmemDrvrReadBuf) : Prop where
  pendingInit : rbf.mask.getLsbD 7 = false
  node : ∀ i ∈ [3, 6, 8, 9, 10, 11, 13], delivers callmask rbf i = true →
    ∀ j ∈ [0, 1, 2], rbf.mask.getLsbD j = false
  data : ∀ i ∈ [1, 2, 16], delivers callmask rbf i = true →
    rbf.mask.getLsbD 0 = true → rbf.ndData .int1 = 0
  code : delivers callmask rbf 16 = true →
    ∀ j ∈ [6, 8, 9, 10, 11, 13], rbf.mask.getLsbD j = false

/-! ## What one source does -/

def fill (rbf : XmemDrvrReadBuf) (i : Nat) (cbs : XmemCallbackStruct) :
    XmemCallbackStruct :=
  { mask := if sourceKind i = 0 then cbs.mask else sourceKind i
    table := (sourceTable rbf i).getD cbs.table
    node := (sourceNode rbf i).getD cbs.node
    data := (sourceData rbf i).getD cbs.data }

def returned (i : Nat) : U32 :=
  if i = 7 then 0 else sourceKind i

section Step

variable {callmask : U32} {rbf : XmemDrvrReadBuf} {w : Waiting} {i j n : Nat}

theorem waitCase_source (hi : i < XmemDrvrIntrSOURCES) :
    waitCase callmask rbf (1#32 <<< i) w =
      { cbs := fill rbf i w.cbs
        emsk := w.emsk ||| returned i
        calls :=
          if callmask &&& sourceKind i = 0 then w.calls
          else w.calls ++ [fill rbf i w.cbs] } := by
  have hor (x : U32) : x ||| 0 = x := BitVec.or_zero
  have hnone : w = { w with
      emsk := w.emsk ||| 0
      calls := if callmask &&& 0 = 0 then w.calls else w.calls ++ [w.cbs] } := by
    have hand : callmask &&& 0 = 0 := BitVec.and_zero
    rw [hor, if_pos hand]
  unfold XmemDrvrIntrSOURCES at hi
  interval_cases i
  case «7» =>
    show _ = Waiting.mk _ (w.emsk ||| 0) _
    rw [hor]
    rfl
  all_goals first | rfl | exact hnone

theorem waitStep_clear (h : rbf.mask.getLsbD i = false) :
    waitStep callmask rbf w i = w := by
  show waitCase callmask rbf (1#32 <<< i &&& rbf.mask) w = w
  rw [BitVec.and_comm, and_one_shiftLeft_eq_zero.mpr h]
  rfl

theorem waitStep_set (hi : i < XmemDrvrIntrSOURCES)
    (h : rbf.mask.getLsbD i = true) :
    waitStep callmask rbf w i =
      { cbs := fill rbf i w.cbs
        emsk := w.emsk ||| returned i
        calls :=
          if callmask &&& sourceKind i = 0 then w.calls
          else w.calls ++ [fill rbf i w.cbs] } := by
  show waitCase callmask rbf (1#32 <<< i &&& rbf.mask) w = _
  rw [BitVec.and_comm, and_one_shiftLeft h]
  exact waitCase_source hi

theorem waitLoop_succ :
    waitLoop callmask rbf (n + 1) = waitStep callmask rbf (waitLoop callmask rbf n) n := by
  unfold waitLoop
  rw [List.range_succ, List.foldl_append]
  rfl

end Step

/-! ## The callbacks and the mask that is returned -/

section Loop

variable {callmask : U32} {rbf : XmemDrvrReadBuf} {i j n : Nat}

theorem delivers_of_clear (h : rbf.mask.getLsbD i = false) :
    delivers callmask rbf i = false := by
  unfold delivers
  rw [h, Bool.false_and]

theorem delivers_iff : delivers callmask rbf i = true ↔
    rbf.mask.getLsbD i = true ∧ callmask &&& sourceKind i ≠ 0 := by
  unfold delivers
  rw [Bool.and_eq_true, decide_eq_true_iff]

theorem kind_ne_zero (h : delivers callmask rbf i = true) : sourceKind i ≠ 0 := by
  intro hzero
  refine (delivers_iff.mp h).2 ?_
  rw [hzero]
  exact BitVec.and_zero

theorem not_delivers_zero : ¬ delivers 0 rbf i = true :=
  fun h => (delivers_iff.mp h).2 BitVec.zero_and

theorem waitLoop_calls (hn : n ≤ XmemDrvrIntrSOURCES) :
    (waitLoop callmask rbf n).calls = ((List.range n).filter
      (delivers callmask rbf)).map fun i => fill rbf i (waitLoop callmask rbf i).cbs := by
  induction n with
  | zero => rfl
  | succ n ih =>
    have hrest := ih (Nat.le_of_succ_le hn)
    rw [waitLoop_succ, List.range_succ, List.filter_append, List.map_append, ← hrest]
    cases hset : rbf.mask.getLsbD n with
    | false =>
      rw [waitStep_clear hset, List.filter_singleton, delivers_of_clear hset]
      exact (List.append_nil _).symm
    | true =>
      rw [waitStep_set hn hset, List.filter_singleton]
      by_cases hkind : callmask &&& sourceKind n = 0
      · have hquiet : delivers callmask rbf n = false := by
          unfold delivers
          rw [hkind]
          exact Bool.and_false _
        rw [hquiet, if_pos hkind]
        exact (List.append_nil _).symm
      · rw [delivers_iff.mpr ⟨hset, hkind⟩, if_neg hkind]
        rfl

theorem waitLoop_emsk (hn : n ≤ XmemDrvrIntrSOURCES) :
    (waitLoop callmask rbf n).emsk = ((List.range n).filter
      fun i => rbf.mask.getLsbD i).foldl (fun m i => m ||| returned i) 0 := by
  induction n with
  | zero => rfl
  | succ n ih =>
    have hrest := ih (Nat.le_of_succ_le hn)
    rw [waitLoop_succ, List.range_succ, List.filter_append, List.foldl_append, ← hrest]
    cases hset : rbf.mask.getLsbD n with
    | false =>
      rw [waitStep_clear hset, List.filter_singleton, hset]
      rfl
    | true =>
      rw [waitStep_set hn hset, List.filter_singleton, hset]
      rfl

theorem getLsbD_foldl_or (f : Nat → U32) (l : List Nat) (m : U32) (k : Nat) :
    (l.foldl (fun m i => m ||| f i) m).getLsbD k =
      (m.getLsbD k || l.any fun i => (f i).getLsbD k) := by
  induction l generalizing m with
  | nil => simp
  | cons i l ih => rw [List.foldl_cons, ih, BitVec.getLsbD_or, List.any_cons, Bool.or_assoc]

theorem foldl_or_eq_zero (f : Nat → U32) (l : List Nat) (m : U32) :
    l.foldl (fun m i => m ||| f i) m = 0 ↔ m = 0 ∧ ∀ i ∈ l, f i = 0 := by
  induction l generalizing m with
  | nil => simp
  | cons i l ih =>
    rw [List.foldl_cons, ih, List.forall_mem_cons, ← and_assoc]
    exact and_congr_left fun _ => BitVec.or_eq_zero_iff

theorem waitLoop_emsk_iff :
    (waitLoop callmask rbf XmemDrvrIntrSOURCES).emsk =
        ((List.range XmemDrvrIntrSOURCES).filter
          fun i => rbf.mask.getLsbD i).foldl (fun m i => m ||| sourceKind i) 0 ↔
      rbf.mask.getLsbD 7 = false := by
  rw [waitLoop_emsk (Nat.le_refl _)]
  constructor
  · intro heq
    cases hset : rbf.mask.getLsbD 7 with
    | false => rfl
    | true =>
      have hbit := congrArg (fun m => m.getLsbD 4) heq
      rw [getLsbD_foldl_or, getLsbD_foldl_or] at hbit
      have hnone : ∀ i < XmemDrvrIntrSOURCES, (returned i).getLsbD 4 = false := by decide
      have hleft : (((List.range XmemDrvrIntrSOURCES).filter
          fun i => rbf.mask.getLsbD i).any fun i => (returned i).getLsbD 4) = false := by
        rw [List.any_eq_false]
        intro i hi
        rw [hnone i (List.mem_range.mp (List.mem_of_mem_filter hi))]
        exact Bool.false_ne_true
      have hright : (((List.range XmemDrvrIntrSOURCES).filter
          fun i => rbf.mask.getLsbD i).any fun i => (sourceKind i).getLsbD 4) = true :=
        List.any_eq_true.mpr ⟨7, List.mem_filter.mpr ⟨by decide, hset⟩, by decide⟩
      rw [hleft, hright] at hbit
      cases hbit
  · intro hclear
    apply List.foldl_ext
    intro m i hi
    have hne : i ≠ 7 := by
      intro h7
      have hset := (List.mem_filter.mp hi).2
      rw [h7, hclear] at hset
      cases hset
    unfold returned
    rw [if_neg hne]

/-! ## What is left in the structure -/

theorem field_eq_zero (callmask : U32) (field : XmemCallbackStruct → U32)
    (write : Nat → Option U32) {slots : List Nat} (w : Waiting)
    (hfill : ∀ cbs i, field (fill rbf i cbs) = (write i).getD (field cbs))
    (hlt : ∀ i ∈ slots, i < XmemDrvrIntrSOURCES)
    (hz : ∀ i ∈ slots, rbf.mask.getLsbD i = true → write i ≠ some 0) :
    field (slots.foldl (waitStep callmask rbf) w).cbs = 0 ↔
      field w.cbs = 0 ∧ ∀ i ∈ slots, rbf.mask.getLsbD i = true → write i = none := by
  have hiff := @foldl_overwrites _ _ (waitStep callmask rbf) slots w
    (fun w => field w.cbs) (fun i => if rbf.mask.getLsbD i then write i else none) 0
    (by
      intro w i hi
      cases hset : rbf.mask.getLsbD i with
      | false => rw [waitStep_clear hset]; rfl
      | true => rw [waitStep_set (hlt i hi) hset]; exact hfill w.cbs i)
    (by
      intro i hi
      cases hset : rbf.mask.getLsbD i with
      | false => exact nofun
      | true => exact hz i hi hset)
  rw [hiff]
  simp only [ite_eq_right_iff]

theorem nodeBit_ne_zero (node : U32) : nodeBit node ≠ 0 := by
  have hlt : (node - 1).toNat % 32 < 32 := Nat.mod_lt _ (by decide)
  intro hzero
  have hbit : (nodeBit node).getLsbD ((node - 1).toNat % 32) = true := by
    show (BitVec.ofNat 32 (1 <<< ((node - 1).toNat % 32))).getLsbD _ = true
    rw [BitVec.getLsbD_ofNat, Nat.one_shiftLeft, Nat.testBit_two_pow_self,
      Bool.and_true]
    exact decide_eq_true hlt
  rw [hzero] at hbit
  simp at hbit

theorem sourceNode_ne_zero : sourceNode rbf i ≠ some 0 := by
  unfold sourceNode
  split
  case h_6 => exact nofun
  all_goals exact fun h => nodeBit_ne_zero _ (Option.some.inj h)

theorem lt_of_mem_range (hn : n ≤ XmemDrvrIntrSOURCES) :
    ∀ i ∈ List.range n, i < XmemDrvrIntrSOURCES :=
  fun _ hi => Nat.lt_of_lt_of_le (List.mem_range.mp hi) hn

theorem node_eq_zero (hn : n ≤ XmemDrvrIntrSOURCES) :
    (waitLoop callmask rbf n).cbs.node = 0 ↔
      ∀ i < n, rbf.mask.getLsbD i = true → sourceNode rbf i = none := by
  have hiff := field_eq_zero callmask XmemCallbackStruct.node (sourceNode rbf) {}
    (fun _ _ => rfl) (lt_of_mem_range hn) fun _ _ _ => sourceNode_ne_zero
  refine hiff.trans ?_
  simp only [List.mem_range, true_and]

theorem sourceTable_of_sourceNode (h : sourceNode rbf i = none) :
    sourceTable rbf i = none := by
  unfold sourceTable
  split
  case h_4 => rfl
  all_goals cases h

theorem table_eq_zero (hn : n ≤ XmemDrvrIntrSOURCES)
    (h : (waitLoop callmask rbf n).cbs.node = 0) :
    (waitLoop callmask rbf n).cbs.table = 0 := by
  have hnone : ∀ i ∈ List.range n, rbf.mask.getLsbD i = true →
      sourceTable rbf i = none := fun i hi hset =>
    sourceTable_of_sourceNode ((node_eq_zero hn).mp h i (List.mem_range.mp hi) hset)
  have hiff := field_eq_zero callmask XmemCallbackStruct.table (sourceTable rbf) {}
    (fun _ _ => rfl) (lt_of_mem_range hn) fun i hi hset => by
      rw [hnone i hi hset]
      exact nofun
  exact hiff.mpr ⟨rfl, hnone⟩

theorem sourceData_ne_zero (h0 : i ≠ 0) (h7 : i ≠ 7) : sourceData rbf i ≠ some 0 := by
  unfold sourceData
  split
  case h_1 => exact absurd rfl h0
  case h_3 => exact absurd rfl h7
  case h_9 => exact nofun
  all_goals decide

theorem data_eq_zero (hn : n < XmemDrvrIntrSOURCES) (h7 : rbf.mask.getLsbD 7 = false) :
    (waitLoop callmask rbf (n + 1)).cbs.data = 0 ↔
      (rbf.mask.getLsbD 0 = true → rbf.ndData .int1 = 0) ∧
      ∀ i < n + 1, 0 < i → rbf.mask.getLsbD i = true → sourceData rbf i = none := by
  have hmem : ∀ i ∈ (List.range n).map Nat.succ, 0 < i ∧ i < n + 1 := by
    intro i hi
    obtain ⟨j, hj, rfl⟩ := List.mem_map.mp hi
    exact ⟨Nat.succ_pos j, Nat.succ_lt_succ (List.mem_range.mp hj)⟩
  have hiff := field_eq_zero callmask XmemCallbackStruct.data (sourceData rbf)
    (waitStep callmask rbf {} 0) (fun _ _ => rfl)
    (fun i hi => Nat.lt_of_lt_of_le (hmem i hi).2 hn)
    fun i hi hset => sourceData_ne_zero (Nat.pos_iff_ne_zero.mp (hmem i hi).1) fun heq => by
      rw [heq, h7] at hset
      cases hset
  have hloop : waitLoop callmask rbf (n + 1) =
      ((List.range n).map Nat.succ).foldl (waitStep callmask rbf)
        (waitStep callmask rbf {} 0) := by
    unfold waitLoop
    rw [List.range_succ_eq_map, List.foldl_cons]
  have hfirst : (waitStep callmask rbf {} 0).cbs.data = 0 ↔
      (rbf.mask.getLsbD 0 = true → rbf.ndData .int1 = 0) := by
    cases hset : rbf.mask.getLsbD 0 with
    | false =>
      rw [waitStep_clear hset]
      exact iff_of_true rfl nofun
    | true =>
      rw [waitStep_set (by decide) hset]
      exact ⟨fun h _ => h, fun h => h rfl⟩
  rw [hloop, hiff, hfirst]
  refine and_congr_right fun _ => ⟨fun h i hlt hpos hset => ?_,
    fun h i hi hset => h i (hmem i hi).2 (hmem i hi).1 hset⟩
  refine h i (List.mem_map.mpr ⟨i - 1, List.mem_range.mpr ?_, ?_⟩) hset <;> omega

/-! ## When a call decodes its buffer -/

theorem getD_eq_iff {α : Type} {o : Option α} {a b : α} :
    o.getD a = o.getD b ↔ (o = none → a = b) := by
  cases o with
  | none => exact ⟨fun h _ => h, fun h => h rfl⟩
  | some c => exact iff_of_true rfl nofun

theorem fill_eq_iff {cbs : XmemCallbackStruct} (hkind : sourceKind i ≠ 0) :
    fill rbf i cbs = sourceEvent rbf i ↔
      (sourceTable rbf i = none → cbs.table = 0) ∧
      (sourceNode rbf i = none → cbs.node = 0) ∧
      (sourceData rbf i = none → cbs.data = 0) := by
  unfold fill sourceEvent
  rw [if_neg hkind, XmemCallbackStruct.mk.injEq, getD_eq_iff, getD_eq_iff, getD_eq_iff]
  exact and_iff_right rfl

theorem waitLoop_decodes : Decodes callmask rbf
      ((waitLoop callmask rbf XmemDrvrIntrSOURCES).emsk,
        (waitLoop callmask rbf XmemDrvrIntrSOURCES).calls) ↔
    rbf.mask.getLsbD 7 = false ∧ ∀ i < XmemDrvrIntrSOURCES, delivers callmask rbf i = true →
      fill rbf i (waitLoop callmask rbf i).cbs = sourceEvent rbf i := by
  have hcalls : (waitLoop callmask rbf XmemDrvrIntrSOURCES).calls =
        ((List.range XmemDrvrIntrSOURCES).filter (delivers callmask rbf)).map
          (sourceEvent rbf) ↔
      ∀ i < XmemDrvrIntrSOURCES, delivers callmask rbf i = true →
        fill rbf i (waitLoop callmask rbf i).cbs = sourceEvent rbf i := by
    rw [waitLoop_calls (Nat.le_refl _), List.map_inj_left]
    simp only [List.mem_filter, List.mem_range, and_imp]
  constructor
  · intro h
    exact ⟨waitLoop_emsk_iff.mp h.mask, hcalls.mp h.calls⟩
  · intro h
    exact ⟨hcalls.mpr h.2, waitLoop_emsk_iff.mpr h.1⟩

theorem sourceNode_none : ∀ i ∈ [3, 6, 8, 9, 10, 11, 13], sourceNode rbf i = none := by
  intro i hi
  fin_cases hi <;> rfl

theorem sourceData_none : ∀ i ∈ [1, 2, 16], sourceData rbf i = none := by
  intro i hi
  fin_cases hi <;> rfl

theorem mem_of_sourceNode (h : sourceNode rbf i ≠ none) :
    i ∈ [0, 1, 2] ∨ i = 7 ∨ i = 16 := by
  unfold sourceNode at h
  split at h
  case h_6 => exact absurd rfl h
  all_goals decide

theorem mem_of_sourceData (h : sourceData rbf i ≠ none) :
    i = 0 ∨ i = 7 ∨ i ∈ [6, 8, 9, 10, 11, 13] := by
  unfold sourceData at h
  split at h
  case h_9 => exact absurd rfl h
  all_goals decide

theorem unmixed_of_events (h7 : rbf.mask.getLsbD 7 = false)
    (h : ∀ i < XmemDrvrIntrSOURCES, delivers callmask rbf i = true →
      fill rbf i (waitLoop callmask rbf i).cbs = sourceEvent rbf i) :
    Unmixed callmask rbf := by
  have hclean : ∀ i < XmemDrvrIntrSOURCES, delivers callmask rbf i = true →
      (sourceNode rbf i = none → (waitLoop callmask rbf i).cbs.node = 0) ∧
      (sourceData rbf i = none → (waitLoop callmask rbf i).cbs.data = 0) := by
    intro i hi hdel
    exact ((fill_eq_iff (kind_ne_zero hdel)).mp (h i hi hdel)).2
  have hdata : ∀ n < 16, delivers callmask rbf (n + 1) = true →
      sourceData rbf (n + 1) = none →
      (rbf.mask.getLsbD 0 = true → rbf.ndData .int1 = 0) ∧
        ∀ i < n + 1, 0 < i → rbf.mask.getLsbD i = true → sourceData rbf i = none :=
    fun n hn hdel hnone => (data_eq_zero (Nat.lt_succ_of_lt hn) h7).mp
      ((hclean (n + 1) (Nat.succ_lt_succ hn) hdel).2 hnone)
  refine ⟨h7, ?_, ?_, ?_⟩
  · intro i hi hdel j hj
    have hlt : ∀ i ∈ [3, 6, 8, 9, 10, 11, 13], 2 < i ∧ i < XmemDrvrIntrSOURCES := by decide
    have hle : ∀ j ∈ [0, 1, 2], j ≤ 2 ∧ sourceNode rbf j ≠ none := by
      intro j hj
      fin_cases hj <;> exact ⟨by decide, nofun⟩
    have hnode := (node_eq_zero (Nat.le_of_lt (hlt i hi).2)).mp
      ((hclean i (hlt i hi).2 hdel).1 (sourceNode_none i hi))
    cases hset : rbf.mask.getLsbD j with
    | false => rfl
    | true =>
      exact absurd (hnode j (Nat.lt_of_le_of_lt (hle j hj).1 (hlt i hi).1) hset) (hle j hj).2
  · intro i hi hdel
    have hnone : sourceData rbf i = none := sourceData_none i hi
    fin_cases hi
    · exact (hdata 0 (by decide) hdel hnone).1
    · exact (hdata 1 (by decide) hdel hnone).1
    · exact (hdata 15 (by decide) hdel hnone).1
  · intro hdel j hj
    have hcode : ∀ j ∈ [6, 8, 9, 10, 11, 13], j < 16 ∧ 0 < j ∧ sourceData rbf j ≠ none := by
      intro j hj
      fin_cases hj <;> exact ⟨by decide, by decide, nofun⟩
    obtain ⟨hlt, hpos, hsome⟩ := hcode j hj
    cases hset : rbf.mask.getLsbD j with
    | false => rfl
    | true => exact absurd ((hdata 15 (by decide) hdel rfl).2 j hlt hpos hset) hsome

theorem node_clean (h : Unmixed callmask rbf) (hi : i < XmemDrvrIntrSOURCES)
    (hdel : delivers callmask rbf i = true)
    (hnone : sourceNode rbf i = none) : (waitLoop callmask rbf i).cbs.node = 0 := by
  have hmem : i ∈ [3, 6, 8, 9, 10, 11, 13] ∧ i < 16 := by
    have hkind := kind_ne_zero hdel
    unfold XmemDrvrIntrSOURCES at hi
    interval_cases i <;> first | decide | exact absurd rfl hkind | cases hnone
  refine (node_eq_zero (Nat.le_of_lt hi)).mpr fun j hj hset => ?_
  by_contra hsome
  rcases mem_of_sourceNode hsome with hlow | h7 | h16
  · rw [h.node i hmem.1 hdel j hlow] at hset
    cases hset
  · rw [h7, h.pendingInit] at hset
    cases hset
  · omega

theorem data_clean (h : Unmixed callmask rbf) (hi : i < XmemDrvrIntrSOURCES)
    (hdel : delivers callmask rbf i = true)
    (hnone : sourceData rbf i = none) : (waitLoop callmask rbf i).cbs.data = 0 := by
  have hmem : i = 3 ∨ i ∈ [1, 2, 16] := by
    have hkind := kind_ne_zero hdel
    unfold XmemDrvrIntrSOURCES at hi
    interval_cases i <;> first | decide | exact absurd rfl hkind | cases hnone
  have hfirst : rbf.mask.getLsbD 0 = true → rbf.ndData .int1 = 0 := by
    rcases hmem with h3 | hmem
    · intro h0
      rw [h.node i (by simp [h3]) hdel 0 (by decide)] at h0
      cases h0
    · exact h.data i hmem hdel
  have hrest : ∀ j < i, 0 < j → rbf.mask.getLsbD j = true → sourceData rbf j = none := by
    intro j hj hpos hset
    by_contra hsome
    rcases mem_of_sourceData hsome with h0 | h7 | hcode
    · omega
    · rw [h7, h.pendingInit] at hset
      cases hset
    · have hge : ∀ j ∈ [6, 8, 9, 10, 11, 13], 6 ≤ j := by decide
      have h16 : i = 16 := by
        have := hge j hcode
        rcases hmem with h3 | hmem
        · omega
        · fin_cases hmem <;> omega
      rw [h.code (h16 ▸ hdel) j hcode] at hset
      cases hset
  have hpos : 0 < i := by
    rcases hmem with h3 | hmem
    · omega
    · fin_cases hmem <;> decide
  obtain ⟨n, rfl⟩ := Nat.exists_eq_succ_of_ne_zero (Nat.pos_iff_ne_zero.mp hpos)
  exact (data_eq_zero (Nat.lt_of_succ_lt hi) h.pendingInit).mpr ⟨hfirst, hrest⟩

theorem events_of_unmixed (h : Unmixed callmask rbf) (hi : i < XmemDrvrIntrSOURCES)
    (hdel : delivers callmask rbf i = true) :
    fill rbf i (waitLoop callmask rbf i).cbs = sourceEvent rbf i := by
  refine (fill_eq_iff (kind_ne_zero hdel)).mpr ⟨fun hnone => ?_, node_clean h hi hdel,
    data_clean h hi hdel⟩
  by_cases hnode : sourceNode rbf i = none
  · exact table_eq_zero (Nat.le_of_lt hi) (node_clean h hi hdel hnode)
  · rcases mem_of_sourceNode hnode with hlow | h7 | h16
    · fin_cases hlow
      · rfl
      · cases hnone
      · cases hnone
    · have hset := (delivers_iff.mp hdel).1
      rw [h7, h.pendingInit] at hset
      cases hset
    · subst h16
      cases hnone

theorem decodes_unregistered : Decodes 0 rbf (0, []) ↔
    ∀ i < XmemDrvrIntrSOURCES, rbf.mask.getLsbD i = true → sourceKind i = 0 := by
  have hcalls : (List.range XmemDrvrIntrSOURCES).filter (delivers 0 rbf) = [] := by
    exact List.filter_eq_nil_iff.mpr fun i _ => not_delivers_zero
  have hmask := foldl_or_eq_zero sourceKind
    ((List.range XmemDrvrIntrSOURCES).filter fun i => rbf.mask.getLsbD i) 0
  simp only [List.mem_filter, List.mem_range, and_imp, true_and] at hmask
  rw [← hmask]
  constructor
  · intro h
    exact h.mask.symm
  · intro h
    refine ⟨?_, h.symm⟩
    rw [hcalls]
    rfl

/-- A call that reads a buffer decodes it if and only if the buffer is unmixed;
without a registered kind it returns before it reads. -/
theorem vmicWait_decodes (callmask : U32) (rbf : XmemDrvrReadBuf) :
    Decodes callmask rbf
        (vmicWait callmask { xmem := true, timeoutSet := true, read := some rbf }) ↔
      Unmixed callmask rbf ∧ (callmask = 0 → ∀ i < XmemDrvrIntrSOURCES,
        rbf.mask.getLsbD i = true → sourceKind i = 0) := by
  by_cases hmask : callmask = 0
  · subst hmask
    refine decodes_unregistered.trans
      ⟨fun h => ⟨⟨?_, ?_, ?_, ?_⟩, fun _ => h⟩, fun h => h.2 rfl⟩
    · cases hset : rbf.mask.getLsbD 7 with
      | false => rfl
      | true => exact absurd (h 7 (by decide) hset) (by decide)
    · exact fun i _ hdel => absurd hdel not_delivers_zero
    · exact fun i _ hdel => absurd hdel not_delivers_zero
    · exact fun hdel => absurd hdel not_delivers_zero
  · have hres : vmicWait callmask { xmem := true, timeoutSet := true, read := some rbf } =
        ((waitLoop callmask rbf XmemDrvrIntrSOURCES).emsk,
          (waitLoop callmask rbf XmemDrvrIntrSOURCES).calls) := by
      unfold vmicWait
      rw [if_neg hmask]
      rfl
    rw [hres, waitLoop_decodes]
    constructor
    · intro h
      exact ⟨unmixed_of_events h.1 h.2, fun hzero => absurd hzero hmask⟩
    · intro h
      exact ⟨h.1.pendingInit, fun i hi hdel => events_of_unmixed h.1 hi hdel⟩


end Loop

/-- `INT_2` and `REQUEST_RESET`, both registered: the callback for the second one
gets the node and the table of the first. -/
theorem vmicWait_reset_after_int2 :
    ¬ Decodes (XmemEventMaskSEND_TABLE ||| XmemEventMaskKILL)
      { mask := XmemDrvrIntrINT_2 ||| XmemDrvrIntrREQUEST_RESET
        nodeId := fun _ => 3, ndData := fun _ => 4 }
      (vmicWait (XmemEventMaskSEND_TABLE ||| XmemEventMaskKILL)
        { xmem := true, timeoutSet := true
          read := some
            { mask := XmemDrvrIntrINT_2 ||| XmemDrvrIntrREQUEST_RESET
              nodeId := fun _ => 3, ndData := fun _ => 4 } }) := by
  intro h
  have hcalls := h.calls
  revert hcalls
  decide

end Coht.Vmic
