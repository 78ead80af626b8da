import Coht.XmemDrvr.Interrupts

/-!
# Messages to sets of nodes (`VmicLib.c`, `xmemDrvr.c`)

`XmemSendMessage()` takes a set of nodes, one bit each. The library counts them
and asks the driver for a broadcast, a unicast or a multicast; the driver writes
to the network interrupt registers, and what the message would do to the node
that sends it is done by `InterruptSelf()`. A write to `VmicRfmNIC` sends an
interrupt, to the node in `VmicRfmNTN` or to all the others.

`SendInterrupt()` does not look whether the node that sends a multicast is one
of its nodes, and the library makes a multicast of the empty set too.
`message_reaches_iff` says for which sets the nodes reached are the ones named.
-/

namespace Coht.XmemDrvr

open Coht.Lib

def XmemMAX_NODES : Nat := 32
def XmemALL_NODES : U32 := 0xFFFFFFFF
def XmemDrvrNODES : Nat := 32

def XmemDrvrNicCAST : U32 := 0x38
def XmemDrvrNicBROADCAST : U32 := 0x08
def XmemDrvrNicMULTICAST : U32 := 0x10
def XmemDrvrNicUNICAST : U32 := 0x20

inductive XmemMessageType
  | sendTable | user | tableUpdate | initializeMe | kill | count
  deriving DecidableEq

structure XmemMessage where
  messageType : XmemMessageType
  data : U32

/-- `XmemDrvrSendBuf`, with what `InterruptSelf()` does not read. -/
structure SendBuf extends XmemDrvrSendBuf where
  unicastNodeId : U32 := 0
  multicastMask : U32 := 0

/-! ## The library -/

/-- The loop that counts the nodes: `cnt`, which it does not let go beyond two,
and `nnum`. -/
def countNodes (nodes : U32) : List Nat → Nat × U32 → Nat × U32
  | [], s => s
  | i :: is, (cnt, nnum) =>
    let s :=
      if nodes &&& 1#32 <<< i = 0 then (cnt, nnum)
      else (cnt + 1, BitVec.ofNat 32 (i + 1))
    if 1 < s.1 then s else countNodes nodes is s

/-- `mcst`, `UnicastNodeId` and `MulticastMask`. -/
def castOf (nodes : U32) : U32 × U32 × U32 :=
  if nodes = XmemALL_NODES then (XmemDrvrNicBROADCAST, 0, 0)
  else
    let (cnt, nnum) := countNodes nodes (List.range XmemMAX_NODES) (0, 0)
    if cnt = 1 then (XmemDrvrNicUNICAST, nnum, 0)
    else (XmemDrvrNicMULTICAST, 0, nodes)

def messageNic : XmemMessageType → Option U32
  | .sendTable => some XmemDrvrNicINT_2
  | .user => some XmemDrvrNicINT_1
  | .tableUpdate => some XmemDrvrNicSEGMENT_UPDATE
  | .initializeMe => some XmemDrvrNicINITIALIZED
  | .kill => some XmemDrvrNicREQUEST_RESET
  | .count => none

/-- What `VmicSendMessage()` passes to `XmemDrvrSEND_INTERRUPT`; an unknown
message is not sent. -/
def vmicSendBuf (nodes : U32) (mess : XmemMessage) : Option SendBuf :=
  (messageNic mess.messageType).map fun mtyp =>
    { module := 1
      interruptType := mtyp ||| (castOf nodes).1
      data := mess.data
      unicastNodeId := (castOf nodes).2.1
      multicastMask := (castOf nodes).2.2 }

/-! ## The driver -/

/-- An interrupt on the network: to one node, or to all but the sender. -/
structure Packet where
  target : Option (BitVec 8)
  ntype : U32
  data : U32
  deriving DecidableEq

/-- The registers, the interrupts sent by writing to them, and the calls of
`InterruptSelf()`. -/
structure Sender where
  wa : XmemArea
  ntd : U32 := 0
  ntn : BitVec 8 := 0
  sent : List Packet := []
  selfs : List XmemDrvrSendBuf := []

def Sender.writeNic (v : U32) (s : Sender) : Sender :=
  { s with sent := s.sent ++
    [{ target := if v &&& XmemDrvrNicBROADCAST = 0 then some s.ntn else none
       ntype := v &&& XmemDrvrNicTYPE
       data := s.ntd }] }

def Sender.self (m : Nat) (sbuf : SendBuf) (s : Sender) : Sender :=
  { s with
    wa := interruptSelf m sbuf.toXmemDrvrSendBuf s.wa
    selfs := s.selfs ++ [sbuf.toXmemDrvrSendBuf] }

/-- One round of the loop of a multicast. -/
def multicastStep (m : Nat) (sbuf : SendBuf) (s : Sender) (i : Nat) : Sender :=
  if BitVec.ofNat 32 i = s.wa.nodeId m - 1 then s.self m sbuf
  else if sbuf.multicastMask &&& 1#32 <<< i = 0 then s
  else
    { s with ntn := BitVec.ofNat 8 (i + 1) }.writeNic
      (sbuf.interruptType &&& XmemDrvrNicTYPE)

/-- `SendInterrupt()`; the errors are `none`. -/
def sendToNodes (sbuf : SendBuf) (s : Sender) : Option Sender :=
  let midx := (sbuf.module - 1).toNat
  if s.wa.conns.modules ≤ midx then none
  else
    let ntype := sbuf.interruptType &&& XmemDrvrNicTYPE
    let ncast := sbuf.interruptType &&& XmemDrvrNicCAST
    let s := { s with ntd := sbuf.data }
    if ncast = XmemDrvrNicBROADCAST then
      some ((s.writeNic (XmemDrvrNicBROADCAST ||| ntype)).self midx sbuf)
    else if ncast = XmemDrvrNicMULTICAST then
      some ((List.range XmemDrvrNODES).foldl (multicastStep midx sbuf) s)
    else if ncast = XmemDrvrNicUNICAST then
      some
        (if sbuf.unicastNodeId = s.wa.nodeId midx then s.self midx sbuf
         else { s with ntn := sbuf.unicastNodeId.setWidth 8 }.writeNic ntype)
    else none

/-- `VmicSendMessage()`, down to the registers. -/
def vmicSendMessage (nodes : U32) (mess : XmemMessage) (wa : XmemArea) :
    Option Sender :=
  (vmicSendBuf nodes mess).bind fun sbuf => sendToNodes sbuf { wa := wa }

/-! ## Where the interrupts arrive -/

def Packet.reaches (own k : Nat) (p : Packet) : Bool :=
  match p.target with
  | some n => n.toNat = k
  | none => k ≠ own

/-- How often the interrupt is raised at the node `k`. -/
def Sender.raises (own k : Nat) (s : Sender) : Nat :=
  s.sent.countP (Packet.reaches own k) + if k = own then s.selfs.length else 0

/-- The message is raised once at each node of the set, and nowhere else. -/
structure Reaches (nodes : U32) (own : Nat) (mtyp data : U32) (wa : XmemArea)
    (s : Sender) : Prop where
  once : ∀ k, 1 ≤ k → k ≤ XmemMAX_NODES →
    s.raises own k = if nodes.getLsbD (k - 1) then 1 else 0
  packets : ∀ p ∈ s.sent, p.ntype = mtyp ∧ p.data = data
  calls : ∀ b ∈ s.selfs,
    b.interruptType &&& XmemDrvrNicTYPE = mtyp ∧ b.data = data
  area : s.wa = s.selfs.foldl (fun wa b => interruptSelf 0 b wa) wa

def Single (nodes : U32) : Prop :=
  ∃ k, nodes.getLsbD k = true ∧ ∀ j, nodes.getLsbD j = true → j = k

section Count

variable {nodes : U32} {l : List Nat} {k : Nat} {nnum : U32}

theorem countNodes_skip {i : Nat} {s : Nat × U32} (hi : nodes.getLsbD i = false)
    (hs : s.1 ≤ 1) : countNodes nodes (i :: l) s = countNodes nodes l s := by
  obtain ⟨cnt, n⟩ := s
  rw [countNodes]
  rw [if_pos (and_one_shiftLeft_eq_zero.mpr hi)]
  exact if_neg (Nat.not_lt.mpr hs)

theorem countNodes_hit {i cnt : Nat} (hi : nodes.getLsbD i = true) :
    countNodes nodes (i :: l) (cnt, nnum) =
      if 1 < cnt + 1 then (cnt + 1, BitVec.ofNat 32 (i + 1))
      else countNodes nodes l (cnt + 1, BitVec.ofNat 32 (i + 1)) := by
  have hne : ¬ nodes &&& 1#32 <<< i = 0 := fun hzero => by
    rw [and_one_shiftLeft_eq_zero.mp hzero] at hi
    cases hi
  rw [countNodes]
  rw [if_neg hne]

theorem countNodes_clear {s : Nat × U32} (h : ∀ i ∈ l, nodes.getLsbD i = false)
    (hs : s.1 ≤ 1) : countNodes nodes l s = s := by
  induction l with
  | nil => rfl
  | cons i l ih =>
    rw [countNodes_skip (h i List.mem_cons_self) hs]
    exact ih fun j hj => h j (List.mem_cons_of_mem i hj)

theorem countNodes_second (h : (countNodes nodes l (1, nnum)).1 = 1) :
    ∀ i ∈ l, nodes.getLsbD i = false := by
  induction l with
  | nil => exact fun i hi => by cases hi
  | cons i l ih =>
    cases hi : nodes.getLsbD i with
    | false =>
      rw [countNodes_skip hi (Nat.le_refl 1)] at h
      exact List.forall_mem_cons.mpr ⟨hi, ih h⟩
    | true =>
      rw [countNodes_hit hi, if_pos (Nat.lt_succ_self 1)] at h
      cases h

theorem countNodes_one (h : (countNodes nodes l (0, nnum)).1 = 1) :
    ∃ k ∈ l, nodes.getLsbD k = true ∧ ∀ j ∈ l, nodes.getLsbD j = true → j = k := by
  induction l with
  | nil => cases h
  | cons i l ih =>
    cases hi : nodes.getLsbD i with
    | false =>
      rw [countNodes_skip hi (Nat.zero_le 1)] at h
      obtain ⟨k, hk, hset, honly⟩ := ih h
      refine ⟨k, List.mem_cons_of_mem i hk, hset, fun j hj hjset => ?_⟩
      obtain rfl | hj := List.mem_cons.mp hj
      · rw [hi] at hjset
        cases hjset
      · exact honly j hj hjset
    | true =>
      rw [countNodes_hit hi, if_neg (Nat.lt_irrefl 1)] at h
      refine ⟨i, List.mem_cons_self, hi, fun j hj hjset => ?_⟩
      obtain rfl | hj := List.mem_cons.mp hj
      · rfl
      · rw [countNodes_second h j hj] at hjset
        cases hjset

theorem countNodes_only (hset : nodes.getLsbD k = true)
    (honly : ∀ j, nodes.getLsbD j = true → j = k) (hnd : l.Nodup) (hk : k ∈ l) :
    countNodes nodes l (0, nnum) = (1, BitVec.ofNat 32 (k + 1)) := by
  have hclear : ∀ j, j ≠ k → nodes.getLsbD j = false := fun j hj =>
    Bool.eq_false_iff.mpr fun hjset => hj (honly j hjset)
  induction l with
  | nil => cases hk
  | cons i l ih =>
    have hnd' := List.nodup_cons.mp hnd
    obtain rfl | hk := List.mem_cons.mp hk
    · rw [countNodes_hit hset, if_neg (Nat.lt_irrefl 1)]
      refine countNodes_clear (fun j hj => hclear j ?_) (Nat.le_refl 1)
      rintro rfl
      exact hnd'.1 hj
    · have hi : i ≠ k := by
        rintro rfl
        exact hnd'.1 hk
      rw [countNodes_skip (hclear i hi) (Nat.zero_le 1)]
      exact ih hnd'.2 hk

end Count

/-! ## Sending -/

section Sending

variable {m own k : Nat} {sbuf : SendBuf} {wa : XmemArea} {s : Sender}
  {hit : Nat → Bool}

theorem deliver_nodeId {rbf : XmemDrvrReadBuf} {usegs meets : U32} {n : Nat} :
    (deliver m rbf usegs meets n wa).nodeId = wa.nodeId := by
  induction n with
  | zero => rfl
  | succ n ih =>
    refine Eq.trans ?_ ih
    show (deliverTo m rbf usegs meets n _).nodeId = _
    unfold deliverTo
    dsimp only
    split <;> split <;> rfl

theorem selfs_nodeId {l : List XmemDrvrSendBuf} :
    (l.foldl (fun wa b => interruptSelf m b wa) wa).nodeId = wa.nodeId := by
  induction l generalizing wa with
  | nil => rfl
  | cons b l ih => exact ih.trans deliver_nodeId

structure Sent (m own : Nat) (sbuf : SendBuf) (wa : XmemArea) (hit : Nat → Bool)
    (s : Sender) : Prop where
  raises : ∀ k, 1 ≤ k → k ≤ XmemMAX_NODES →
    s.raises own k = if hit k then 1 else 0
  ntd : s.ntd = sbuf.data
  packets : ∀ p ∈ s.sent,
    p.ntype = sbuf.interruptType &&& XmemDrvrNicTYPE ∧ p.data = sbuf.data
  calls : ∀ b ∈ s.selfs, b = sbuf.toXmemDrvrSendBuf
  area : s.wa = s.selfs.foldl (fun wa b => interruptSelf m b wa) wa

theorem Sent.nothing :
    Sent m own sbuf wa (fun _ => false) { wa := wa, ntd := sbuf.data } where
  raises k _ _ := by simp [Sender.raises]
  ntd := rfl
  packets p hp := by cases hp
  calls b hb := by cases hb
  area := rfl

theorem Sent.nodeId (h : Sent m own sbuf wa hit s) : s.wa.nodeId = wa.nodeId := by
  rw [h.area]
  exact selfs_nodeId

theorem Sent.congr {hit' : Nat → Bool} (h : Sent m own sbuf wa hit s)
    (heq : ∀ k, 1 ≤ k → k ≤ XmemMAX_NODES → hit k = hit' k) :
    Sent m own sbuf wa hit' s :=
  { h with raises := fun k h1 h2 => heq k h1 h2 ▸ h.raises k h1 h2 }

theorem one_more {a b : Bool} (h : a = true → b = false) :
    ((if b then 1 else 0) + if a then 1 else 0 : Nat) = if b || a then 1 else 0 := by
  cases a
  · simp
  · simp [h rfl]

theorem Sent.self (h : Sent m own sbuf wa hit s) (hown : hit own = false) :
    Sent m own sbuf wa (fun k => hit k || decide (k = own)) (s.self m sbuf) where
  raises k h1 h2 := by
    have hmore : (s.self m sbuf).raises own k =
        s.raises own k + if decide (k = own) then 1 else 0 := by
      unfold Sender.raises Sender.self
      by_cases hk : k = own
      · simp [hk, Nat.add_assoc]
      · simp [hk]
    rw [hmore, h.raises k h1 h2]
    refine one_more fun hk => ?_
    rw [of_decide_eq_true hk]
    exact hown
  ntd := h.ntd
  packets := h.packets
  calls b hb := by
    obtain hb | hb := List.mem_append.mp hb
    · exact h.calls b hb
    · exact List.mem_singleton.mp hb
  area := by
    show interruptSelf m _ s.wa = List.foldl _ wa (s.selfs ++ [_])
    rw [List.foldl_append, ← h.area]
    rfl

theorem Sent.packet {v : U32} {n : BitVec 8} {t : Nat → Bool}
    (h : Sent m own sbuf wa hit s)
    (htype : v &&& XmemDrvrNicTYPE = sbuf.interruptType &&& XmemDrvrNicTYPE)
    (hto : ∀ k, Packet.reaches own k
      { target := if v &&& XmemDrvrNicBROADCAST = 0 then some n else none
        ntype := v &&& XmemDrvrNicTYPE
        data := s.ntd } = t k)
    (hnew : ∀ k, t k = true → hit k = false) :
    Sent m own sbuf wa (fun k => hit k || t k)
      ({ s with ntn := n }.writeNic v) where
  raises k h1 h2 := by
    have hmore : ({ s with ntn := n }.writeNic v).raises own k =
        s.raises own k + if t k then 1 else 0 := by
      unfold Sender.raises Sender.writeNic
      dsimp only
      rw [List.countP_append, List.countP_singleton, hto]
      omega
    rw [hmore, h.raises k h1 h2]
    exact one_more (hnew k)
  ntd := h.ntd
  packets p hp := by
    obtain hp | hp := List.mem_append.mp hp
    · exact h.packets p hp
    · rw [List.mem_singleton.mp hp]
      exact ⟨htype, h.ntd⟩
  calls := h.calls
  area := h.area

theorem isOwn_iff {i : Nat} (hi : i < XmemDrvrNODES) (hlo : 1 ≤ own)
    (hhi : own ≤ XmemMAX_NODES) :
    BitVec.ofNat 32 i = BitVec.ofNat 32 own - 1 ↔ i + 1 = own := by
  have hi' : i < 32 := hi
  have hhi' : own ≤ 32 := hhi
  rw [← BitVec.toNat_inj, BitVec.toNat_sub, BitVec.toNat_ofNat, BitVec.toNat_ofNat]
  show i % 2 ^ 32 = (2 ^ 32 - 1 + own % 2 ^ 32) % 2 ^ 32 ↔ _
  omega

theorem toNat_ofNat_node {i : Nat} (hi : i < XmemDrvrNODES) :
    (BitVec.ofNat 8 (i + 1)).toNat = i + 1 := by
  have hi' : i < 32 := hi
  rw [BitVec.toNat_ofNat]
  omega

theorem type_type {x : U32} :
    x &&& XmemDrvrNicTYPE &&& XmemDrvrNicTYPE = x &&& XmemDrvrNicTYPE := by
  rw [BitVec.and_assoc, BitVec.and_self]

theorem type_plain {x : U32} :
    x &&& XmemDrvrNicTYPE &&& XmemDrvrNicBROADCAST = 0 := by
  rw [BitVec.and_assoc]
  exact BitVec.and_zero

theorem multicast_sent {n : Nat} (hn : n ≤ XmemDrvrNODES)
    (hlo : 1 ≤ own) (hhi : own ≤ XmemMAX_NODES)
    (hnode : wa.nodeId m = BitVec.ofNat 32 own) :
    Sent m own sbuf wa
      (fun k => decide (1 ≤ k ∧ k ≤ n) &&
        (decide (k = own) || sbuf.multicastMask.getLsbD (k - 1)))
      ((List.range n).foldl (multicastStep m sbuf) { wa := wa, ntd := sbuf.data }) := by
  induction n with
  | zero =>
    refine Sent.nothing.congr fun k h1 _ => ?_
    simp [show ¬ k ≤ 0 by omega]
  | succ n ih =>
    have hlt : n < XmemDrvrNODES := hn
    have hs := ih (Nat.le_of_lt hlt)
    rw [List.range_succ, List.foldl_append, List.foldl_cons, List.foldl_nil]
    generalize (List.range n).foldl (multicastStep m sbuf) _ = s at hs ⊢
    unfold multicastStep
    rw [hs.nodeId, hnode]
    split
    · next hown =>
      have hown' := (isOwn_iff hlt hlo hhi).mp hown
      refine (hs.self ?_).congr fun k _ _ => ?_
      · simp [show ¬ own ≤ n by omega]
      · by_cases hk : k = own
        · simp [hk, hlo, show own ≤ n + 1 by omega]
        · simp [hk, show k ≤ n + 1 ↔ k ≤ n by omega]
    · next hown =>
      have hown' := mt (isOwn_iff hlt hlo hhi).mpr hown
      split
      · next hclear =>
        rw [and_one_shiftLeft_eq_zero] at hclear
        refine hs.congr fun k _ _ => ?_
        by_cases hk : k = n + 1
        · subst hk
          simp [hclear, hown']
        · simp [show k ≤ n + 1 ↔ k ≤ n by omega]
      · next hset =>
        rw [and_one_shiftLeft_eq_zero, Bool.not_eq_false] at hset
        refine (Sent.packet (t := fun k => decide (k = n + 1)) hs type_type
          (fun k => ?_) fun k hk => ?_).congr fun k _ _ => ?_
        · rw [if_pos type_plain]
          unfold Packet.reaches
          dsimp only
          rw [toNat_ofNat_node hlt]
          simp [eq_comm]
        · rw [of_decide_eq_true hk]
          simp
        · by_cases hk : k = n + 1
          · subst hk
            simp [hset]
          · simp [hk, show k ≤ n + 1 ↔ k ≤ n by omega]

end Sending

/-! ## Which sets are reached -/

section Sets

variable {nodes : U32} {own : Nat} {mess : XmemMessage} {mtyp mcst : U32}
  {wa : XmemArea}

theorem bit_all {j : Nat} : XmemALL_NODES.getLsbD j = decide (j < 32) :=
  BitVec.getLsbD_allOnes

theorem castOf_cases (nodes : U32) :
    nodes = XmemALL_NODES ∧ castOf nodes = (XmemDrvrNicBROADCAST, 0, 0) ∨
    (∃ k, nodes.getLsbD k = true ∧ (∀ j, nodes.getLsbD j = true → j = k) ∧
      castOf nodes = (XmemDrvrNicUNICAST, BitVec.ofNat 32 (k + 1), 0)) ∨
    ¬ Single nodes ∧ castOf nodes = (XmemDrvrNicMULTICAST, 0, nodes) := by
  unfold castOf
  by_cases hall : nodes = XmemALL_NODES
  · exact .inl ⟨hall, if_pos hall⟩
  rw [if_neg hall]
  by_cases hsingle : Single nodes
  · obtain ⟨k, hset, honly⟩ := hsingle
    have hk : k ∈ List.range XmemMAX_NODES :=
      List.mem_range.mpr (BitVec.lt_of_getLsbD hset)
    refine .inr (.inl ⟨k, hset, honly, ?_⟩)
    rw [countNodes_only hset honly List.nodup_range hk]
    rfl
  · have hone := @countNodes_one nodes (List.range XmemMAX_NODES) 0
    generalize countNodes nodes (List.range XmemMAX_NODES) (0, 0) = counted
      at hone ⊢
    refine .inr (.inr ⟨hsingle, if_neg fun hcnt => hsingle ?_⟩)
    obtain ⟨k, -, hset, honly⟩ := hone hcnt
    exact ⟨k, hset, fun j hj =>
      honly j (List.mem_range.mpr (BitVec.lt_of_getLsbD hj)) hj⟩

theorem messageNic_bits (h : messageNic mess.messageType = some mtyp)
    (hcast : mcst = XmemDrvrNicBROADCAST ∨ mcst = XmemDrvrNicUNICAST ∨
      mcst = XmemDrvrNicMULTICAST) :
    (mtyp ||| mcst) &&& XmemDrvrNicTYPE = mtyp ∧
      (mtyp ||| mcst) &&& XmemDrvrNicCAST = mcst := by
  cases ht : mess.messageType <;> rw [ht] at h <;> cases h <;>
    obtain rfl | rfl | rfl := hcast <;> decide

theorem broadcast_bits (h : messageNic mess.messageType = some mtyp) :
    (XmemDrvrNicBROADCAST ||| mtyp) &&& XmemDrvrNicTYPE = mtyp ∧
      (XmemDrvrNicBROADCAST ||| mtyp) &&& XmemDrvrNicBROADCAST ≠ 0 := by
  cases ht : mess.messageType <;> rw [ht] at h <;> cases h <;> decide

theorem Reaches.of_sent {sbuf : SendBuf} {hit : Nat → Bool} {s : Sender}
    (h : Sent 0 own sbuf wa hit s)
    (htype : sbuf.interruptType &&& XmemDrvrNicTYPE = mtyp)
    (hhit : ∀ k, 1 ≤ k → k ≤ XmemMAX_NODES → hit k = nodes.getLsbD (k - 1)) :
    Reaches nodes own mtyp sbuf.data wa s where
  once k h1 h2 := hhit k h1 h2 ▸ h.raises k h1 h2
  packets p hp := htype ▸ h.packets p hp
  calls b hb := by
    rw [h.calls b hb]
    exact ⟨htype, rfl⟩
  area := h.area

/-- A message reaches the nodes named, once each and no others, when it is for
a single node, or for the sender among others. -/
theorem message_reaches_iff (hlo : 1 ≤ own) (hhi : own ≤ XmemMAX_NODES)
    (hnode : wa.nodeId 0 = BitVec.ofNat 32 own) (hmod : 0 < wa.conns.modules)
    (htype : messageNic mess.messageType = some mtyp) :
    (∃ s, vmicSendMessage nodes mess wa = some s ∧
      Reaches nodes own mtyp mess.data wa s) ↔
    Single nodes ∨ nodes.getLsbD (own - 1) = true := by
  have hmod' : ¬ wa.conns.modules ≤ 0 := Nat.not_le.mpr hmod
  generalize hsbuf : ({ module := 1, interruptType := mtyp ||| (castOf nodes).1
                        data := mess.data, unicastNodeId := (castOf nodes).2.1
                        multicastMask := (castOf nodes).2.2 } : SendBuf) = sbuf
  have hsend : vmicSendMessage nodes mess wa = sendToNodes sbuf { wa := wa } := by
    unfold vmicSendMessage vmicSendBuf
    rw [htype, ← hsbuf]
    rfl
  have hdata : mess.data = sbuf.data := by rw [← hsbuf]
  rw [hsend, hdata]
  have hzero : (sbuf.module - 1).toNat = 0 := by
    rw [← hsbuf]
    show ((1 : U32) - 1).toNat = 0
    decide
  have hnic : sbuf.interruptType = mtyp ||| (castOf nodes).1 := by rw [← hsbuf]
  have hmask : sbuf.multicastMask = (castOf nodes).2.2 := by rw [← hsbuf]
  have hunicast : sbuf.unicastNodeId = (castOf nodes).2.1 := by rw [← hsbuf]
  clear hsbuf hsend
  unfold sendToNodes
  dsimp only
  rw [hzero, if_neg hmod']
  obtain ⟨rfl, hcast⟩ | ⟨k, hset, honly, hcast⟩ | ⟨hsingle, hcast⟩ :=
    castOf_cases nodes
  · rw [hcast] at hnic
    obtain ⟨hty, hca⟩ := @messageNic_bits mess mtyp _ htype (.inl rfl)
    rw [← hnic] at hty hca
    obtain ⟨hbtype, hbcast⟩ := broadcast_bits htype
    rw [hca, if_pos rfl, hty]
    have hbit : XmemALL_NODES.getLsbD (own - 1) = true := by
      rw [bit_all]
      exact decide_eq_true (show own - 1 < 32 by have : own ≤ 32 := hhi; omega)
    refine iff_of_true ⟨_, rfl, @Reaches.of_sent XmemALL_NODES own mtyp wa sbuf
      (fun k => decide (k ≠ own) || decide (k = own)) _ ?_ hty fun k h1 h2 => ?_⟩
      (.inr hbit)
    · refine Sent.self ?_ (by simp)
      refine (Sent.packet (t := fun k => decide (k ≠ own)) Sent.nothing
        (hbtype.trans hty.symm) (fun k => ?_) fun _ _ => rfl).congr fun k _ _ => rfl
      rw [if_neg hbcast]
      rfl
    · have h2' : k ≤ 32 := h2
      rw [bit_all, decide_eq_true (show k - 1 < 32 by omega)]
      by_cases hk : k = own <;> simp [hk]
  · rw [hcast] at hnic hunicast
    obtain ⟨hty, hca⟩ := @messageNic_bits mess mtyp _ htype (.inr (.inl rfl))
    rw [← hnic] at hty hca
    have hk : k < 32 := BitVec.lt_of_getLsbD hset
    rw [hca, if_neg (by decide), if_neg (by decide), if_pos rfl]
    refine iff_of_true ⟨_, rfl, @Reaches.of_sent nodes own mtyp wa sbuf
      (fun j => decide (j = k + 1)) _ ?_ hty fun j h1 _ => ?_⟩ (.inl ⟨k, hset, honly⟩)
    · rw [hunicast, hnode]
      split
      · next heq =>
        have heq' := congrArg BitVec.toNat heq
        rw [BitVec.toNat_ofNat, BitVec.toNat_ofNat] at heq'
        have hhi' : own ≤ 32 := hhi
        have hown : own = k + 1 := by omega
        exact (Sent.nothing.self rfl).congr fun j _ _ => by rw [hown]; rfl
      · refine (Sent.packet (t := fun j => decide (j = k + 1)) Sent.nothing
          type_type (fun j => ?_) fun _ _ => rfl).congr fun j _ _ => rfl
        rw [if_pos type_plain]
        show decide (((BitVec.ofNat 32 (k + 1)).setWidth 8).toNat = j) = _
        rw [BitVec.toNat_setWidth, BitVec.toNat_ofNat,
          show (k + 1) % 2 ^ 32 % 2 ^ 8 = k + 1 by omega]
        exact decide_eq_decide.mpr eq_comm
    · by_cases hj : j = k + 1
      · rw [hj, Nat.add_sub_cancel, hset]
        exact decide_eq_true rfl
      · rw [decide_eq_false hj, eq_comm, Bool.eq_false_iff]
        exact fun hjset => hj (by have := honly _ hjset; omega)
  · rw [hcast] at hnic hmask
    obtain ⟨hty, hca⟩ := @messageNic_bits mess mtyp _ htype (.inr (.inr rfl))
    rw [← hnic] at hty hca
    rw [hca, if_neg (by decide), if_pos rfl]
    have hsent := @multicast_sent 0 own sbuf wa XmemDrvrNODES (Nat.le_refl _) hlo hhi
      hnode
    rw [hmask] at hsent
    generalize (List.range XmemDrvrNODES).foldl _ _ = sent at hsent ⊢
    constructor
    · rintro ⟨s, hs, hreaches⟩
      cases hs
      have honce := (hreaches.once own hlo hhi).symm.trans (hsent.raises own hlo hhi)
      cases hbit : nodes.getLsbD (own - 1) with
      | true => exact .inr rfl
      | false =>
        have hhi' : own ≤ XmemDrvrNODES := hhi
        rw [hbit] at honce
        simp [hlo, hhi'] at honce
    · intro hset
      have hbit := hset.resolve_left hsingle
      refine ⟨_, rfl, Reaches.of_sent hsent hty fun k h1 h2 => ?_⟩
      have h2' : k ≤ XmemDrvrNODES := h2
      by_cases hk : k = own
      · simp [hk, hbit, hlo, show own ≤ XmemDrvrNODES from hhi]
      · simp [hk, h1, h2']

/-- Node 1 sends to itself and to node 2. -/
theorem message_reaches_both : ∃ s, vmicSendMessage 3 ⟨.user, 5⟩ oneArea = some s ∧
    Reaches 3 1 XmemDrvrNicINT_1 5 oneArea s :=
  (@message_reaches_iff 3 1 ⟨.user, 5⟩ XmemDrvrNicINT_1 oneArea (by decide)
    (by decide) rfl (by decide) rfl).mpr (.inr (by decide))

/-- Node 1 sends to the nodes 2 and 3. -/
theorem not_message_reaches : ¬ ∀ (nodes : U32) (own : Nat) (mess : XmemMessage)
    (mtyp : U32) (wa : XmemArea), 1 ≤ own → own ≤ XmemMAX_NODES →
      wa.nodeId 0 = BitVec.ofNat 32 own → 0 < wa.conns.modules →
      messageNic mess.messageType = some mtyp →
      ∃ s, vmicSendMessage nodes mess wa = some s ∧
        Reaches nodes own mtyp mess.data wa s := by
  intro hall
  obtain ⟨s, hs, hreaches⟩ := hall 6 1 ⟨.user, 5⟩ XmemDrvrNicINT_1 oneArea
    (by decide) (by decide) rfl (by decide) rfl
  have hself : (vmicSendMessage 6 ⟨.user, 5⟩ oneArea).map (Sender.raises 1 1) =
      some 1 := by
    decide +kernel
  rw [hs] at hself
  have honce := hreaches.once 1 (by decide) (by decide)
  rw [Option.some.inj hself] at honce
  exact absurd honce (by decide)

end Sets

end Coht.XmemDrvr
