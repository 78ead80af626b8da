import Coht.XmemDrvr.Messages

/-!
# Who is on the network (`xmemDrvr.c`, `VmicLib.c`, `XmemDaemon.c`)

A node that starts resets its module, which tells the others in a message with
data, and its daemon then asks for answers with `XmemInitMessageRESET`.
`IntrHandler()` adds the sender of each message to `Wa->Nodes`; a message with
data makes it forget all but the sender and itself. A daemon answers a request
with `XmemInitMessageSEEN_BY`, which has none.

`Network` is all the nodes: the maps, the messages each has still to see, and
those its daemon has still to look at. A broadcast reaches the nodes that are
up in one step, so all see the messages in one order; a node does not see its
own, but its daemon does, by `InterruptSelf()`. The invariant is about the map
that a node will have when it has seen what is under way: once all have asked,
each other node is in it or has yet to answer.

The daemons choose the one that writes a table to disc by their maps alone.
-/

namespace Coht.XmemDrvr

open Coht.Lib

def XmemInitMessageSEEN_BY : U32 := 0
def XmemInitMessageRESET : U32 := 1

def ON_DISC : U32 := 0x01
def IN_SHMEM : U32 := 0x02

/-- The `PENDING_INIT` case of `IntrHandler()`. -/
def pendingInit (own data node nodes : U32) : U32 :=
  if data = 0 then nodes ||| nodeBit node else nodeBit own ||| nodeBit node

theorem addSource_pendingInit {regs : IntrRegs} {own : U32} {g : Gathered} :
    (addSource regs own VmicLisrPENDING_INIT g).nodes =
      pendingInit own regs.initd (regs.initn.setWidth 32) g.nodes := by
  have hcase : lisrCase VmicLisrPENDING_INIT = .pendingInit := by decide
  unfold addSource
  rw [hcase]
  rfl

/-- The `INITIALIZED` case of the daemon's `callback()`: what it sends to all
nodes. -/
def callbackInitialized (data : U32) : Option U32 :=
  if data = XmemInitMessageRESET then some XmemInitMessageSEEN_BY else none

/-- The `TABLE_UPDATE` case: whether it writes the file of the table `tid`, of
which `nodes` and `user` are the description. `XmemGetAllNodeIds()` returns
`all`. -/
def callbackTableUpdate (symp : Bool) (me tid node nodes user all : U32) : Bool :=
  if (tid = 0 ∨ node = me) ∧ ¬ symp then false
  else if user &&& IN_SHMEM = 0 then false
  else if user &&& ON_DISC ≠ 0 ∧ nodes &&& me ≠ 0 then
    let acnds := all &&& nodes
    if me < ~~~me &&& acnds then false else true
  else false

/-! ## The network -/

abbrev Node := Fin XmemMAX_NODES

def Node.id (k : Node) : U32 := BitVec.ofNat 32 (k.val + 1)

/-- `XmemNodeId` has one bit for each node. -/
def Node.bit (k : Node) : U32 := nodeBit k.id

structure InitMessage where
  sender : Node
  data : U32
  deriving DecidableEq

structure Network where
  booted : Node → Bool := fun _ => false
  /-- the daemon has sent its request -/
  announced : Node → Bool := fun _ => false
  /-- `Wa->Nodes` -/
  nodes : Node → U32 := fun _ => 0
  /-- not yet seen by `IntrHandler()` -/
  inbox : Node → List InitMessage := fun _ => []
  /-- not yet seen by the daemon -/
  queue : Node → List InitMessage := fun _ => []

/-- A message to all nodes, the sender's own by `InterruptSelf()`. -/
def Network.broadcast (k : Node) (data : U32) (net : Network) : Network :=
  { net with
    inbox := fun j =>
      if j ≠ k ∧ net.booted j then net.inbox j ++ [⟨k, data⟩] else net.inbox j
    queue := Function.update net.queue k (net.queue k ++ [⟨k, data⟩]) }

inductive NetworkEvent
  /-- `VmicInitialize()`, with the `Reset()` of a cold start -/
  | boots (k : Node)
  | announces (k : Node)
  | handles (k : Node)
  | calls (k : Node)

def Network.ready (net : Network) : NetworkEvent → Prop
  | .boots k => net.booted k = false
  | .announces k => net.booted k = true ∧ net.announced k = false
  | .handles k => net.inbox k ≠ []
  | .calls k => net.announced k = true ∧ net.queue k ≠ []

instance (net : Network) (e : NetworkEvent) : Decidable (net.ready e) :=
  match e with
  | .boots _ => inferInstanceAs (Decidable (_ = _))
  | .announces _ => inferInstanceAs (Decidable (_ ∧ _))
  | .handles _ => inferInstanceAs (Decidable (_ ≠ _))
  | .calls _ => inferInstanceAs (Decidable (_ ∧ _))

def Network.next (net : Network) : NetworkEvent → Network
  | .boots k =>
    { net with
      booted := Function.update net.booted k true
      nodes := Function.update net.nodes k k.bit }.broadcast k k.bit
  | .announces k =>
    { net with announced := Function.update net.announced k true }.broadcast k
      XmemInitMessageRESET
  | .handles k =>
    match net.inbox k with
    | [] => net
    | m :: rest =>
      { net with
        inbox := Function.update net.inbox k rest
        nodes := Function.update net.nodes k
          (pendingInit k.id m.data m.sender.id (net.nodes k))
        queue := Function.update net.queue k (net.queue k ++ [m]) }
  | .calls k =>
    match net.queue k with
    | [] => net
    | m :: rest =>
      let net := { net with queue := Function.update net.queue k rest }
      match callbackInitialized m.data with
      | some data => net.broadcast k data
      | none => net

def network : System Network NetworkEvent where
  init net := net = {}
  step net e net' := net.ready e ∧ net' = net.next e

/-- No message is under way, and no node is in the middle of its start. -/
structure Quiet (net : Network) : Prop where
  inbox : ∀ k, net.inbox k = []
  queue : ∀ k, net.queue k = []
  announced : ∀ k, net.booted k = true → net.announced k = true

/-! ## Maps -/

section Maps

variable {k j x : Node} {m : InitMessage} {nodes : U32} {l : List InitMessage}

theorem bit_eq (k : Node) : k.bit = 1#32 <<< k.val := by
  have hk : k.val < 32 := k.isLt
  have hsub : (k.id - 1).toNat % 32 = k.val := by
    unfold Node.id
    rw [BitVec.toNat_sub, BitVec.toNat_ofNat]
    show (2 ^ 32 - 1 + (k.val + 1) % 2 ^ 32) % 2 ^ 32 % 32 = k.val
    omega
  unfold Node.bit nodeBit
  rw [hsub]
  rfl

theorem bit_getLsbD (k : Node) (j : Nat) : k.bit.getLsbD j = decide (j = k.val) := by
  rw [bit_eq]
  exact getLsbD_one_shiftLeft_of_lt k.isLt

theorem bit_inj : k.bit = j.bit ↔ k = j := by
  refine ⟨fun h => ?_, fun h => congrArg Node.bit h⟩
  have hset := bit_getLsbD j k.val
  rw [← h, bit_getLsbD, decide_eq_true rfl] at hset
  exact Fin.ext (of_decide_eq_true hset.symm)

theorem pendingInit_getLsbD {i : Nat} :
    (pendingInit k.id m.data m.sender.id nodes).getLsbD i =
      ((if m.data = 0 then nodes.getLsbD i else decide (i = k.val)) ||
        decide (i = m.sender.val)) := by
  unfold pendingInit
  split <;> rw [BitVec.getLsbD_or]
  · exact congrArg (nodes.getLsbD i || ·) (bit_getLsbD m.sender i)
  · exact congrArg₂ (· || ·) (bit_getLsbD k i) (bit_getLsbD m.sender i)

def learn (k : Node) (nodes : U32) (l : List InitMessage) : U32 :=
  l.foldl (fun nodes m => pendingInit k.id m.data m.sender.id nodes) nodes

theorem learn_append_getLsbD {i : Nat} :
    (learn k nodes (l ++ [m])).getLsbD i =
      ((if m.data = 0 then (learn k nodes l).getLsbD i else decide (i = k.val)) ||
        decide (i = m.sender.val)) := by
  unfold learn
  rw [List.foldl_append]
  exact pendingInit_getLsbD

end Maps

/-! ## The handshake -/

section Handshake

variable {net net' : Network} {e : NetworkEvent} {k a x : Node} {data : U32}

def Network.settled (net : Network) (a : Node) : U32 :=
  learn a (net.nodes a) (net.inbox a)

def Network.Finds (net : Network) (a x : Node) : Prop :=
  (net.settled a).getLsbD x = true ∨
    ∃ m ∈ net.queue x ++ net.inbox x, m.data = XmemInitMessageRESET

structure Handshake (net : Network) : Prop where
  booted : ∀ k, net.announced k = true → net.booted k = true
  own : ∀ k, net.booted k = true → (net.nodes k).getLsbD k = true
  known : ∀ k j, (net.nodes k).getLsbD j = true → ∃ x : Node, j = x.val ∧
    net.booted x = true
  inbox : ∀ k, ∀ m ∈ net.inbox k, net.booted m.sender = true ∧ net.booted k = true
  finds : (∀ k, net.booted k = true → net.announced k = true) →
    ∀ a x, net.booted a = true → net.booted x = true → x ≠ a → net.Finds a x

theorem broadcast_inbox {j : Node} : (net.broadcast k data).inbox j =
    if j ≠ k ∧ net.booted j then net.inbox j ++ [⟨k, data⟩] else net.inbox j :=
  rfl

theorem broadcast_queue {j : Node} : (net.broadcast k data).queue j =
    if j = k then net.queue j ++ [⟨k, data⟩] else net.queue j := by
  unfold Network.broadcast
  by_cases hj : j = k
  · rw [hj, if_pos rfl]
    exact Function.update_self ..
  · rw [if_neg hj]
    exact Function.update_of_ne hj ..

theorem broadcast_entries {j : Node} {m : InitMessage}
    (h : m ∈ net.queue j ++ net.inbox j) :
    m ∈ (net.broadcast k data).queue j ++ (net.broadcast k data).inbox j := by
  rw [broadcast_queue, broadcast_inbox]
  rcases List.mem_append.mp h with h | h
  · refine List.mem_append_left _ ?_
    split
    · exact List.mem_append_left _ h
    · exact h
  · refine List.mem_append_right _ ?_
    split
    · exact List.mem_append_left _ h
    · exact h

theorem broadcast_up (hk : net.booted k = true)
    (h : ∀ j, ∀ m ∈ net.inbox j, net.booted m.sender = true ∧ net.booted j = true) :
    ∀ j, ∀ m ∈ (net.broadcast k data).inbox j,
      net.booted m.sender = true ∧ net.booted j = true := by
  intro j m hm
  rw [broadcast_inbox] at hm
  split at hm
  · next hj =>
    obtain hm | hm := List.mem_append.mp hm
    · exact h j m hm
    · rw [List.mem_singleton.mp hm]
      exact ⟨hk, hj.2⟩
  · exact h j m hm

theorem broadcast_seenBy {i : Nat} (h : (net.settled a).getLsbD i = true) :
    ((net.broadcast k XmemInitMessageSEEN_BY).settled a).getLsbD i = true := by
  show (learn a (net.nodes a)
    ((net.broadcast k XmemInitMessageSEEN_BY).inbox a)).getLsbD i = true
  rw [broadcast_inbox]
  split
  · rw [learn_append_getLsbD,
      if_pos (show (⟨k, XmemInitMessageSEEN_BY⟩ : InitMessage).data = 0 from rfl)]
    change (learn a (net.nodes a) (net.inbox a)).getLsbD i = true at h
    rw [h, Bool.true_or]
  · exact h

theorem broadcast_sender (hak : a ≠ k) (ha : net.booted a = true) :
    ((net.broadcast k data).settled a).getLsbD k = true := by
  show (learn a (net.nodes a) ((net.broadcast k data).inbox a)).getLsbD k = true
  rw [broadcast_inbox, if_pos ⟨hak, ha⟩, learn_append_getLsbD, decide_eq_true rfl,
    Bool.or_true]

theorem Handshake.boots (h : Handshake net) (hnew : net.booted k = false) :
    Handshake (net.next (.boots k)) := by
  have hidle : net.announced k = false :=
    Bool.eq_false_iff.mpr fun hann => by rw [h.booted k hann] at hnew; cases hnew
  have hup : ∀ j, net.booted j = true →
      Function.update net.booted k true j = true := by
    intro j hj
    by_cases hjk : j = k
    · rw [hjk, Function.update_self]
    · rw [Function.update_of_ne hjk]
      exact hj
  have hself : Function.update net.booted k true k = true := Function.update_self ..
  refine ⟨fun j hj => hup j (h.booted j hj), fun j hj => ?_, fun j i hi => ?_, ?_,
    fun hall => ?_⟩
  · show (Function.update net.nodes k k.bit j).getLsbD j = true
    by_cases hjk : j = k
    · rw [hjk, Function.update_self, bit_getLsbD, decide_eq_true rfl]
    · rw [Function.update_of_ne hjk]
      exact h.own j ((Function.update_of_ne hjk ..).symm.trans hj)
  · change (Function.update net.nodes k k.bit j).getLsbD i = true at hi
    by_cases hjk : j = k
    · rw [hjk, Function.update_self, bit_getLsbD] at hi
      exact ⟨k, of_decide_eq_true hi, hself⟩
    · rw [Function.update_of_ne hjk] at hi
      obtain ⟨y, hy, hbooted⟩ := h.known j i hi
      exact ⟨y, hy, hup y hbooted⟩
  · exact broadcast_up hself fun j m hm =>
      ⟨hup _ (h.inbox j m hm).1, hup j (h.inbox j m hm).2⟩
  · have hann := hall k hself
    change net.announced k = true at hann
    rw [hidle] at hann
    cases hann

theorem Handshake.announces (h : Handshake net) (hk : net.booted k = true) :
    Handshake (net.next (.announces k)) := by
  refine ⟨fun j hj => ?_, h.own, h.known, broadcast_up hk h.inbox,
    fun _ b y hb hy hne => ?_⟩
  · by_cases hjk : j = k
    · exact hjk ▸ hk
    · exact h.booted j ((Function.update_of_ne hjk ..).symm.trans hj)
  · by_cases hyk : y = k
    · subst hyk
      exact .inl (broadcast_sender (Ne.symm hne) hb)
    · -- the request itself is under way to `y`
      refine .inr ⟨⟨k, XmemInitMessageRESET⟩, List.mem_append_right _ ?_, rfl⟩
      show _ ∈ (Network.broadcast k XmemInitMessageRESET _).inbox y
      rw [broadcast_inbox, if_pos ⟨hyk, hy⟩]
      exact List.mem_append_right _ List.mem_cons_self

theorem Handshake.handles (h : Handshake net) (hbox : net.inbox k ≠ []) :
    Handshake (net.next (.handles k)) := by
  obtain ⟨m, rest, hcons⟩ := List.exists_cons_of_ne_nil hbox
  dsimp only [Network.next]
  rw [hcons]
  dsimp only
  obtain ⟨hsender, hk⟩ := h.inbox k m (hcons ▸ List.mem_cons_self)
  refine ⟨h.booted, fun j hj => ?_, fun j i hi => ?_, fun j m' hm' => ?_,
    fun hall b y hb hy hne => ?_⟩
  · show (Function.update net.nodes k _ j).getLsbD j = true
    by_cases hjk : j = k
    · rw [hjk, Function.update_self, pendingInit_getLsbD, decide_eq_true rfl]
      have hown := h.own j hj
      rw [hjk] at hown
      split
      · rw [hown, Bool.true_or]
      · rfl
    · rw [Function.update_of_ne hjk]
      exact h.own j hj
  · change (Function.update net.nodes k _ j).getLsbD i = true at hi
    by_cases hjk : j = k
    · rw [hjk, Function.update_self, pendingInit_getLsbD, Bool.or_eq_true] at hi
      obtain hi | hi := hi
      · split at hi
        · exact h.known k i hi
        · exact ⟨k, of_decide_eq_true hi, hk⟩
      · exact ⟨m.sender, of_decide_eq_true hi, hsender⟩
    · rw [Function.update_of_ne hjk] at hi
      exact h.known j i hi
  · change m' ∈ Function.update net.inbox k rest j at hm'
    refine h.inbox j m' ?_
    by_cases hjk : j = k
    · rw [hjk, Function.update_self] at hm'
      rw [hjk, hcons]
      exact List.mem_cons_of_mem m hm'
    · rw [Function.update_of_ne hjk] at hm'
      exact hm'
  · refine Or.imp (fun hset => ?_) (fun hasks => ?_) (h.finds hall b y hb hy hne)
    · unfold Network.settled at hset ⊢
      dsimp only
      by_cases hbk : b = k
      · rw [hbk, Function.update_self, Function.update_self]
        rw [hbk, hcons] at hset
        exact hset
      · rw [Function.update_of_ne hbk, Function.update_of_ne hbk]
        exact hset
    · dsimp only
      by_cases hyk : y = k
      · rw [hyk, Function.update_self, Function.update_self, List.append_assoc]
        rw [hyk, hcons] at hasks
        exact hasks
      · rw [Function.update_of_ne hyk, Function.update_of_ne hyk]
        exact hasks

theorem Handshake.calls (h : Handshake net) (hk : net.announced k = true)
    (hqueue : net.queue k ≠ []) : Handshake (net.next (.calls k)) := by
  obtain ⟨m, rest, hcons⟩ := List.exists_cons_of_ne_nil hqueue
  have hbooted := h.booted k hk
  dsimp only [Network.next]
  rw [hcons]
  dsimp only
  have hrest : ∀ y, y ≠ k ∨ m.data ≠ XmemInitMessageRESET →
      (∃ m ∈ net.queue y ++ net.inbox y, m.data = XmemInitMessageRESET) →
      ∃ m ∈ Function.update net.queue k rest y ++ net.inbox y,
        m.data = XmemInitMessageRESET := by
    rintro y hy ⟨m', hm', hdata⟩
    by_cases hyk : y = k
    · rw [hyk, hcons, List.cons_append] at hm'
      obtain rfl | hm' := List.mem_cons.mp hm'
      · exact absurd hdata (hy.resolve_left (not_not.mpr hyk))
      · refine ⟨m', ?_, hdata⟩
        rw [hyk, Function.update_self]
        exact hm'
    · rw [Function.update_of_ne hyk]
      exact ⟨m', hm', hdata⟩
  unfold callbackInitialized
  by_cases hreset : m.data = XmemInitMessageRESET
  · rw [if_pos hreset]
    refine ⟨h.booted, h.own, h.known, broadcast_up hbooted h.inbox,
      fun hall b y hb hy hne => ?_⟩
    by_cases hyk : y = k
    · subst hyk
      exact .inl (broadcast_sender (Ne.symm hne) hb)
    · refine Or.imp (fun hset => broadcast_seenBy hset) (fun hasks => ?_)
        (h.finds hall b y hb hy hne)
      obtain ⟨m', hm', hdata⟩ := hrest y (.inl hyk) hasks
      exact ⟨m', broadcast_entries hm', hdata⟩
  · rw [if_neg hreset]
    exact ⟨h.booted, h.own, h.known, h.inbox, fun hall b y hb hy hne =>
      (h.finds hall b y hb hy hne).imp id (hrest y (.inr hreset))⟩

theorem network_handshake : network.Invariant Handshake where
  init hinit := by
    subst hinit
    refine ⟨fun k hk => (by cases hk), fun k hk => (by cases hk), fun k j hj => ?_,
      fun k m hm => (by cases hm), fun _ a x ha => by cases ha⟩
    rw [show (0 : U32).getLsbD j = false from BitVec.getLsbD_zero] at hj
    cases hj
  step {net net' e} h hstep := by
    obtain ⟨hready, rfl⟩ := hstep
    cases e with
    | boots k => exact h.boots hready
    | announces k => exact h.announces hready.1
    | handles k => exact h.handles hready
    | calls k => exact h.calls hready.1 hready.2

theorem quiet_nodes (hs : network.Reachable net) (hq : Quiet net)
    (ha : net.booted a = true) (x : Node) :
    (net.nodes a).getLsbD x = net.booted x := by
  have h := network_handshake.reachable hs
  rw [Bool.eq_iff_iff]
  constructor
  · intro hset
    obtain ⟨y, hxy, hy⟩ := h.known a x hset
    rw [Fin.ext hxy]
    exact hy
  · intro hx
    by_cases hxa : x = a
    · rw [hxa]
      exact h.own a ha
    · obtain hset | ⟨m, hm, -⟩ := h.finds hq.announced a x ha hx hxa
      · unfold Network.settled at hset
        rw [hq.inbox a] at hset
        exact hset
      · rw [hq.queue x, hq.inbox x] at hm
        cases hm

end Handshake

/-! ## The writer of a table -/

section Writer

variable {net : Network} {k h sender : Node} {symp : Bool}
  {tid owners user mask : U32}

/-- The daemon of `k` writes the table when it sees the update. -/
def Network.writes (net : Network) (symp : Bool) (tid owners user : U32)
    (sender k : Node) : Bool :=
  callbackTableUpdate symp k.bit tid sender.bit owners user (net.nodes k)

def Network.LiveOwner (net : Network) (owners : U32) (k : Node) : Prop :=
  net.booted k = true ∧ owners.getLsbD k = true

/-- The live owner of the highest id. -/
def Network.Highest (net : Network) (owners : U32) (h : Node) : Prop :=
  net.LiveOwner owners h ∧ ∀ k, net.LiveOwner owners k → k ≤ h

theorem bit_toNat (k : Node) : k.bit.toNat = 2 ^ k.val := by
  apply Nat.eq_of_testBit_eq
  intro i
  rw [BitVec.testBit_toNat, bit_getLsbD, Nat.testBit_two_pow]
  exact decide_eq_decide.mpr eq_comm

theorem bit_lt_iff : k.bit < ~~~k.bit &&& mask ↔
    ∃ j, k.val < j ∧ mask.getLsbD j = true := by
  have hbit : ∀ j, (~~~k.bit &&& mask).toNat.testBit j =
      (decide (j < 32) && !decide (j = k.val) && mask.getLsbD j) := by
    intro j
    rw [BitVec.testBit_toNat, BitVec.getLsbD_and, BitVec.getLsbD_not, bit_getLsbD]
  rw [BitVec.lt_def, bit_toNat]
  constructor
  · intro hlt
    obtain ⟨j, hj, hset⟩ :=
      Nat.exists_ge_and_testBit_of_ge_two_pow (Nat.le_of_lt hlt)
    rw [hbit] at hset
    simp only [Bool.and_eq_true, Bool.not_eq_true', decide_eq_false_iff_not] at hset
    exact ⟨j, by omega, hset.2⟩
  · rintro ⟨j, hj, hset⟩
    have hj' := BitVec.lt_of_getLsbD hset
    have hge : 2 ^ j ≤ (~~~k.bit &&& mask).toNat := by
      apply Nat.ge_two_pow_of_testBit
      rw [hbit, hset]
      simp [hj', show ¬ j = k.val by omega]
    have hpow : 2 ^ k.val < 2 ^ j := Nat.pow_lt_pow_right (by decide) hj
    omega

theorem writes_iff (hmap : ∀ x : Node, (net.nodes k).getLsbD x = net.booted x)
    (hk : net.booted k = true) :
    net.writes symp tid owners user sender k = true ↔
      (tid ≠ 0 ∧ sender ≠ k ∨ symp = true) ∧ user &&& IN_SHMEM ≠ 0 ∧
        user &&& ON_DISC ≠ 0 ∧ net.Highest owners k := by
  have hown : owners &&& k.bit ≠ 0 ↔ owners.getLsbD k = true := by
    rw [bit_eq, ne_eq, and_one_shiftLeft_eq_zero, Bool.not_eq_false]
  have habove : k.bit < ~~~k.bit &&& (net.nodes k &&& owners) ↔
      ∃ j : Node, net.LiveOwner owners j ∧ ¬ j ≤ k := by
    rw [bit_lt_iff]
    constructor
    · rintro ⟨j, hj, hset⟩
      rw [BitVec.getLsbD_and, Bool.and_eq_true] at hset
      have hj' := BitVec.lt_of_getLsbD hset.2
      exact ⟨⟨j, hj'⟩, ⟨(hmap ⟨j, hj'⟩).symm.trans hset.1, hset.2⟩,
        fun hle => absurd (Fin.le_def.mp hle) (Nat.not_le.mpr hj)⟩
    · rintro ⟨j, ⟨hup, howner⟩, hnot⟩
      refine ⟨j, Nat.not_le.mp fun hle => hnot (Fin.le_def.mpr hle), ?_⟩
      rw [BitVec.getLsbD_and, hmap, hup, howner]
      rfl
  unfold Network.writes callbackTableUpdate
  dsimp only
  split
  · next hskip =>
    rw [bit_inj] at hskip
    refine iff_of_false (fun h => by cases h) fun h => ?_
    obtain ⟨⟨htid, hne⟩ | hsymp, -⟩ := h
    · exact hskip.1.elim htid hne
    · exact hskip.2 hsymp
  · next hsees =>
    rw [bit_inj] at hsees
    have hsees' : tid ≠ 0 ∧ sender ≠ k ∨ symp = true := by
      by_contra hnot
      obtain ⟨hn1, hn2⟩ := not_or.mp hnot
      refine hsees ⟨?_, hn2⟩
      by_contra hn3
      exact hn1 (not_or.mp hn3)
    split
    · next hshmem => exact iff_of_false (fun h => by cases h) fun h => h.2.1 hshmem
    · next hshmem =>
      split
      · next hdisc =>
        rw [hown] at hdisc
        split
        · next hlt =>
          obtain ⟨j, hlive, hnot⟩ := habove.mp hlt
          exact iff_of_false (fun h => by cases h) fun h =>
            hnot (h.2.2.2.2 j hlive)
        · next hlt =>
          refine iff_of_true rfl ⟨hsees', hshmem, hdisc.1, ⟨hk, hdisc.2⟩,
            fun j hlive => ?_⟩
          by_contra hnot
          exact hlt (habove.mpr ⟨j, hlive, hnot⟩)
      · next hdisc =>
        refine iff_of_false (fun h => by cases h) fun h => hdisc ⟨h.2.2.1, ?_⟩
        exact hown.mpr h.2.2.2.1.2

/-- Once nothing is under way each node knows all that have started. Of the
owners of a table that is kept in shared memory and on disc the highest then
writes an update of it, and no other, if the update is not its own; nobody but
the highest ever writes. -/
theorem discovery_and_writer (hs : network.Reachable net) (hq : Quiet net) :
    (∀ a, net.booted a = true →
      ∀ x : Node, (net.nodes a).getLsbD x = net.booted x) ∧
    (∀ symp tid owners user sender h, tid ≠ 0 → user &&& IN_SHMEM ≠ 0 →
      user &&& ON_DISC ≠ 0 → net.Highest owners h → sender ≠ h ∨ symp = true →
      ∀ k, net.booted k = true →
        (net.writes symp tid owners user sender k = true ↔ k = h)) ∧
    ∀ symp tid owners user sender k, net.booted k = true →
      net.writes symp tid owners user sender k = true → net.Highest owners k := by
  refine ⟨fun a ha x => quiet_nodes hs hq ha x, fun symp tid owners user sender h
    htid hshmem hdisc hhigh hsender k hk => ?_, fun symp tid owners user sender k hk
    hwrites => ((writes_iff (quiet_nodes hs hq hk) hk).mp hwrites).2.2.2⟩
  rw [writes_iff (quiet_nodes hs hq hk) hk]
  constructor
  · rintro ⟨-, -, -, hhigh'⟩
    exact Fin.le_antisymm (hhigh.2 k hhigh'.1) (hhigh'.2 h hhigh.1)
  · rintro rfl
    exact ⟨hsender.imp (fun hne => ⟨htid, hne⟩) id, hshmem, hdisc, hhigh⟩

end Writer

/-! ## One node and two -/

def Network.Possible (net : Network) : List NetworkEvent → Prop
  | [] => True
  | e :: es => net.ready e ∧ (net.next e).Possible es

instance decidablePossible : (net : Network) → (es : List NetworkEvent) →
    Decidable (net.Possible es)
  | _, [] => inferInstanceAs (Decidable True)
  | net, e :: es =>
    @instDecidableAnd _ _ (inferInstanceAs (Decidable (net.ready e)))
      (decidablePossible (net.next e) es)

theorem Network.Possible.reachable {net : Network} {es : List NetworkEvent}
    (hs : network.Reachable net) (h : net.Possible es) :
    network.Reachable (es.foldl Network.next net) := by
  induction es generalizing net with
  | nil => exact hs
  | cons e es ih => exact ih (hs.step ⟨h.1, rfl⟩) h.2

def node1 : Node := ⟨0, by decide⟩
def node2 : Node := ⟨1, by decide⟩

def aloneEvents : List NetworkEvent :=
  [.boots node1, .announces node1, .calls node1, .calls node1, .calls node1,
    .calls node1]

def pairEvents : List NetworkEvent :=
  [.boots node1, .boots node2, .announces node1, .announces node2] ++
    List.replicate 2 (.handles node1) ++ List.replicate 1 (.handles node2) ++
    List.replicate 7 (.calls node1) ++ List.replicate 3 (.handles node2) ++
    List.replicate 8 (.calls node2) ++ List.replicate 2 (.handles node1) ++
    List.replicate 2 (.calls node1)

def alone : Network := aloneEvents.foldl Network.next {}

def pair : Network := pairEvents.foldl Network.next {}

theorem alone_quiet : network.Reachable alone ∧ Quiet alone := by
  have hgoes : ({} : Network).Possible aloneEvents := by decide +kernel
  exact ⟨hgoes.reachable (.init rfl),
    ⟨by decide +kernel, by decide +kernel, by decide +kernel⟩⟩

theorem pair_quiet : network.Reachable pair ∧ Quiet pair := by
  have hgoes : ({} : Network).Possible pairEvents := by decide +kernel
  exact ⟨hgoes.reachable (.init rfl),
    ⟨by decide +kernel, by decide +kernel, by decide +kernel⟩⟩

/-- The first of two nodes has updated a table that both own. -/
theorem discovery_and_writer_pair :
    (pair.nodes node1).getLsbD node2 = true ∧
      pair.writes false 1 3 3 node1 node2 = true ∧
      pair.writes false 1 3 3 node1 node1 = false := by
  obtain ⟨hmaps, hwriter, -⟩ :=
    discovery_and_writer pair_quiet.1 pair_quiet.2
  have hup : pair.booted node1 = true ∧ pair.booted node2 = true := by decide +kernel
  have hhigh : pair.Highest 3 node2 := by
    refine ⟨⟨hup.2, by decide⟩, fun k hk => ?_⟩
    have hlow : ∀ k : Node, (3 : U32).getLsbD k = true → k ≤ node2 := by decide
    exact hlow k hk.2
  have hwrites := hwriter false 1 3 3 node1 node2 (by decide) (by decide) (by decide)
    hhigh (.inl (by decide))
  refine ⟨(hmaps node1 hup.1 node2).trans hup.2, (hwrites node2 hup.2).mpr rfl, ?_⟩
  exact Bool.eq_false_iff.mpr fun h =>
    absurd ((hwrites node1 hup.1).mp h) (by decide)

/-- The only owner of a table has updated it itself. -/
theorem not_discovery_and_writer : ¬ ∀ net, network.Reachable net → Quiet net →
    ∀ tid owners user sender h, tid ≠ 0 → user &&& IN_SHMEM ≠ 0 →
      user &&& ON_DISC ≠ 0 → net.booted sender = true → net.Highest owners h →
      ∀ k, net.booted k = true →
        (net.writes false tid owners user sender k = true ↔ k = h) := by
  intro hall
  have hup : alone.booted node1 = true := by decide +kernel
  have hhigh : alone.Highest 1 node1 := by
    refine ⟨⟨hup, by decide⟩, fun k hk => ?_⟩
    have hlow : ∀ k : Node, (1 : U32).getLsbD k = true → k ≤ node1 := by decide
    exact hlow k hk.2
  have hwrites := (hall alone alone_quiet.1 alone_quiet.2 1 1 3 node1 node1 (by decide)
    (by decide) (by decide) hup hhigh node1 hup).mpr rfl
  exact absurd hwrites (by decide +kernel)

end Coht.XmemDrvr
