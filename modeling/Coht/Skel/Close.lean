import Coht.Lib.System
import Coht.Skel.Connections

/-!
# Closing a client (`skeldrvr.c`)

`SkelDrvrClose()` disconnects the client from everything and frees its
context. Nothing else keeps the lists of the modules free of contexts that no
longer exist, so it has to find every list the client is on. It looks for them
with the call a user disconnects with, module by module under the number of
the module, and there the number 0 means something else: the module the client
has selected.

`doClose_iff` says for which clients of which states the search is complete:
those that have the module numbered 0 selected, or are on none of its lists.
-/

namespace Coht.Skel

open Coht.Lib

variable {κ : Type} [DecidableEq κ]

/-- `client_init()` and `skel_add_ccon()`: a client starts on the first
installed module. -/
def openClient (ccon : κ) (wa : SkelDrvrWorkingArea κ) :
    SkelDrvrWorkingArea κ :=
  { wa with
    clients := ccon :: wa.clients
    moduleNumber := Function.update wa.moduleNumber ccon
      (if wa.installedModules = 0 then 0 else (wa.modules 0).moduleNumber) }

/-- `__do_close()` -/
def doClose (INTERRUPTS : Nat) (ccon : κ) (wa : SkelDrvrWorkingArea κ) :
    SkelDrvrWorkingArea κ :=
  let wa := disConnectAll INTERRUPTS ccon wa
  { wa with clients := wa.clients.erase ccon }

/-- `SkelDrvrIoctlCONNECT` -/
def ioctlConnect (INTERRUPTS : Nat) (alloc : Nat → Bool) (ccon : κ)
    (conx : SkelDrvrConnection) (wa : SkelDrvrWorkingArea κ) :
    SkelDrvrWorkingArea κ :=
  if conx.conMask ≠ 0 then
    connect INTERRUPTS alloc ccon conx wa
  else if conx.module = 0 then
    disConnectAll INTERRUPTS ccon wa
  else
    (disConnect INTERRUPTS ccon conx wa).1

inductive ClientCall (κ : Type)
  | opens (c : κ)
  | closes (c : κ)
  | selects (c : κ) (modnr : U32)
  | connects (c : κ) (conx : SkelDrvrConnection)
  | disConnects (c : κ) (conx : SkelDrvrConnection)
  /-- The ioctl, which chooses between the calls above. -/
  | ioctls (c : κ) (conx : SkelDrvrConnection)

/-- A call of an open client, or the opening of one that is not. A link may
fail to be allocated. -/
inductive CallStep (INTERRUPTS : Nat) :
    SkelDrvrWorkingArea κ → ClientCall κ → SkelDrvrWorkingArea κ → Prop
  | opens {wa : SkelDrvrWorkingArea κ} (c : κ) :
      c ∉ wa.clients → CallStep INTERRUPTS wa (.opens c) (openClient c wa)
  | closes {wa : SkelDrvrWorkingArea κ} (c : κ) :
      c ∈ wa.clients →
      CallStep INTERRUPTS wa (.closes c) (doClose INTERRUPTS c wa)
  | selects {wa : SkelDrvrWorkingArea κ} (c : κ) (modnr : U32) :
      c ∈ wa.clients →
      CallStep INTERRUPTS wa (.selects c modnr) (setModule c modnr wa)
  | connects {wa : SkelDrvrWorkingArea κ} (c : κ) (conx : SkelDrvrConnection)
      (alloc : Nat → Bool) :
      c ∈ wa.clients →
      CallStep INTERRUPTS wa (.connects c conx)
        (connect INTERRUPTS alloc c conx wa)
  | disConnects {wa : SkelDrvrWorkingArea κ} (c : κ)
      (conx : SkelDrvrConnection) :
      c ∈ wa.clients →
      CallStep INTERRUPTS wa (.disConnects c conx)
        (disConnect INTERRUPTS c conx wa).1
  | ioctls {wa : SkelDrvrWorkingArea κ} (c : κ) (conx : SkelDrvrConnection)
      (alloc : Nat → Bool) :
      c ∈ wa.clients →
      CallStep INTERRUPTS wa (.ioctls c conx)
        (ioctlConnect INTERRUPTS alloc c conx wa)

/-- Any set of modules with different numbers, and any calls of any clients. -/
def clientSystem (INTERRUPTS : Nat) (κ : Type) [DecidableEq κ] :
    System (SkelDrvrWorkingArea κ) (ClientCall κ) where
  init wa :=
    (∀ i, (wa.modules i).connected = {}) ∧ wa.clients = [] ∧
      ∀ i < wa.installedModules, ∀ k < wa.installedModules,
        (wa.modules i).moduleNumber = (wa.modules k).moduleNumber → i = k
  step := CallStep INTERRUPTS

structure Tidy (wa : SkelDrvrWorkingArea κ) : Prop where
  distinct : ∀ i < wa.installedModules, ∀ k < wa.installedModules,
    (wa.modules i).moduleNumber = (wa.modules k).moduleNumber → i = k
  clients : wa.clients.Nodup
  once : ∀ i, (wa.modules i).connected.Nodup
  /-- The mask has no bit for an interrupt past its width. -/
  width : ∀ i j, 32 ≤ j → (wa.modules i).connected.clients j = []

section Steps

variable {INTERRUPTS : Nat} {wa wa' : SkelDrvrWorkingArea κ} {c : κ}
  {conx : SkelDrvrConnection} {alloc : Nat → Bool} {imsk : U32}
  {m : SkelDrvrModConn κ}

def TidyLists (m : SkelDrvrModConn κ) : Prop :=
  m.Nodup ∧ ∀ j, 32 ≤ j → m.clients j = []

theorem connectLoop_tidy (h : TidyLists m) :
    TidyLists (connectLoop c imsk alloc INTERRUPTS m) := by
  constructor
  · intro j
    rw [connectLoop_clients]
    split
    · next hnew => exact List.nodup_cons.mpr ⟨hnew.2.2.1, h.1 j⟩
    · exact h.1 j
  · intro j hj
    rw [connectLoop_clients, if_neg]
    · exact h.2 j hj
    · rintro ⟨-, hset, -⟩
      have hlt := BitVec.lt_of_getLsbD hset
      omega

theorem disConnectLoop_tidy (h : TidyLists m) :
    TidyLists (disConnectLoop c imsk INTERRUPTS m) := by
  constructor
  · intro j
    rw [disConnectLoop_clients]
    split
    · exact (h.1 j).erase c
    · exact h.1 j
  · intro j hj
    rw [disConnectLoop_clients, h.2 j hj]
    split <;> rfl

omit [DecidableEq κ] in
theorem Tidy.lists (h : Tidy wa) (i : Nat) :
    TidyLists (wa.modules i).connected :=
  ⟨h.once i, h.width i⟩

omit [DecidableEq κ] in
theorem Tidy.same (h : Tidy wa) (hsame : SameNumbers wa wa')
    (hlists : ∀ i, TidyLists (wa'.modules i).connected) : Tidy wa' where
  distinct := by
    rw [hsame.installed]
    intro i hi k hk heq
    rw [hsame.numbers, hsame.numbers] at heq
    exact h.distinct i hi k hk heq
  clients := hsame.clients ▸ h.clients
  once i := (hlists i).1
  width i := (hlists i).2

theorem Tidy.connect (h : Tidy wa) :
    Tidy (connect INTERRUPTS alloc c conx wa) := by
  apply h.same connect_same
  intro i
  rw [connect_connected]
  split
  · exact connectLoop_tidy (h.lists i)
  · exact h.lists i

theorem Tidy.disConnect (h : Tidy wa) :
    Tidy (disConnect INTERRUPTS c conx wa).1 := by
  apply h.same disConnect_same
  intro i
  rw [disConnect_connected]
  split
  · exact disConnectLoop_tidy (h.lists i)
  · exact h.lists i

theorem Tidy.disConnectAll (h : Tidy wa) :
    Tidy (disConnectAll INTERRUPTS c wa) := by
  apply h.same (disConnectAll_same INTERRUPTS c wa)
  intro i
  rw [disConnectAll_connected (h.once i)]
  split
  · exact disConnectLoop_tidy (h.lists i)
  · exact h.lists i

theorem Tidy.step {e : ClientCall κ} (h : Tidy wa)
    (hstep : CallStep INTERRUPTS wa e wa') : Tidy wa' := by
  cases hstep with
  | opens c hnew =>
    exact ⟨h.distinct, List.nodup_cons.mpr ⟨hnew, h.clients⟩, h.once, h.width⟩
  | closes c hc =>
    have hall : Tidy (Skel.disConnectAll INTERRUPTS c wa) := h.disConnectAll
    exact ⟨hall.distinct, hall.clients.erase c, hall.once, hall.width⟩
  | selects c modnr hc =>
    unfold setModule
    split
    · exact h
    · exact ⟨h.distinct, h.clients, h.once, h.width⟩
  | connects c conx alloc hc => exact h.connect
  | disConnects c conx hc => exact h.disConnect
  | ioctls c conx alloc hc =>
    unfold ioctlConnect
    split
    · exact h.connect
    · split
      · exact h.disConnectAll
      · exact h.disConnect

theorem clientSystem_invariant :
    (clientSystem INTERRUPTS κ).Invariant Tidy where
  init {wa} hwa := by
    obtain ⟨hconn, hclients, hdistinct⟩ := hwa
    refine ⟨hdistinct, ?_, ?_, ?_⟩
    · rw [hclients]
      exact List.nodup_nil
    · intro i j
      rw [hconn]
      exact List.nodup_nil
    · intro i j hj
      rw [hconn]
  step h hstep := h.step hstep

/-- The client is on none of the lists and not among the open clients, and
every other client is connected as before. -/
structure Closed (INTERRUPTS : Nat) (c : κ) (wa wa' : SkelDrvrWorkingArea κ) :
    Prop where
  lists : ∀ i < wa'.installedModules, ∀ j < INTERRUPTS,
    c ∉ (wa'.modules i).connected.clients j
  clients : c ∉ wa'.clients
  others : ∀ d, d ≠ c →
    (d ∈ wa'.clients ↔ d ∈ wa.clients) ∧
      ∀ i j, d ∈ (wa'.modules i).connected.clients j ↔
        d ∈ (wa.modules i).connected.clients j

theorem disConnectAll_clients (h : Tidy wa) {i j : Nat} (hj : j < INTERRUPTS)
    (hi : Reached c wa wa.installedModules i) :
    c ∉ ((disConnectAll INTERRUPTS c wa).modules i).connected.clients j := by
  rw [disConnectAll_connected (h.once i), if_pos hi, disConnectLoop_clients]
  split
  · exact (h.once i j).not_mem_erase
  · next hbit =>
    have hpast : 32 ≤ j := by
      by_contra hlt
      apply hbit
      refine ⟨hj, ?_⟩
      rw [BitVec.getLsbD_not]
      simp [Nat.lt_of_not_le hlt]
    rw [h.width i j hpast]
    exact List.not_mem_nil

theorem disConnectAll_others (h : Tidy wa) {d : κ} (hd : d ≠ c) (i j : Nat) :
    d ∈ ((disConnectAll INTERRUPTS c wa).modules i).connected.clients j ↔
      d ∈ (wa.modules i).connected.clients j := by
  rw [disConnectAll_connected (h.once i)]
  split
  · rw [disConnectLoop_clients]
    split
    · exact List.mem_erase_of_ne hd
    · rfl
  · rfl

/-- A client that is closed leaves every list of every module if and only if it
is on no list of a module numbered 0, or has that module selected. -/
theorem doClose_iff (hwa : (clientSystem INTERRUPTS κ).Reachable wa)
    (hstep : CallStep INTERRUPTS wa (.closes c) wa') :
    Closed INTERRUPTS c wa wa' ↔
      ∀ i < wa.installedModules, (wa.modules i).moduleNumber = 0 →
        wa.moduleNumber c = 0 ∨
          ∀ j < INTERRUPTS, c ∉ (wa.modules i).connected.clients j := by
  have h := clientSystem_invariant.reachable hwa
  have hsame := disConnectAll_same INTERRUPTS c wa
  cases hstep
  constructor
  · intro hclosed i hi hzero
    by_cases hselected : wa.moduleNumber c = 0
    · exact .inl hselected
    · right
      intro j hj hmem
      have hgone := hclosed.lists i (hsame.installed ▸ hi) j hj
      apply hgone
      have hreached : ¬ Reached c wa wa.installedModules i := fun hr =>
        hselected ((reached_iff h.distinct hi).mp hr hzero)
      show c ∈ ((disConnectAll INTERRUPTS c wa).modules i).connected.clients j
      rw [disConnectAll_connected (h.once i), if_neg hreached]
      exact hmem
  · intro hcond
    refine ⟨?_, ?_, ?_⟩
    · intro i hi j hj
      change i < (disConnectAll INTERRUPTS c wa).installedModules at hi
      rw [hsame.installed] at hi
      show c ∉ ((disConnectAll INTERRUPTS c wa).modules i).connected.clients j
      by_cases hreached : Reached c wa wa.installedModules i
      · exact disConnectAll_clients h hj hreached
      · have hzero : (wa.modules i).moduleNumber = 0 := by
          by_contra hne
          exact hreached ((reached_iff h.distinct hi).mpr (absurd · hne))
        rw [disConnectAll_connected (h.once i), if_neg hreached]
        apply (hcond i hi hzero).resolve_left _ j hj
        intro hselected
        exact hreached ((reached_iff h.distinct hi).mpr fun _ => hselected)
    · show c ∉ (disConnectAll INTERRUPTS c wa).clients.erase c
      rw [hsame.clients]
      exact h.clients.not_mem_erase
    · intro d hd
      refine ⟨?_, disConnectAll_others h hd⟩
      show d ∈ (disConnectAll INTERRUPTS c wa).clients.erase c ↔ _
      rw [hsame.clients]
      exact List.mem_erase_of_ne hd

end Steps

/-! ## A module numbered 0

A client connects to it, selects the other module and closes. -/

/-- Two modules, the second one numbered 0. -/
def numberedZero : SkelDrvrWorkingArea Unit :=
  { installedModules := 2
    modules := fun i => { moduleNumber := if i = 0 then 1 else 0 }
    moduleNumber := fun _ => 0 }

theorem numberedZero_init : (clientSystem 32 Unit).init numberedZero := by
  refine ⟨fun _ => rfl, rfl, ?_⟩
  intro i hi k hk heq
  change i < 2 at hi
  change k < 2 at hk
  simp only [numberedZero] at heq
  split at heq <;> split at heq
  · omega
  · cases heq
  · cases heq
  · omega

/-- The client of module 0, before it selects the other module. -/
def onModuleZero : SkelDrvrWorkingArea Unit :=
  connect 32 (fun _ => true) () ⟨0, 1⟩
    (setModule () 0 (openClient () numberedZero))

theorem onModuleZero_reachable :
    (clientSystem 32 Unit).Reachable onModuleZero := by
  have hinit : (clientSystem 32 Unit).Reachable numberedZero :=
    .init numberedZero_init
  have hopen := hinit.step (CallStep.opens () List.not_mem_nil)
  have hselect := hopen.step (CallStep.selects () 0 (.head _))
  exact hselect.step (CallStep.connects () ⟨0, 1⟩ (fun _ => true) (.head _))

theorem doClose_iff_onModuleZero :
    Closed 32 () onModuleZero (doClose 32 () onModuleZero) ↔
      ∀ i < onModuleZero.installedModules,
        (onModuleZero.modules i).moduleNumber = 0 →
          onModuleZero.moduleNumber () = 0 ∨
            ∀ j < 32, () ∉ (onModuleZero.modules i).connected.clients j :=
  doClose_iff onModuleZero_reachable (.closes () (.head _))

theorem not_doClose_closed :
    ¬ ∀ wa, (clientSystem 32 Unit).Reachable wa → ∀ c wa',
      CallStep 32 wa (.closes c) wa' → Closed 32 c wa wa' := by
  intro hall
  have haway := onModuleZero_reachable.step (CallStep.selects () 1 (.head _))
  have hclosed := hall _ haway () _ (.closes () (.head _))
  exact absurd (hclosed.lists 1 (by decide) 0 (by decide)) (by decide)

end Coht.Skel
