import Coht.Lib.System
import Coht.Skel.Connections

/-!
# The mask of enabled interrupts follows the connections

A run connects and disconnects any number of clients on any number of modules,
with every link allocation succeeding. `joined` says what the calls alone say
about it: whether the last one of a client that names a bit of a module was a
`Connect()`. `MaskMatches` compares this with the lists and with the mask.

`DisConnect()` clears the whole mask of its caller once one of the lists it
leaves is empty, so a client that leaves two interrupts at once, one of them
as the last client, disables the other for those that stay. `Spares` is the
condition that rules this out, and that `DisConnectAll()` finds every module
the client is connected on.
-/

namespace Coht.Skel

open Coht.Lib

variable {κ : Type} [DecidableEq κ]

/-- A working area and who has joined what, by the calls so far. -/
structure ConnRun (κ : Type) where
  area : SkelDrvrWorkingArea κ
  joined : κ → Nat → Nat → Bool := fun _ _ _ => false

/-- A call names some bits of one module for one client. -/
def names (c : κ) (module : Option Nat) (imsk : U32) (value : Bool)
    (joined : κ → Nat → Nat → Bool) : κ → Nat → Nat → Bool :=
  fun c' i j =>
    if c' = c ∧ module = some i ∧ imsk.getLsbD j = true then value
    else joined c' i j

inductive ConnEvent (κ : Type)
  | connects (c : κ) (conx : SkelDrvrConnection)
  | disConnects (c : κ) (conx : SkelDrvrConnection)
  | disConnectsAll (c : κ)
  /-- `SkelDrvrIoctlSET_MODULE` -/
  | selects (c : κ) (modnr : U32)

/-- One call, with what it says about who has joined what. -/
def ConnRun.next (INTERRUPTS : Nat) (s : ConnRun κ) : ConnEvent κ → ConnRun κ
  | .connects c conx =>
    { area := connect INTERRUPTS (fun _ => true) c conx s.area
      joined := names c (conxModule c conx.module s.area) conx.conMask true
        s.joined }
  | .disConnects c conx =>
    { area := (disConnect INTERRUPTS c conx s.area).1
      joined := names c (conxModule c conx.module s.area)
        (disConnectMask conx.conMask) false s.joined }
  | .disConnectsAll c =>
    { area := disConnectAll INTERRUPTS c s.area
      joined := fun c' i j => if c' = c then false else s.joined c' i j }
  | .selects c modnr => { s with area := setModule c modnr s.area }

/-- Any modules, without connections, and calls of any clients in any order. -/
def connSystem (INTERRUPTS : Nat) (κ : Type) [DecidableEq κ] :
    System (ConnRun κ) (ConnEvent κ) where
  init s :=
    (∀ i, (s.area.modules i).connected = {}) ∧ s.joined = fun _ _ _ => false
  step s e s' := s' = s.next INTERRUPTS e

/-- The mask, the lists and the calls agree on one module. -/
structure MaskMatches (INTERRUPTS : Nat) (joined : κ → Nat → Bool)
    (m : SkelDrvrModConn κ) : Prop where
  enabled : ∀ j < INTERRUPTS,
    m.enabledInts.getLsbD j = true ↔ m.clients j ≠ []
  once : ∀ j, (m.clients j).Nodup
  members : ∀ j < INTERRUPTS, ∀ c, c ∈ m.clients j ↔ joined c j = true
  handed : m.handed.getD 0 = m.enabledInts

/-- Leaving the bits of a mask disables an interrupt other clients wait for:
one of the lists is left empty, and another one is not. -/
def Robs (INTERRUPTS : Nat) (c : κ) (imsk : U32) (m : SkelDrvrModConn κ) :
    Prop :=
  (∃ j < INTERRUPTS, Empties c imsk m j) ∧
    ∃ j < INTERRUPTS, imsk.getLsbD j = true ∧ ∃ d ∈ m.clients j, d ≠ c

/-- A `DisConnect()` robs nobody, and a `DisConnectAll()` robs nobody and is
not made by a client that is connected on a module numbered 0 while another
module is selected. -/
def Spares (INTERRUPTS : Nat) (s : ConnRun κ) : ConnEvent κ → Prop
  | .disConnects c conx =>
    ∀ i, conxModule c conx.module s.area = some i →
      ¬ Robs INTERRUPTS c (disConnectMask conx.conMask)
        (s.area.modules i).connected
  | .disConnectsAll c =>
    ∀ i < s.area.installedModules,
      ¬ Robs INTERRUPTS c (~~~0) (s.area.modules i).connected ∧
      ((s.area.modules i).moduleNumber = 0 → s.area.moduleNumber c = 0 ∨
        ∀ j < INTERRUPTS, c ∉ (s.area.modules i).connected.clients j)
  | .connects .. | .selects .. => True

section Module

variable {INTERRUPTS : Nat} {joined : κ → Nat → Bool} {m : SkelDrvrModConn κ}
  {c : κ} {imsk : U32}

theorem MaskMatches.connect (h : MaskMatches INTERRUPTS joined m) :
    MaskMatches INTERRUPTS
      (fun c' j => if c' = c ∧ imsk.getLsbD j = true then true else joined c' j)
      (connectLoop c imsk (fun _ => true) INTERRUPTS m) where
  enabled j hj := by
    rw [connectLoop_clients]
    obtain ⟨-, he, -⟩ | ⟨hnone, heq⟩ := connectLoop_mask c imsk
      (fun _ => true) INTERRUPTS m
    · rw [he, BitVec.getLsbD_or]
      by_cases hset : imsk.getLsbD j = true
      · by_cases hmem : c ∈ m.clients j
        · simp [hset, hmem, List.ne_nil_of_mem hmem]
        · simp [hset, hmem, hj]
      · simp [hset, h.enabled j hj]
    · rw [heq, h.enabled j hj, if_neg]
      rintro ⟨-, hset, -⟩
      exact hnone j hj ⟨hset, .inr rfl⟩
  once j := by
    rw [connectLoop_clients]
    split
    · next hnew => exact List.nodup_cons.mpr ⟨hnew.2.2.1, h.once j⟩
    · exact h.once j
  members j hj c' := by
    rw [connectLoop_clients]
    have hmem := h.members j hj c'
    by_cases hset : imsk.getLsbD j = true
    · by_cases hc : c' = c
      · subst hc
        by_cases hin : c' ∈ m.clients j <;> simp [hset, hin, hj]
      · by_cases hin : c ∈ m.clients j <;> simp [hset, hin, hj, hc, hmem]
    · simp [hset, hmem]
  handed := by
    obtain ⟨-, he, hh⟩ | ⟨-, heq⟩ := connectLoop_mask c imsk
      (fun _ => true) INTERRUPTS m
    · rw [he, hh]
      rfl
    · rw [heq]
      exact h.handed

theorem MaskMatches.disConnect (h : MaskMatches INTERRUPTS joined m)
    (hspares : ¬ Robs INTERRUPTS c imsk m) :
    MaskMatches INTERRUPTS
      (fun c' j => if c' = c ∧ imsk.getLsbD j = true then false else joined c' j)
      (disConnectLoop c imsk INTERRUPTS m) where
  enabled j hj := by
    rw [disConnectLoop_clients]
    obtain ⟨hempties, he, -⟩ | ⟨hnone, he, -⟩ := disConnectLoop_mask
      c imsk INTERRUPTS m
    · -- the whole mask goes, and nobody else is on any of its lists
      rw [he, BitVec.getLsbD_and, BitVec.getLsbD_not]
      by_cases hset : imsk.getLsbD j = true
      · have hnil : (m.clients j).erase c = [] := by
          apply List.eq_nil_iff_forall_not_mem.mpr
          intro d hd
          have hdc : d ≠ c := by
            rintro rfl
            exact (h.once j).not_mem_erase hd
          exact hspares ⟨hempties, j, hj, hset, d, List.mem_of_mem_erase hd, hdc⟩
        simp [hset, hj, hnil]
      · have hbit := h.enabled j hj
        have hlt : m.enabledInts.getLsbD j = true → j < 32 :=
          BitVec.lt_of_getLsbD
        rw [if_neg fun hin => hset hin.2, ← hbit]
        simp only [hset, Bool.and_eq_true, decide_eq_true_eq, Bool.not_false,
          and_true]
        exact ⟨fun hb => hb.1, fun hb => ⟨hb, hlt hb⟩⟩
    · -- no list is left empty that was not
      rw [he, h.enabled j hj]
      split
      · next hset =>
        constructor
        · intro hne hnil
          rw [List.erase_eq_nil_iff] at hnil
          exact hnone j hj ⟨hset.2, hnil.resolve_left hne⟩
        · intro hne hnil
          rw [hnil] at hne
          exact hne rfl
      · rfl
  once j := by
    rw [disConnectLoop_clients]
    split
    · exact (h.once j).erase c
    · exact h.once j
  members j hj c' := by
    rw [disConnectLoop_clients]
    have hmem := h.members j hj c'
    by_cases hset : imsk.getLsbD j = true
    · rw [if_pos ⟨hj, hset⟩, (h.once j).mem_erase_iff]
      by_cases hc : c' = c <;> simp [hset, hc, hmem]
    · simp [hset, hmem]
  handed := by
    obtain ⟨-, he, hh⟩ | ⟨-, he, hh⟩ := disConnectLoop_mask
      c imsk INTERRUPTS m
    · rw [he, hh]
      rfl
    · rw [he, hh]
      exact h.handed

omit [DecidableEq κ] in
theorem MaskMatches.none_past (h : MaskMatches INTERRUPTS joined m) {j : Nat}
    (hj : j < INTERRUPTS) (hpast : 32 ≤ j) : joined c j = false := by
  have hnil : m.clients j = [] := by
    by_contra hne
    have hset := (h.enabled j hj).mpr hne
    have hlt := BitVec.lt_of_getLsbD hset
    omega
  have hmem := h.members j hj c
  rw [hnil] at hmem
  simpa using hmem

omit [DecidableEq κ] in
theorem MaskMatches.congr {joined' : κ → Nat → Bool}
    (h : MaskMatches INTERRUPTS joined m)
    (heq : ∀ j < INTERRUPTS, ∀ c, joined' c j = joined c j) :
    MaskMatches INTERRUPTS joined' m where
  enabled := h.enabled
  once := h.once
  members j hj c := by
    rw [heq j hj]
    exact h.members j hj c
  handed := h.handed

theorem MaskMatches.disConnectAll (h : MaskMatches INTERRUPTS joined m)
    (hspares : ¬ Robs INTERRUPTS c (~~~0) m) :
    MaskMatches INTERRUPTS (fun c' j => if c' = c then false else joined c' j)
      (disConnectLoop c (~~~0) INTERRUPTS m) := by
  apply (h.disConnect hspares).congr
  intro j hj c'
  by_cases hc : c' = c
  · by_cases hlt : j < 32
    · have hset : (~~~(0 : U32)).getLsbD j = true := by
        rw [BitVec.getLsbD_not]
        simp [hlt]
      rw [if_pos hc, if_pos ⟨hc, hset⟩]
    · simp [hc, h.none_past hj (Nat.le_of_not_lt hlt)]
  · simp [hc]

theorem MaskMatches.absent (h : MaskMatches INTERRUPTS joined m)
    (habsent : ∀ j < INTERRUPTS, c ∉ m.clients j) :
    MaskMatches INTERRUPTS (fun c' j => if c' = c then false else joined c' j)
      m := by
  apply h.congr
  intro j hj c'
  have hmem := h.members j hj c'
  split
  · next hc =>
    subst hc
    simpa [habsent j hj] using hmem
  · rfl

end Module

section Runs

variable {INTERRUPTS : Nat} {s s' : ConnRun κ} {e : ConnEvent κ}

/-- What every spared step keeps. A module that another one hides under its
number has no connections. -/
structure AllMatch (INTERRUPTS : Nat) (s : ConnRun κ) : Prop where
  modules : ∀ i, MaskMatches INTERRUPTS (fun c j => s.joined c i j)
    (s.area.modules i).connected
  found : ∀ i c j, c ∈ (s.area.modules i).connected.clients j →
    getMcon (s.area.modules i).moduleNumber s.area = some i

theorem AllMatch.onOne {area : SkelDrvrWorkingArea κ} {c : κ} {modnr imsk : U32}
    {value : Bool} {f : SkelDrvrModConn κ → SkelDrvrModConn κ}
    (h : AllMatch INTERRUPTS s) (hsame : SameNumbers s.area area)
    (hconn : ∀ i, (area.modules i).connected =
      if conxModule c modnr s.area = some i then f (s.area.modules i).connected
        else (s.area.modules i).connected)
    (hf : ∀ i, conxModule c modnr s.area = some i →
      MaskMatches INTERRUPTS
        (fun c' j =>
          if c' = c ∧ imsk.getLsbD j = true then value else s.joined c' i j)
        (f (s.area.modules i).connected)) :
    AllMatch INTERRUPTS
      ⟨area, names c (conxModule c modnr s.area) imsk value s.joined⟩ where
  modules i := by
    show MaskMatches INTERRUPTS _ (area.modules i).connected
    rw [hconn]
    by_cases hi : conxModule c modnr s.area = some i
    · rw [if_pos hi]
      simpa only [names, hi, true_and] using hf i hi
    · rw [if_neg hi]
      simpa only [names, hi, false_and, and_false, if_false] using h.modules i
  found i c' j hmem := by
    show getMcon (area.modules i).moduleNumber area = some i
    rw [hsame.getMcon, hsame.numbers]
    change c' ∈ (area.modules i).connected.clients j at hmem
    rw [hconn] at hmem
    by_cases hi : conxModule c modnr s.area = some i
    · unfold conxModule at hi
      split at hi <;> rw [getMcon_number hi, hi]
    · rw [if_neg hi] at hmem
      exact h.found i c' j hmem

omit [DecidableEq κ] in
theorem AllMatch.unreached {c : κ} {i j : Nat} (h : AllMatch INTERRUPTS s)
    (hspares : Spares INTERRUPTS s (.disConnectsAll c)) (hj : j < INTERRUPTS)
    (hi : ¬ Reached c s.area s.area.installedModules i) :
    c ∉ (s.area.modules i).connected.clients j := by
  intro hmem
  have hfound := h.found i c j hmem
  have hlt := getMcon_lt hfound
  apply hi
  refine ⟨i, hlt, ?_⟩
  unfold conxModule
  split
  · next hzero =>
    rcases (hspares i hlt).2 hzero with hselected | habsent
    · rw [hselected, ← hzero]
      exact hfound
    · exact absurd hmem (habsent j hj)
  · exact hfound

theorem AllMatch.step (h : AllMatch INTERRUPTS s)
    (hspares : Spares INTERRUPTS s e) :
    AllMatch INTERRUPTS (s.next INTERRUPTS e) := by
  cases e with
  | connects c conx =>
    exact h.onOne connect_same (fun i => connect_connected)
      (fun i hi => (h.modules i).connect)
  | disConnects c conx =>
    exact h.onOne disConnect_same (fun i => disConnect_connected)
      (fun i hi => (h.modules i).disConnect (hspares i hi))
  | disConnectsAll c =>
    have hsame := disConnectAll_same INTERRUPTS c s.area
    constructor
    · intro i
      show MaskMatches INTERRUPTS _
        ((disConnectAll INTERRUPTS c s.area).modules i).connected
      rw [disConnectAll_connected (h.modules i).once]
      split
      · next hi =>
        obtain ⟨k, -, hk⟩ := hi
        have hlt : i < s.area.installedModules := by
          unfold conxModule at hk
          split at hk <;> exact getMcon_lt hk
        exact (h.modules i).disConnectAll (hspares i hlt).1
      · next hi =>
        exact (h.modules i).absent fun j hj => h.unreached hspares hj hi
    · intro i c' j hmem
      change c' ∈ ((disConnectAll INTERRUPTS c s.area).modules
        i).connected.clients j at hmem
      show getMcon ((disConnectAll INTERRUPTS c s.area).modules i).moduleNumber
        (disConnectAll INTERRUPTS c s.area) = some i
      rw [hsame.getMcon, hsame.numbers]
      apply h.found i c' j
      rw [disConnectAll_connected (h.modules i).once] at hmem
      split at hmem
      · rw [disConnectLoop_clients] at hmem
        split at hmem
        · exact List.mem_of_mem_erase hmem
        · exact hmem
      · exact hmem
  | selects c modnr =>
    unfold ConnRun.next setModule
    simp only []
    split
    · exact h
    · exact ⟨h.modules, h.found⟩

theorem connSystem_invariant :
    ((connSystem INTERRUPTS κ).guarded (Spares INTERRUPTS)).Invariant
      (AllMatch INTERRUPTS) where
  init {s} hs := by
    obtain ⟨hconn, hjoined⟩ := hs
    constructor
    · intro i
      rw [hconn, hjoined]
      exact ⟨by simp, by simp, by simp, rfl⟩
    · intro i c j hmem
      rw [hconn] at hmem
      cases hmem
  step h hstep := by
    obtain ⟨hspares, rfl⟩ := hstep
    exact h.step hspares

/-- In every run whose disconnections rob nobody and reach everything, on every
module the mask, the mask the hardware was given, the lists and the calls
agree. -/
theorem enable_mask_matches
    (hs : ((connSystem INTERRUPTS κ).guarded
      (Spares INTERRUPTS)).Reachable s) (i : Nat) :
    MaskMatches INTERRUPTS (fun c j => s.joined c i j)
      (s.area.modules i).connected :=
  (connSystem_invariant.reachable hs).modules i

end Runs

/-! ## Two clients on two interrupts

The first client is connected to both, the second to one of them. When the
first one leaves both at once, the interrupt of the second is disabled. -/

/-- One module, numbered 1, that both clients have selected. -/
def oneModule : ConnRun Bool :=
  { area :=
    { installedModules := 1
      modules := fun _ => { moduleNumber := 1 }
      moduleNumber := fun _ => 1 } }

def twoClients : ConnRun Bool :=
  (oneModule.next 32 (.connects false ⟨1, 3⟩)).next 32 (.connects true ⟨1, 2⟩)

theorem enable_mask_matches_twoClients :
    MaskMatches 32 (fun c j => twoClients.joined c 0 j)
      (twoClients.area.modules 0).connected := by
  have hinit : ((connSystem 32 Bool).guarded (Spares 32)).Reachable oneModule :=
    .init ⟨fun _ => rfl, rfl⟩
  have hspares : ∀ (s : ConnRun Bool) c conx,
      Spares 32 s (.connects c conx) :=
    fun _ _ _ => trivial
  have hfirst := hinit.step ⟨hspares _ false ⟨1, 3⟩, rfl⟩
  have hsecond := hfirst.step ⟨hspares _ true ⟨1, 2⟩, rfl⟩
  exact enable_mask_matches hsecond 0

theorem not_enable_mask_matches :
    ¬ ∀ s, (connSystem 32 Bool).Reachable s →
      ∀ i, MaskMatches 32 (fun c j => s.joined c i j)
        (s.area.modules i).connected := by
  intro hall
  have hinit : (connSystem 32 Bool).Reachable oneModule :=
    .init ⟨fun _ => rfl, rfl⟩
  have hboth : (connSystem 32 Bool).Reachable twoClients :=
    (hinit.step rfl).step rfl
  have hleft := hboth.step (e := .disConnects false ⟨1, 3⟩) rfl
  have hmask := (hall _ hleft 0).enabled 1 (by decide)
  exact absurd hmask (by decide)

end Coht.Skel
