import Coht.Skel.Queue

/-!
# Clients and the interrupts they are connected to (`skeldrvr.c`)

Every installed module has one list of clients for each of its interrupts and
a mask of the interrupts that are enabled. `Connect()` and `DisConnect()` take
a module number and a mask. Module number 0 stands for the module the client
has selected, an empty mask stands for every interrupt, and both walk the
lists bit by bit: an interrupt is enabled when a client is put on its list and
disabled when the last client leaves it.

The spec lemmas below say what a whole walk does to each list and to the mask.
The mask is where the two differ from a walk that minds its bit: both apply
the whole mask of the caller as soon as one of the bits asks for it.
-/

namespace Coht.Skel

/-- `SkelDrvrModConn`, with the mask `SkelUserEnableInterrupts()` was last
called with. -/
structure SkelDrvrModConn (κ : Type) where
  clients : Nat → List κ := fun _ => []
  enabledInts : U32 := 0
  handed : Option U32 := none

structure SkelDrvrModuleContext (κ : Type) where
  moduleNumber : U32 := 0
  connected : SkelDrvrModConn κ := {}

/-- `SkelDrvrWorkingArea` with the client contexts, of which only the selected
module is needed here. -/
structure SkelDrvrWorkingArea (κ : Type) where
  installedModules : Nat
  modules : Nat → SkelDrvrModuleContext κ
  clients : List κ := []
  moduleNumber : κ → U32

section Functions

variable {κ : Type} [DecidableEq κ]

/-- `SkelUserEnableInterrupts()` of the new `enabled_ints`. -/
def enableInterrupts (mask : U32) (connected : SkelDrvrModConn κ) :
    SkelDrvrModConn κ :=
  { connected with enabledInts := mask, handed := some mask }

def SkelDrvrModConn.setClients (j : Nat) (list : List κ)
    (connected : SkelDrvrModConn κ) : SkelDrvrModConn κ :=
  { connected with clients := Function.update connected.clients j list }

/-- The body of the loop in `Connect()`; `alloc` says whether the link for
this bit could be allocated. -/
def connectBit (ccon : κ) (imsk : U32) (alloc : Nat → Bool) (j : Nat)
    (connected : SkelDrvrModConn κ) : SkelDrvrModConn κ :=
  if imsk.getLsbD j = false then
    connected
  else if ccon ∈ connected.clients j then
    enableInterrupts (connected.enabledInts ||| imsk) connected
  else if alloc j then
    enableInterrupts (connected.enabledInts ||| imsk)
      (connected.setClients j (ccon :: connected.clients j))
  else
    connected

/-- The body of the loop in `DisConnect()`. -/
def disConnectBit (ccon : κ) (imsk : U32) (j : Nat)
    (connected : SkelDrvrModConn κ) : SkelDrvrModConn κ :=
  if imsk.getLsbD j = false ∨ ccon ∉ connected.clients j then
    connected
  else
    let connected := connected.setClients j ((connected.clients j).erase ccon)
    if connected.clients j = [] then
      enableInterrupts (connected.enabledInts &&& ~~~imsk) connected
    else
      connected

def connectLoop (ccon : κ) (imsk : U32) (alloc : Nat → Bool) :
    Nat → SkelDrvrModConn κ → SkelDrvrModConn κ
  | 0, connected => connected
  | j + 1, connected =>
    connectBit ccon imsk alloc j (connectLoop ccon imsk alloc j connected)

def disConnectLoop (ccon : κ) (imsk : U32) :
    Nat → SkelDrvrModConn κ → SkelDrvrModConn κ
  | 0, connected => connected
  | j + 1, connected =>
    disConnectBit ccon imsk j (disConnectLoop ccon imsk j connected)

/-- `get_mcon()` -/
def getMcon (modnr : U32) (wa : SkelDrvrWorkingArea κ) : Option Nat :=
  (List.range wa.installedModules).find? fun i =>
    (wa.modules i).moduleNumber == modnr

/-- The module that the number in a connection stands for. -/
def conxModule (ccon : κ) (modnr : U32) (wa : SkelDrvrWorkingArea κ) :
    Option Nat :=
  if modnr = 0 then getMcon (wa.moduleNumber ccon) wa else getMcon modnr wa

def SkelDrvrWorkingArea.onModule (i : Nat)
    (f : SkelDrvrModConn κ → SkelDrvrModConn κ) (wa : SkelDrvrWorkingArea κ) :
    SkelDrvrWorkingArea κ :=
  { wa with
    modules := Function.update wa.modules i
      { wa.modules i with connected := f (wa.modules i).connected } }

variable (INTERRUPTS : Nat)

/-- `Connect()` -/
def connect (alloc : Nat → Bool) (ccon : κ) (conx : SkelDrvrConnection)
    (wa : SkelDrvrWorkingArea κ) : SkelDrvrWorkingArea κ :=
  match conxModule ccon conx.module wa with
  | none => wa
  | some i => wa.onModule i (connectLoop ccon conx.conMask alloc INTERRUPTS)

/-- The mask `DisConnect()` works with. -/
def disConnectMask (conMask : U32) : U32 :=
  if conMask = 0 then ~~~conMask else conMask

/-- `DisConnect()`, which also writes the mask it used back to its caller. -/
def disConnect (ccon : κ) (conx : SkelDrvrConnection)
    (wa : SkelDrvrWorkingArea κ) :
    SkelDrvrWorkingArea κ × SkelDrvrConnection :=
  match conxModule ccon conx.module wa with
  | none => (wa, conx)
  | some i =>
    let imsk := disConnectMask conx.conMask
    (wa.onModule i (disConnectLoop ccon imsk INTERRUPTS),
      { conx with conMask := imsk })

/-- The loop of `DisConnectAll()` over the first `n` modules. -/
def disConnectAllLoop (ccon : κ) :
    Nat → SkelDrvrWorkingArea κ × SkelDrvrConnection →
      SkelDrvrWorkingArea κ × SkelDrvrConnection
  | 0, s => s
  | i + 1, s =>
    let (wa, conx) := disConnectAllLoop ccon i s
    disConnect INTERRUPTS ccon
      { conx with module := (wa.modules i).moduleNumber } wa

/-- `DisConnectAll()` -/
def disConnectAll (ccon : κ) (wa : SkelDrvrWorkingArea κ) :
    SkelDrvrWorkingArea κ :=
  (disConnectAllLoop INTERRUPTS ccon wa.installedModules (wa, {})).1

/-- `SkelDrvrIoctlSET_MODULE`, which refuses a module that does not exist. -/
def setModule (c : κ) (modnr : U32) (wa : SkelDrvrWorkingArea κ) :
    SkelDrvrWorkingArea κ :=
  match getMcon modnr wa with
  | none => wa
  | some _ =>
    { wa with moduleNumber := Function.update wa.moduleNumber c modnr }

end Functions

/-! ## What the walks do to one module -/

section Walks

variable {κ : Type} [DecidableEq κ] {ccon : κ} {imsk : U32} {alloc : Nat → Bool}
  {connected : SkelDrvrModConn κ} {j k n : Nat}

theorem connectBit_clients :
    (connectBit ccon imsk alloc j connected).clients k =
      if k = j ∧ imsk.getLsbD k = true ∧ ccon ∉ connected.clients k ∧
          alloc k = true
        then ccon :: connected.clients k else connected.clients k := by
  unfold connectBit
  split
  · next hbit =>
    rw [if_neg]
    rintro ⟨rfl, hset, -⟩
    rw [hbit] at hset
    cases hset
  · next hbit =>
    split
    · next hmem =>
      rw [if_neg]
      · rfl
      · rintro ⟨rfl, -, hnot, -⟩
        exact hnot hmem
    · next hmem =>
      split
      · next halloc =>
        show Function.update connected.clients j _ k = _
        by_cases hkj : k = j
        · subst hkj
          rw [Function.update_self, if_pos]
          exact ⟨rfl, Bool.not_eq_false _ ▸ hbit, hmem, halloc⟩
        · rw [Function.update_of_ne hkj, if_neg]
          rintro ⟨heq, -⟩
          exact hkj heq
      · next halloc =>
        rw [if_neg]
        rintro ⟨rfl, -, -, hok⟩
        exact halloc hok

theorem connectLoop_clients :
    (connectLoop ccon imsk alloc n connected).clients k =
      if k < n ∧ imsk.getLsbD k = true ∧ ccon ∉ connected.clients k ∧
          alloc k = true
        then ccon :: connected.clients k else connected.clients k := by
  induction n with
  | zero => simp [connectLoop]
  | succ n ih =>
    rw [connectLoop, connectBit_clients, ih]
    by_cases hkn : k = n
    · subst hkn
      simp
    · have hlt : k < n + 1 ↔ k < n := by omega
      simp [hkn, hlt]

/-- A connection that was made before counts like a link that was
allocated. -/
def Joins (ccon : κ) (imsk : U32) (alloc : Nat → Bool)
    (connected : SkelDrvrModConn κ) (j : Nat) : Prop :=
  imsk.getLsbD j = true ∧ (ccon ∈ connected.clients j ∨ alloc j = true)

theorem connectBit_mask (ccon : κ) (imsk : U32) (alloc : Nat → Bool) (j : Nat)
    (connected : SkelDrvrModConn κ) :
    Joins ccon imsk alloc connected j ∧
        (connectBit ccon imsk alloc j connected).enabledInts =
          connected.enabledInts ||| imsk ∧
        (connectBit ccon imsk alloc j connected).handed =
          some (connected.enabledInts ||| imsk) ∨
      ¬ Joins ccon imsk alloc connected j ∧
        connectBit ccon imsk alloc j connected = connected := by
  unfold connectBit Joins
  split
  · next hbit =>
    refine .inr ⟨?_, rfl⟩
    rintro ⟨hset, -⟩
    rw [hbit] at hset
    cases hset
  · next hbit =>
    have hset : imsk.getLsbD j = true := Bool.not_eq_false _ ▸ hbit
    split
    · next hmem => exact .inl ⟨⟨hset, .inl hmem⟩, rfl, rfl⟩
    · next hmem =>
      split
      · next halloc => exact .inl ⟨⟨hset, .inr halloc⟩, rfl, rfl⟩
      · next halloc =>
        refine .inr ⟨?_, rfl⟩
        rintro ⟨-, hmem' | halloc'⟩
        · exact hmem hmem'
        · exact halloc halloc'

theorem connectLoop_mask (ccon : κ) (imsk : U32) (alloc : Nat → Bool) (n : Nat)
    (connected : SkelDrvrModConn κ) :
    (∃ j < n, Joins ccon imsk alloc connected j) ∧
        (connectLoop ccon imsk alloc n connected).enabledInts =
          connected.enabledInts ||| imsk ∧
        (connectLoop ccon imsk alloc n connected).handed =
          some (connected.enabledInts ||| imsk) ∨
      (∀ j < n, ¬ Joins ccon imsk alloc connected j) ∧
        connectLoop ccon imsk alloc n connected = connected := by
  induction n with
  | zero => exact .inr ⟨fun j hj => absurd hj (Nat.not_lt_zero j), rfl⟩
  | succ n ih =>
    rw [connectLoop]
    have hsame : Joins ccon imsk alloc
        (connectLoop ccon imsk alloc n connected) n ↔
          Joins ccon imsk alloc connected n := by
      unfold Joins
      rw [connectLoop_clients, if_neg (by omega)]
    obtain ⟨hn, he, hh⟩ | ⟨hn, heq⟩ := connectBit_mask ccon imsk alloc n
      (connectLoop ccon imsk alloc n connected)
    · refine .inl ⟨⟨n, Nat.lt_succ_self n, hsame.mp hn⟩, ?_⟩
      rw [he, hh]
      obtain ⟨-, hle, -⟩ | ⟨-, hle⟩ := ih
      · rw [hle, BitVec.or_assoc, BitVec.or_self]
        exact ⟨rfl, rfl⟩
      · rw [hle]
        exact ⟨rfl, rfl⟩
    · rw [heq]
      obtain ⟨⟨j, hj, hjoin⟩, hle⟩ | ⟨hnone, hle⟩ := ih
      · exact .inl ⟨⟨j, Nat.lt_succ_of_lt hj, hjoin⟩, hle⟩
      · refine .inr ⟨?_, hle⟩
        intro j hj
        rcases Nat.lt_succ_iff_lt_or_eq.mp hj with hlt | rfl
        · exact hnone j hlt
        · exact fun hjoin => hn (hsame.mpr hjoin)

theorem disConnectBit_clients :
    (disConnectBit ccon imsk j connected).clients k =
      if k = j ∧ imsk.getLsbD k = true
        then (connected.clients k).erase ccon else connected.clients k := by
  unfold disConnectBit
  split
  · next hskip =>
    split
    · next hkj =>
      obtain ⟨rfl, hset⟩ := hkj
      rw [hset] at hskip
      rw [List.erase_of_not_mem (hskip.resolve_left Bool.noConfusion)]
    · rfl
  · next hact =>
    have hset : imsk.getLsbD j = true := by
      by_contra hbit
      exact hact (.inl (Bool.not_eq_true _ ▸ hbit))
    have hlists : Function.update connected.clients j
        ((connected.clients j).erase ccon) k =
          if k = j ∧ imsk.getLsbD k = true
            then (connected.clients k).erase ccon
            else connected.clients k := by
      by_cases hkj : k = j
      · subst hkj
        rw [Function.update_self, if_pos ⟨rfl, hset⟩]
      · rw [Function.update_of_ne hkj, if_neg fun h => hkj h.1]
    simp only []
    split
    · exact hlists
    · exact hlists

theorem disConnectLoop_clients :
    (disConnectLoop ccon imsk n connected).clients k =
      if k < n ∧ imsk.getLsbD k = true
        then (connected.clients k).erase ccon else connected.clients k := by
  induction n with
  | zero => simp [disConnectLoop]
  | succ n ih =>
    rw [disConnectLoop, disConnectBit_clients, ih]
    by_cases hkn : k = n
    · subst hkn
      simp
    · have hlt : k < n + 1 ↔ k < n := by omega
      simp [hkn, hlt]

/-- The client is the last one on the list of a bit it leaves. -/
def Empties (ccon : κ) (imsk : U32) (connected : SkelDrvrModConn κ)
    (j : Nat) : Prop :=
  imsk.getLsbD j = true ∧ connected.clients j = [ccon]

theorem disConnectBit_mask (ccon : κ) (imsk : U32) (j : Nat)
    (connected : SkelDrvrModConn κ) :
    Empties ccon imsk connected j ∧
        (disConnectBit ccon imsk j connected).enabledInts =
          connected.enabledInts &&& ~~~imsk ∧
        (disConnectBit ccon imsk j connected).handed =
          some (connected.enabledInts &&& ~~~imsk) ∨
      ¬ Empties ccon imsk connected j ∧
        (disConnectBit ccon imsk j connected).enabledInts =
          connected.enabledInts ∧
        (disConnectBit ccon imsk j connected).handed = connected.handed := by
  unfold disConnectBit Empties
  split
  · next hskip =>
    refine .inr ⟨?_, rfl, rfl⟩
    rintro ⟨hset, hlist⟩
    rw [hset, hlist] at hskip
    simp at hskip
  · next hact =>
    have hset : imsk.getLsbD j = true := by
      by_contra hbit
      exact hact (.inl (Bool.not_eq_true _ ▸ hbit))
    have hmem : ccon ∈ connected.clients j := by
      by_contra hnot
      exact hact (.inr hnot)
    have hlist : (connected.setClients j
        ((connected.clients j).erase ccon)).clients j =
          (connected.clients j).erase ccon := Function.update_self ..
    simp only [hlist]
    split
    · next hnil =>
      refine .inl ⟨⟨hset, ?_⟩, rfl, rfl⟩
      rw [List.erase_eq_nil_iff] at hnil
      exact hnil.resolve_left (List.ne_nil_of_mem hmem)
    · next hcons =>
      refine .inr ⟨?_, rfl, rfl⟩
      rintro ⟨-, hone⟩
      rw [hone] at hcons
      simp at hcons

theorem disConnectLoop_mask (ccon : κ) (imsk : U32) (n : Nat)
    (connected : SkelDrvrModConn κ) :
    (∃ j < n, Empties ccon imsk connected j) ∧
        (disConnectLoop ccon imsk n connected).enabledInts =
          connected.enabledInts &&& ~~~imsk ∧
        (disConnectLoop ccon imsk n connected).handed =
          some (connected.enabledInts &&& ~~~imsk) ∨
      (∀ j < n, ¬ Empties ccon imsk connected j) ∧
        (disConnectLoop ccon imsk n connected).enabledInts =
          connected.enabledInts ∧
        (disConnectLoop ccon imsk n connected).handed = connected.handed := by
  induction n with
  | zero => exact .inr ⟨fun j hj => absurd hj (Nat.not_lt_zero j), rfl, rfl⟩
  | succ n ih =>
    rw [disConnectLoop]
    have hsame : Empties ccon imsk (disConnectLoop ccon imsk n connected) n ↔
        Empties ccon imsk connected n := by
      unfold Empties
      rw [disConnectLoop_clients, if_neg (by omega)]
    obtain ⟨hn, he, hh⟩ | ⟨hn, he, hh⟩ := disConnectBit_mask ccon imsk n
      (disConnectLoop ccon imsk n connected)
    · refine .inl ⟨⟨n, Nat.lt_succ_self n, hsame.mp hn⟩, ?_⟩
      rw [he, hh]
      obtain ⟨-, hle, -⟩ | ⟨-, hle, -⟩ := ih
      · rw [hle, BitVec.and_assoc, BitVec.and_self]
        exact ⟨rfl, rfl⟩
      · rw [hle]
        exact ⟨rfl, rfl⟩
    · rw [he, hh]
      obtain ⟨⟨j, hj, hempty⟩, hle⟩ | ⟨hnone, hle⟩ := ih
      · exact .inl ⟨⟨j, Nat.lt_succ_of_lt hj, hempty⟩, hle⟩
      · refine .inr ⟨?_, hle⟩
        intro j hj
        rcases Nat.lt_succ_iff_lt_or_eq.mp hj with hlt | rfl
        · exact hnone j hlt
        · exact fun hempty => hn (hsame.mpr hempty)

theorem disConnectLoop_absent
    (h : ∀ j < n, imsk.getLsbD j = true → ccon ∉ connected.clients j) :
    disConnectLoop ccon imsk n connected = connected := by
  induction n with
  | zero => rfl
  | succ n ih =>
    rw [disConnectLoop, ih fun j hj => h j (Nat.lt_succ_of_lt hj)]
    unfold disConnectBit
    rw [if_pos]
    by_cases hset : imsk.getLsbD n = true
    · exact .inr (h n (Nat.lt_succ_self n) hset)
    · exact .inl (Bool.not_eq_true _ ▸ hset)

end Walks

/-! ## What the calls do to the working area

None of the calls renumbers anything, so they all find the modules they would
have found before. -/

section Area

variable {κ : Type} {wa wa' : SkelDrvrWorkingArea κ} {ccon : κ}
  {conx : SkelDrvrConnection} {modnr : U32} {i k : Nat}

structure SameNumbers (wa wa' : SkelDrvrWorkingArea κ) : Prop where
  installed : wa'.installedModules = wa.installedModules
  numbers : ∀ k, (wa'.modules k).moduleNumber = (wa.modules k).moduleNumber
  selected : wa'.moduleNumber = wa.moduleNumber
  clients : wa'.clients = wa.clients

theorem SameNumbers.refl (wa : SkelDrvrWorkingArea κ) : SameNumbers wa wa :=
  ⟨rfl, fun _ => rfl, rfl, rfl⟩

theorem SameNumbers.trans {wa₁ wa₂ wa₃ : SkelDrvrWorkingArea κ}
    (h : SameNumbers wa₁ wa₂) (h' : SameNumbers wa₂ wa₃) :
    SameNumbers wa₁ wa₃ where
  installed := h'.installed.trans h.installed
  numbers k := (h'.numbers k).trans (h.numbers k)
  selected := h'.selected.trans h.selected
  clients := h'.clients.trans h.clients

theorem getMcon_lt (h : getMcon modnr wa = some i) :
    i < wa.installedModules :=
  List.mem_range.mp (List.mem_of_find?_eq_some h)

theorem getMcon_number (h : getMcon modnr wa = some i) :
    (wa.modules i).moduleNumber = modnr := by
  have hfound := List.find?_some h
  exact eq_of_beq hfound

theorem getMcon_self
    (hdistinct : ∀ i < wa.installedModules, ∀ k < wa.installedModules,
      (wa.modules i).moduleNumber = (wa.modules k).moduleNumber → i = k)
    (hi : i < wa.installedModules) :
    getMcon (wa.modules i).moduleNumber wa = some i := by
  cases hfound : getMcon (wa.modules i).moduleNumber wa with
  | none =>
    have hnone := List.find?_eq_none.mp hfound i (List.mem_range.mpr hi)
    simp at hnone
  | some k =>
    have hk := hdistinct k (getMcon_lt hfound) i hi (getMcon_number hfound)
    rw [hk]

theorem SameNumbers.getMcon (h : SameNumbers wa wa') :
    getMcon modnr wa' = getMcon modnr wa := by
  unfold Coht.Skel.getMcon
  rw [h.installed]
  congr 1
  funext i
  rw [h.numbers]

theorem SameNumbers.conxModule (h : SameNumbers wa wa') :
    conxModule ccon modnr wa' = conxModule ccon modnr wa := by
  unfold Coht.Skel.conxModule
  rw [h.selected, h.getMcon, h.getMcon]

theorem onModule_same {f : SkelDrvrModConn κ → SkelDrvrModConn κ} :
    SameNumbers wa (wa.onModule i f) where
  installed := rfl
  numbers k := by
    show (Function.update wa.modules i _ k).moduleNumber = _
    by_cases hki : k = i
    · subst hki
      rw [Function.update_self]
    · rw [Function.update_of_ne hki]
  selected := rfl
  clients := rfl

theorem onModule_connected {f : SkelDrvrModConn κ → SkelDrvrModConn κ} :
    ((wa.onModule i f).modules k).connected =
      if i = k then f (wa.modules k).connected
        else (wa.modules k).connected := by
  show (Function.update wa.modules i _ k).connected = _
  by_cases hik : i = k
  · subst hik
    rw [Function.update_self, if_pos rfl]
  · rw [Function.update_of_ne (Ne.symm hik), if_neg hik]

/-- Some installed module has a number under which `DisConnect()` finds module
`k` for this client. -/
def Reached (ccon : κ) (wa : SkelDrvrWorkingArea κ) (n k : Nat) : Prop :=
  ∃ i < n, conxModule ccon (wa.modules i).moduleNumber wa = some k

theorem reached_iff
    (hdistinct : ∀ i < wa.installedModules, ∀ k < wa.installedModules,
      (wa.modules i).moduleNumber = (wa.modules k).moduleNumber → i = k)
    (hk : k < wa.installedModules) :
    Reached ccon wa wa.installedModules k ↔
      ((wa.modules k).moduleNumber = 0 → wa.moduleNumber ccon = 0) := by
  constructor
  · rintro ⟨i, hi, hfound⟩ hzero
    unfold conxModule at hfound
    split at hfound
    · rw [← getMcon_number hfound, hzero]
    · next hnum =>
      have hnumber := getMcon_number hfound
      rw [hzero] at hnumber
      exact absurd hnumber.symm hnum
  · intro hzero
    refine ⟨k, hk, ?_⟩
    unfold conxModule
    split
    · next hnum =>
      rw [hzero hnum, ← hnum]
      exact getMcon_self hdistinct hk
    · exact getMcon_self hdistinct hk

variable [DecidableEq κ] {INTERRUPTS : Nat} {alloc : Nat → Bool}

theorem connect_same :
    SameNumbers wa (connect INTERRUPTS alloc ccon conx wa) := by
  unfold connect
  split
  · exact .refl wa
  · exact onModule_same

theorem connect_connected :
    ((connect INTERRUPTS alloc ccon conx wa).modules k).connected =
      if conxModule ccon conx.module wa = some k
        then connectLoop ccon conx.conMask alloc INTERRUPTS
          (wa.modules k).connected
        else (wa.modules k).connected := by
  unfold connect
  split
  · next hnone => simp only [hnone, reduceCtorEq, if_false]
  · next i hsome => simp only [hsome, onModule_connected, Option.some.injEq]

theorem disConnect_same :
    SameNumbers wa (disConnect INTERRUPTS ccon conx wa).1 := by
  unfold disConnect
  split
  · exact .refl wa
  · exact onModule_same

theorem disConnect_connected :
    ((disConnect INTERRUPTS ccon conx wa).1.modules k).connected =
      if conxModule ccon conx.module wa = some k
        then disConnectLoop ccon (disConnectMask conx.conMask) INTERRUPTS
          (wa.modules k).connected
        else (wa.modules k).connected := by
  unfold disConnect
  split
  · next hnone => simp only [hnone, reduceCtorEq, if_false]
  · next i hsome => simp only [hsome, onModule_connected, Option.some.injEq]

theorem disConnect_mask :
    disConnectMask (disConnect INTERRUPTS ccon conx wa).2.conMask =
      disConnectMask conx.conMask := by
  unfold disConnect
  split
  · rfl
  · show disConnectMask (disConnectMask conx.conMask) = _
    unfold disConnectMask
    split
    · next hzero =>
      rw [hzero]
      rfl
    · rfl

theorem disConnectAllLoop_mask (INTERRUPTS : Nat) (ccon : κ)
    (wa : SkelDrvrWorkingArea κ) (n : Nat) :
    disConnectMask
      (disConnectAllLoop INTERRUPTS ccon n (wa, {})).2.conMask = ~~~0 := by
  induction n with
  | zero => rfl
  | succ n ih =>
    rw [disConnectAllLoop, disConnect_mask]
    exact ih

theorem disConnectAllLoop_same (INTERRUPTS : Nat) (ccon : κ)
    (wa : SkelDrvrWorkingArea κ) (n : Nat) :
    SameNumbers wa (disConnectAllLoop INTERRUPTS ccon n (wa, {})).1 := by
  induction n with
  | zero => exact .refl wa
  | succ n ih =>
    rw [disConnectAllLoop]
    exact ih.trans disConnect_same

def SkelDrvrModConn.Nodup (connected : SkelDrvrModConn κ) : Prop :=
  ∀ j, (connected.clients j).Nodup

open Classical in
theorem disConnectAllLoop_connected (n : Nat)
    (hnodup : (wa.modules k).connected.Nodup) :
    ((disConnectAllLoop INTERRUPTS ccon n (wa, {})).1.modules k).connected =
      if Reached ccon wa n k
        then disConnectLoop ccon (~~~0) INTERRUPTS (wa.modules k).connected
        else (wa.modules k).connected := by
  induction n with
  | zero =>
    rw [if_neg]
    · rfl
    · rintro ⟨i, hi, -⟩
      exact absurd hi (Nat.not_lt_zero i)
  | succ n ih =>
    have hsame := disConnectAllLoop_same INTERRUPTS ccon wa n
    have hmask := disConnectAllLoop_mask INTERRUPTS ccon wa n
    rw [disConnectAllLoop, disConnect_connected, hmask, hsame.conxModule,
      hsame.numbers, ih]
    by_cases hthis :
        conxModule ccon (wa.modules n).moduleNumber wa = some k
    · have hreached : Reached ccon wa (n + 1) k :=
        ⟨n, Nat.lt_succ_self n, hthis⟩
      rw [if_pos hthis, if_pos hreached]
      split
      · -- the client has left this module's lists before
        apply disConnectLoop_absent
        intro j hj hset hmem
        rw [disConnectLoop_clients, if_pos ⟨hj, hset⟩] at hmem
        exact (hnodup j).not_mem_erase hmem
      · rfl
    · rw [if_neg hthis]
      have hiff : Reached ccon wa (n + 1) k ↔ Reached ccon wa n k := by
        constructor
        · rintro ⟨i, hi, hfound⟩
          rcases Nat.lt_succ_iff_lt_or_eq.mp hi with hlt | rfl
          · exact ⟨i, hlt, hfound⟩
          · exact absurd hfound hthis
        · rintro ⟨i, hi, hfound⟩
          exact ⟨i, Nat.lt_succ_of_lt hi, hfound⟩
      simp only [hiff]

theorem disConnectAll_same (INTERRUPTS : Nat) (ccon : κ)
    (wa : SkelDrvrWorkingArea κ) :
    SameNumbers wa (disConnectAll INTERRUPTS ccon wa) :=
  disConnectAllLoop_same INTERRUPTS ccon wa wa.installedModules

open Classical in
theorem disConnectAll_connected (hnodup : (wa.modules k).connected.Nodup) :
    ((disConnectAll INTERRUPTS ccon wa).modules k).connected =
      if Reached ccon wa wa.installedModules k
        then disConnectLoop ccon (~~~0) INTERRUPTS (wa.modules k).connected
        else (wa.modules k).connected :=
  disConnectAllLoop_connected _ hnodup

end Area

end Coht.Skel
