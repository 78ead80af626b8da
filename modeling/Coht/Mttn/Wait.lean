import Coht.Skel.Close

/-!
# Waiting for interrupts (`libmtt.c`, `skeldrvr.c`)

The library keeps three values it has told the driver: the interrupts its
client is connected to, whether the client's queue is off, and the timeout of
its reads. `MttLibWait()` compares its arguments with the copies and calls the
driver where they differ. `MttLibInit()` closes the file and opens it again,
which gives it a new client, and leaves the copies as they are.

The copies and the client start apart, 200 against a timeout of 2000, and the
call that is to set the timeout passes the copy and not the argument. So the
first read of every program has the wrong timeout (`Untouched.noRead`), and
after it a read is right when the copies happen to be (`callMirrored_iff`).
-/

namespace Coht.Mttn

open Coht.Lib Coht.Skel

def INTERRUPTS : Nat := 32

def DEFAULT_CLIENT_TIMEOUT : U32 := 2000

def IntPPS : U32 := 0x1000000

def StatusUTC_SET : U32 := 0x02

/-- The driver with the fields of its clients that a read depends on, and the
static variables of the library. -/
structure Library (κ : Type) where
  wa : SkelDrvrWorkingArea κ
  cconTimeout : κ → U32
  queueOff : κ → Bool
  mtt : Option κ := none
  connected : U32 := 0
  noqueueflag : U32 := 0
  timeout : U32 := 200

structure WaitArgs where
  mask : U32
  noqueue : U32
  tmo : U32

/-- A read of the library, in the state it is issued in. -/
structure Read (κ : Type) where
  ccon : κ
  args : WaitArgs
  state : Library κ

section Functions

variable {κ : Type} [DecidableEq κ]

/-- `SkelDrvrIoctlSET_TIMEOUT` -/
def ioctlSetTimeout (ccon : κ) (lav : U32) (s : Library κ) : Library κ :=
  { s with cconTimeout := Function.update s.cconTimeout ccon lav }

/-- `SkelDrvrIoctlSET_QUEUE_FLAG` -/
def ioctlSetQueueFlag (ccon : κ) (lav : U32) (s : Library κ) : Library κ :=
  { s with queueOff := Function.update s.queueOff ccon (lav ≠ 0) }

/-- The first step of `MttLibWait()`: connect. A link may fail to be allocated,
which the ioctl does not report. -/
def waitConnect (alloc : Nat → Bool) (ccon : κ) (mask : U32)
    (s : Library κ) : Library κ :=
  if mask &&& s.connected ≠ mask then
    { s with
      wa := ioctlConnect INTERRUPTS alloc ccon ⟨0, mask⟩ s.wa
      connected := s.connected ||| mask }
  else s

/-- The second: queueing. -/
def waitQueueFlag (ccon : κ) (noqueue : U32) (s : Library κ) : Library κ :=
  if noqueue ≠ s.noqueueflag then
    { ioctlSetQueueFlag ccon noqueue s with noqueueflag := noqueue }
  else s

/-- The third: the timeout, where the value that is passed is the old one. -/
def waitTimeout (ccon : κ) (tmo : U32) (s : Library κ) : Library κ :=
  if tmo ≠ s.timeout then
    { ioctlSetTimeout ccon s.timeout s with timeout := tmo }
  else s

/-- `MttLibWait()` up to its read. The reads that follow in its loop find the
same state. -/
def mttLibWait (alloc : Nat → Bool) (args : WaitArgs) (s : Library κ) :
    Library κ × Option (Read κ) :=
  match s.mtt with
  | none => (s, none)
  | some ccon =>
    let s := waitConnect alloc ccon args.mask s
    let s := waitQueueFlag ccon args.noqueue s
    let s := waitTimeout ccon args.tmo s
    (s, some ⟨ccon, args, s⟩)

/-- What `MttLibInit()` finds: its argument, the variable `sysldr`, the client
that is made for the open file, the status of the module, the links, what the
read returns, and whether the time of day is positive. -/
structure InitEnv (κ : Type) where
  path : Option (List Char)
  sysldr : Bool
  ccon : Option κ
  stat : U32
  alloc : Nat → Bool
  msk : U32
  tim : Bool

def closeFile (s : Library κ) : Library κ :=
  match s.mtt with
  | none => s
  | some ccon => { s with wa := doClose INTERRUPTS ccon s.wa, mtt := none }

/-- `client_init()` -/
def openFile (ccon : κ) (s : Library κ) : Library κ :=
  { s with
    wa := openClient ccon s.wa
    cconTimeout := Function.update s.cconTimeout ccon DEFAULT_CLIENT_TIMEOUT
    queueOff := Function.update s.queueOff ccon false
    mtt := some ccon }

/-- Whether `MttLibInit()` waits for a PPS. -/
def InitEnv.waits (env : InitEnv κ) : Bool :=
  env.sysldr || env.stat &&& StatusUTC_SET == 0

/-- `MttLibInit()`. The ioctls for the output and for the UTC concern the
module alone. -/
def mttLibInit (env : InitEnv κ) (s : Library κ) :
    Library κ × Option (Read κ) :=
  if env.path = some [] then (s, none)
  else
    let s := closeFile s
    match env.ccon with
    | none => (s, none)
    | some ccon =>
      let s := openFile ccon s
      if env.waits = true then
        let (s, read) := mttLibWait env.alloc ⟨IntPPS, 0, 200⟩ s
        if env.msk &&& IntPPS ≠ 0 ∧ env.tim = true then (s, read)
        else (closeFile s, read)
      else (s, none)

inductive LibCall (κ : Type)
  | init (env : InitEnv κ)
  | wait (alloc : Nat → Bool) (args : WaitArgs)

def libCall (s : Library κ) : LibCall κ → Library κ × Option (Read κ)
  | .init env => mttLibInit env s
  | .wait alloc args => mttLibWait alloc args s

def runCalls (s : Library κ) : List (LibCall κ) → Library κ
  | [] => s
  | c :: cs => runCalls (libCall s c).1 cs

/-- The library before its first call, whatever other clients there are. -/
def programStart (wa : SkelDrvrWorkingArea κ) (cconTimeout : κ → U32)
    (queueOff : κ → Bool) : Library κ where
  wa := wa
  cconTimeout := cconTimeout
  queueOff := queueOff

end Functions

/-! ## What a read is to find -/

section

variable {κ : Type} [DecidableEq κ]

/-- The client is on the list of every interrupt of the mask, on the module it
has selected. -/
def ConnectedTo (s : Library κ) (ccon : κ) (mask : U32) : Prop :=
  ∀ j, mask.getLsbD j = true → ∃ i, conxModule ccon 0 s.wa = some i ∧
    ccon ∈ (s.wa.modules i).connected.clients j

structure Mirrored (r : Read κ) : Prop where
  timeout : r.state.cconTimeout r.ccon = r.args.tmo
  queueFlag : r.state.queueOff r.ccon = decide (r.args.noqueue ≠ 0)
  connected : ConnectedTo r.state r.ccon r.args.mask

/-- If the call issues a read, the read finds what the call asked for. -/
def CallMirrored (s : Library κ) (c : LibCall κ) : Prop :=
  ∀ r, (libCall s c).2 = some r → Mirrored r

def AllMirrored (s : Library κ) : List (LibCall κ) → Prop
  | [] => True
  | c :: cs => CallMirrored s c ∧ AllMirrored (libCall s c).1 cs

/-- The call gets to a read. -/
def Reads (s : Library κ) : LibCall κ → Prop
  | .init env => env.path ≠ some [] ∧ env.ccon ≠ none ∧ env.waits = true
  | .wait _ _ => s.mtt ≠ none

def NoRead (s : Library κ) : List (LibCall κ) → Prop
  | [] => True
  | c :: cs => ¬ Reads s c ∧ NoRead (libCall s c).1 cs

/-- The copies and the client agree well enough for the call: the timeout is
the copy and the client's already, the queue flag is the client's where it is
the copy, and the client is connected where the copy says so. -/
def Agrees (s : Library κ) : LibCall κ → Prop
  | .init env => ¬ Reads s (.init env)
  | .wait alloc args => ∀ ccon, s.mtt = some ccon →
      s.timeout = args.tmo ∧ s.cconTimeout ccon = args.tmo ∧
      (args.noqueue = s.noqueueflag →
        s.queueOff ccon = decide (args.noqueue ≠ 0)) ∧
      ∀ j, args.mask.getLsbD j = true →
        ∃ i, conxModule ccon 0 s.wa = some i ∧
          (ccon ∈ (s.wa.modules i).connected.clients j ∨
            (args.mask &&& s.connected ≠ args.mask ∧ alloc j = true))

/-! ## One step of the wait at a time -/

variable {alloc : Nat → Bool} {ccon : κ} {mask noqueue tmo : U32}
  {s : Library κ}

theorem waitTimeout_cconTimeout :
    (waitTimeout ccon tmo s).cconTimeout ccon = tmo ↔
      s.timeout = tmo ∧ s.cconTimeout ccon = tmo := by
  unfold waitTimeout
  split
  · next hne =>
    constructor
    · intro h
      have hold : s.timeout = tmo := by
        rw [← h]
        exact (Function.update_self ccon s.timeout s.cconTimeout).symm
      exact absurd hold.symm hne
    · rintro ⟨h, _⟩
      exact absurd h.symm hne
  · next heq =>
    have htmo : tmo = s.timeout := Decidable.not_not.mp heq
    constructor
    · intro h
      exact ⟨htmo.symm, h⟩
    · rintro ⟨_, h⟩
      exact h

theorem waitQueueFlag_queueOff :
    (waitQueueFlag ccon noqueue s).queueOff ccon = decide (noqueue ≠ 0) ↔
      (noqueue = s.noqueueflag → s.queueOff ccon = decide (noqueue ≠ 0)) := by
  unfold waitQueueFlag
  split
  · next hne =>
    constructor
    · intro _ heq
      exact absurd heq hne
    · intro _
      exact Function.update_self ccon _ s.queueOff
  · next heq =>
    have hflag : noqueue = s.noqueueflag := Decidable.not_not.mp heq
    constructor
    · intro h _
      exact h
    · intro h
      exact h hflag

theorem waitConnect_connected :
    ConnectedTo (waitConnect alloc ccon mask s) ccon mask ↔
      ∀ j, mask.getLsbD j = true →
        ∃ i, conxModule ccon 0 s.wa = some i ∧
          (ccon ∈ (s.wa.modules i).connected.clients j ∨
            (mask &&& s.connected ≠ mask ∧ alloc j = true)) := by
  unfold waitConnect ConnectedTo
  split
  · next hne =>
    have hmask : mask ≠ 0 := by
      intro hzero
      rw [hzero] at hne
      exact hne BitVec.zero_and
    have hioctl : ioctlConnect INTERRUPTS alloc ccon ⟨0, mask⟩ s.wa =
        connect INTERRUPTS alloc ccon ⟨0, mask⟩ s.wa := if_pos hmask
    dsimp only
    rw [hioctl, connect_same.conxModule]
    refine forall_congr' fun j => imp_congr_right fun hbit => ?_
    refine exists_congr fun i => and_congr_right fun hmodule => ?_
    have hj : j < INTERRUPTS := BitVec.lt_of_getLsbD hbit
    rw [connect_connected, if_pos hmodule, connectLoop_clients]
    by_cases hin : ccon ∈ (s.wa.modules i).connected.clients j
    · rw [if_neg fun h => h.2.2.1 hin]
      exact ⟨Or.inl, fun _ => hin⟩
    · cases halloc : alloc j with
      | true =>
        rw [if_pos ⟨hj, hbit, hin, rfl⟩]
        exact ⟨fun _ => .inr ⟨hne, rfl⟩, fun _ => List.mem_cons_self⟩
      | false =>
        rw [if_neg fun h => Bool.false_ne_true h.2.2.2]
        constructor
        · exact Or.inl
        · rintro (h | ⟨_, h⟩)
          · exact h
          · cases h
  · next heq =>
    refine forall_congr' fun j => imp_congr_right fun _ => ?_
    refine exists_congr fun i => and_congr_right fun _ => ?_
    constructor
    · exact Or.inl
    · rintro (h | ⟨h, _⟩)
      · exact h
      · exact absurd h heq

@[simp] theorem waitConnect_cconTimeout :
    (waitConnect alloc ccon mask s).cconTimeout = s.cconTimeout := by
  unfold waitConnect
  split <;> rfl

@[simp] theorem waitConnect_timeout :
    (waitConnect alloc ccon mask s).timeout = s.timeout := by
  unfold waitConnect
  split <;> rfl

@[simp] theorem waitConnect_queueOff :
    (waitConnect alloc ccon mask s).queueOff = s.queueOff := by
  unfold waitConnect
  split <;> rfl

@[simp] theorem waitConnect_noqueueflag :
    (waitConnect alloc ccon mask s).noqueueflag = s.noqueueflag := by
  unfold waitConnect
  split <;> rfl

@[simp] theorem waitQueueFlag_cconTimeout :
    (waitQueueFlag ccon noqueue s).cconTimeout = s.cconTimeout := by
  unfold waitQueueFlag
  split <;> rfl

@[simp] theorem waitQueueFlag_timeout :
    (waitQueueFlag ccon noqueue s).timeout = s.timeout := by
  unfold waitQueueFlag
  split <;> rfl

@[simp] theorem waitQueueFlag_wa :
    (waitQueueFlag ccon noqueue s).wa = s.wa := by
  unfold waitQueueFlag
  split <;> rfl

@[simp] theorem waitTimeout_wa : (waitTimeout ccon tmo s).wa = s.wa := by
  unfold waitTimeout
  split <;> rfl

@[simp] theorem waitTimeout_queueOff :
    (waitTimeout ccon tmo s).queueOff = s.queueOff := by
  unfold waitTimeout
  split <;> rfl

/-! ## One call -/

def atRead (alloc : Nat → Bool) (ccon : κ) (args : WaitArgs)
    (s : Library κ) : Library κ :=
  waitTimeout ccon args.tmo
    (waitQueueFlag ccon args.noqueue (waitConnect alloc ccon args.mask s))

theorem mttLibWait_some {args : WaitArgs} (h : s.mtt = some ccon) :
    mttLibWait alloc args s =
      (atRead alloc ccon args s,
        some ⟨ccon, args, atRead alloc ccon args s⟩) := by
  unfold mttLibWait
  rw [h]
  rfl

theorem mirrored_iff (args : WaitArgs) :
    Mirrored ⟨ccon, args, atRead alloc ccon args s⟩ ↔
      s.timeout = args.tmo ∧ s.cconTimeout ccon = args.tmo ∧
      (args.noqueue = s.noqueueflag →
        s.queueOff ccon = decide (args.noqueue ≠ 0)) ∧
      ∀ j, args.mask.getLsbD j = true →
        ∃ i, conxModule ccon 0 s.wa = some i ∧
          (ccon ∈ (s.wa.modules i).connected.clients j ∨
            (args.mask &&& s.connected ≠ args.mask ∧ alloc j = true)) := by
  have htimeout : (atRead alloc ccon args s).cconTimeout ccon = args.tmo ↔
      s.timeout = args.tmo ∧ s.cconTimeout ccon = args.tmo := by
    unfold atRead
    rw [waitTimeout_cconTimeout]
    simp
  have hqueue : (atRead alloc ccon args s).queueOff ccon =
      decide (args.noqueue ≠ 0) ↔
      (args.noqueue = s.noqueueflag →
        s.queueOff ccon = decide (args.noqueue ≠ 0)) := by
    unfold atRead
    rw [waitTimeout_queueOff, waitQueueFlag_queueOff]
    simp only [waitConnect_noqueueflag, waitConnect_queueOff]
  have hconnected : ConnectedTo (atRead alloc ccon args s) ccon args.mask ↔
      ConnectedTo (waitConnect alloc ccon args.mask s) ccon args.mask := by
    unfold atRead ConnectedTo
    rw [waitTimeout_wa, waitQueueFlag_wa]
  constructor
  · intro h
    obtain ⟨hcopy, hclient⟩ := htimeout.mp h.timeout
    exact ⟨hcopy, hclient, hqueue.mp h.queueFlag,
      waitConnect_connected.mp (hconnected.mp h.connected)⟩
  · rintro ⟨hcopy, hclient, hflag, hjoined⟩
    exact ⟨htimeout.mpr ⟨hcopy, hclient⟩, hqueue.mpr hflag,
      hconnected.mpr (waitConnect_connected.mpr hjoined)⟩

theorem init_read {env : InitEnv κ} (h : Reads s (.init env)) :
    ∃ c, (mttLibInit env s).2 = some ⟨c, ⟨IntPPS, 0, 200⟩,
      atRead env.alloc c ⟨IntPPS, 0, 200⟩ (openFile c (closeFile s))⟩ := by
  obtain ⟨hpath, hopen, hwaits⟩ := h
  obtain ⟨c, hc⟩ := Option.ne_none_iff_exists'.mp hopen
  refine ⟨c, ?_⟩
  unfold mttLibInit
  rw [if_neg hpath]
  simp only [hc]
  rw [if_pos hwaits, mttLibWait_some rfl]
  split <;> rfl

theorem init_noRead {env : InitEnv κ} (h : ¬ Reads s (.init env)) :
    (mttLibInit env s).2 = none := by
  unfold mttLibInit
  split
  · rfl
  · next hpath =>
    dsimp only
    split
    · rfl
    · next c hc =>
      rw [if_neg]
      intro hwaits
      exact h ⟨hpath, by rw [hc]; exact Option.some_ne_none c, hwaits⟩

theorem not_mirrored_open (args : WaitArgs) (h : args.tmo ≠ 2000) :
    ¬ Mirrored ⟨ccon, args, atRead alloc ccon args (openFile ccon s)⟩ := by
  rw [mirrored_iff]
  rintro ⟨_, hclient, _⟩
  have hopen : (openFile ccon s).cconTimeout ccon = DEFAULT_CLIENT_TIMEOUT :=
    Function.update_self ccon _ s.cconTimeout
  rw [hopen] at hclient
  exact h hclient.symm

theorem callMirrored_iff (s : Library κ) (c : LibCall κ) :
    CallMirrored s c ↔ Agrees s c := by
  cases c with
  | init env =>
    constructor
    · intro h hreads
      obtain ⟨c, hread⟩ := init_read hreads
      exact not_mirrored_open _ (by decide) (h _ hread)
    · intro h r hread
      have hnone : (libCall s (.init env)).2 = none := init_noRead h
      rw [hnone] at hread
      cases hread
  | wait alloc args =>
    cases hmtt : s.mtt with
    | none =>
      have hcall : (libCall s (.wait alloc args)).2 = none := by
        show (mttLibWait alloc args s).2 = none
        unfold mttLibWait
        rw [hmtt]
      constructor
      · intro _ ccon hccon
        rw [hmtt] at hccon
        cases hccon
      · intro _ r hread
        rw [hcall] at hread
        cases hread
    | some ccon =>
      have hcall : (libCall s (.wait alloc args)).2 =
          some ⟨ccon, args, atRead alloc ccon args s⟩ :=
        congrArg Prod.snd (mttLibWait_some hmtt)
      constructor
      · intro h ccon' hccon'
        rw [hmtt] at hccon'
        cases hccon'
        exact (mirrored_iff args).mp (h _ hcall)
      · intro h r hread
        rw [hcall] at hread
        cases hread
        exact (mirrored_iff args).mpr (h ccon hmtt)

/-! ## A whole run -/

/-- No read yet: the copy of the timeout is the one the library starts with
and the client's is the one a client starts with. -/
structure Untouched (s : Library κ) : Prop where
  copy : s.timeout = 200
  client : ∀ ccon, s.mtt = some ccon →
    s.cconTimeout ccon = DEFAULT_CLIENT_TIMEOUT

theorem Untouched.closeFile (h : Untouched s) : Untouched (closeFile s) := by
  unfold Mttn.closeFile
  split
  · exact h
  · refine ⟨h.copy, ?_⟩
    intro c hc
    cases hc

theorem Untouched.openFile (h : Untouched s) (c : κ) :
    Untouched (openFile c s) := by
  refine ⟨h.copy, ?_⟩
  intro c' hc'
  cases hc'
  exact Function.update_self c _ s.cconTimeout

theorem Untouched.step (h : Untouched s) {c : LibCall κ} (hno : ¬ Reads s c) :
    Untouched (libCall s c).1 := by
  cases c with
  | init env =>
    show Untouched (mttLibInit env s).1
    unfold mttLibInit
    split
    · exact h
    · next hpath =>
      dsimp only
      split
      · exact h.closeFile
      · next c hc =>
        rw [if_neg]
        · exact h.closeFile.openFile c
        · intro hwaits
          exact hno
            ⟨hpath, by rw [hc]; exact Option.some_ne_none c, hwaits⟩
  | wait alloc args =>
    have hmtt : s.mtt = none := Decidable.not_not.mp hno
    show Untouched (mttLibWait alloc args s).1
    unfold mttLibWait
    rw [hmtt]
    exact h

theorem Untouched.noRead (h : Untouched s) {c : LibCall κ}
    (hc : CallMirrored s c) : ¬ Reads s c := by
  have hagrees := (callMirrored_iff s c).mp hc
  cases c with
  | init env => exact hagrees
  | wait alloc args =>
    intro hreads
    obtain ⟨ccon, hccon⟩ := Option.ne_none_iff_exists'.mp hreads
    obtain ⟨hcopy, hclient, _⟩ := hagrees ccon hccon
    rw [h.copy] at hcopy
    rw [h.client ccon hccon, ← hcopy] at hclient
    exact absurd hclient (by decide)

theorem callMirrored_of_noRead {c : LibCall κ} (hno : ¬ Reads s c) :
    CallMirrored s c := by
  rw [callMirrored_iff]
  cases c with
  | init env => exact hno
  | wait alloc args =>
    intro ccon hccon
    refine absurd ?_ hno
    show s.mtt ≠ none
    rw [hccon]
    exact Option.some_ne_none ccon

theorem allMirrored_iff (h : Untouched s) (cs : List (LibCall κ)) :
    AllMirrored s cs ↔ NoRead s cs := by
  induction cs generalizing s with
  | nil => exact Iff.rfl
  | cons c cs ih =>
    constructor
    · rintro ⟨hc, hrest⟩
      have hno := h.noRead hc
      exact ⟨hno, (ih (h.step hno)).mp hrest⟩
    · rintro ⟨hno, hrest⟩
      exact ⟨callMirrored_of_noRead hno, (ih (h.step hno)).mpr hrest⟩

end

/-- From the start of the program on, all reads are right only where there are
none; a single read is right where the copies agree with the client. -/
theorem wait_mirrors_iff {κ : Type} [DecidableEq κ]
    (wa : SkelDrvrWorkingArea κ) (cconTimeout : κ → U32) (queueOff : κ → Bool)
    (cs : List (LibCall κ)) :
    (AllMirrored (programStart wa cconTimeout queueOff) cs ↔
      NoRead (programStart wa cconTimeout queueOff) cs) ∧
    ∀ c, CallMirrored (runCalls (programStart wa cconTimeout queueOff) cs) c ↔
      Agrees (runCalls (programStart wa cconTimeout queueOff) cs) c := by
  refine ⟨allMirrored_iff ⟨rfl, ?_⟩ cs, fun c => callMirrored_iff _ c⟩
  intro c hc
  cases hc

/-- One module, and nobody connected to it. -/
def oneModule : SkelDrvrWorkingArea Unit where
  installedModules := 1
  modules := fun _ => { moduleNumber := 1 }
  moduleNumber := fun _ => 0

def plainInit : InitEnv Unit where
  path := none
  sysldr := false
  ccon := some ()
  stat := StatusUTC_SET
  alloc := fun _ => true
  msk := 0
  tim := true

/-- The first wait, for the PPS within two seconds. -/
theorem first_wait_not_mirrored :
    ¬ ∀ cs : List (LibCall Unit),
      AllMirrored (programStart oneModule (fun _ => 0) fun _ => false) cs := by
  intro h
  have hall := h [.init plainInit,
    .wait (fun _ => true) ⟨IntPPS, 0, 200⟩]
  have hagrees := (callMirrored_iff _ _).mp hall.2.1
  have hmtt : (libCall (programStart oneModule (fun _ => 0) fun _ => false)
      (.init plainInit)).1.mtt = some () := by decide +kernel
  have hclient := (hagrees () hmtt).2.1
  exact absurd hclient (by decide +kernel)

end Coht.Mttn
