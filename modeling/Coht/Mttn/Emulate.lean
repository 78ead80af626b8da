import Coht.Mttn.Emu
import Mathlib.Algebra.Group.Nat.Defs

/-!
# The commands of the emulator (`emu.c`)

`Emulate()` reads commands and calls `Execute()` on the instruction that the
program counter points to. It looks at an address only where one is typed in:
a branch, or the end of the program, can take the program counter anywhere.

All waits share `waiting` and `waitr`. The wait that the program counter stays
on owns them, and changing the program counter clears `waitr` only. Then
`waiting` still says that a wait has begun, and the next relative wait takes
the cleared `waitr` for its own.

`Session.since` is not in the program. It remembers, for the wait that the
program counter stays on, the value of its register and the amount at its
first execution.
-/

namespace Coht.Mttn

/-- A loaded program: it is not empty, and its instructions, eight bytes each,
are in memory. -/
structure Loaded where
  loadAddress : BitVec 32
  program : List Instruction
  nonempty : 0 < program.length
  inMemory : 8 * program.length < 2 ^ 32

/-! ## One instruction -/

/-- The program counter points to an instruction of the program. -/
def Emulation.Inside (s : Emulation) (pc : BitVec 32) : Prop :=
  0 ≤ (pc - s.loadAddress).toInt ∧
    (pc - s.loadAddress).toInt < s.program.length

instance (s : Emulation) (pc : BitVec 32) : Decidable (s.Inside pc) :=
  inferInstanceAs (Decidable (_ ∧ _))

/-- The instruction at `Program[Pc - LoadAddress]`; `beyond` says what is
outside the program. -/
def Emulation.fetch (beyond : Emulation → Instruction) (s : Emulation) :
    Instruction :=
  match s.slot with
  | some i => s.program[i]?.getD {}
  | none => beyond s

def Emulation.execute (p : Platform) (beyond : Emulation → Instruction)
    (s : Emulation) : Emulation :=
  let after := Mttn.execute p (s.fetch beyond) s.machine
  { s with
    program := match s.slot with
      | some i => s.program.set i after.1
      | none => s.program
    machine := after.2 }

theorem Emulation.execute_step (p : Platform)
    (beyond : Emulation → Instruction) (s : Emulation) :
    ∃ e, EmuStep p s e (s.execute p beyond) := by
  unfold execute fetch
  cases hslot : s.slot with
  | none => exact ⟨_, .strays (beyond s) hslot⟩
  | some i =>
    have hlt : i < s.program.length := by
      unfold slot at hslot
      dsimp only at hslot
      split at hslot
      · injection hslot with hslot
        omega
      · cases hslot
    have hinst : s.program[i]? = some s.program[i] :=
      List.getElem?_eq_getElem hlt
    dsimp only
    rw [hinst]
    exact ⟨_, .executes hslot hinst⟩

/-- The amount of a relative wait. -/
def Emu.amount (p : Platform) (inst : Instruction) (s : Emu) :
    Option (BitVec 32) :=
  match idNumber inst.number with
  | some .wrlv => some inst.src1
  | some .wrlr => some (s.reg p inst.src1)
  | _ => none

/-! ## Commands -/

def Emu.setRegs (s : Emu) (values : List (BitVec 8 × BitVec 32)) : Emu :=
  values.foldl (fun s v => s.setReg v.1 v.2) s

/-- `Emulate()` between two commands. -/
structure Session where
  code : Emulation
  i : Nat := 0
  exc : Bool := false
  since : Option (BitVec 32 × BitVec 32) := none

inductive Command
  /-- An empty line. -/
  | next
  | x (cnt : BitVec 32)
  | p (pc : BitVec 32)
  | slash (pc : Option (BitVec 32))
  /-- `g` or `l`, and what is entered there. -/
  | edit (values : List (BitVec 8 × BitVec 32))
  | dot
  | help

namespace Session

def start (code : Loaded) : Session where
  code := {
    loadAddress := code.loadAddress
    program := code.program
    machine := { regm := fun _ => 0, pc := code.loadAddress } }

variable (p : Platform) (beyond : Emulation → Instruction)

/-- At a relative wait, the value of its register and the amount when it was
executed first. -/
def begun (s : Session) : Option (BitVec 32 × BitVec 32) :=
  let inst := s.code.fetch beyond
  (s.code.machine.amount p inst).map fun amount =>
    s.since.getD (s.code.machine.regm inst.src2, amount)

def execute (s : Session) : Session :=
  let code := s.code.execute p beyond
  { s with
    code
    since := if code.machine.pc = s.code.machine.pc then s.begun p beyond
      else none }

/-- The loop of `x`: before which calls of `Execute()`, and what follows. -/
def executeTimes : Nat → Session → List Session × Session
  | 0, s => ([], s)
  | n + 1, s =>
    let rest := executeTimes n (s.execute p beyond)
    (s :: rest.1, rest.2)

def accepts (s : Session) (pc : BitVec 32) : Bool :=
  s.code.loadAddress ≤ pc ∧
    pc < s.code.loadAddress + BitVec.ofNat 32 s.code.program.length

def changePc (s : Session) (pc : BitVec 32) : Session :=
  if s.accepts pc then
    { s with
      code := { s.code with
        machine := { s.code.machine with waitr := 0, pc } }
      since := none }
  else s

def edit (s : Session) (values : List (BitVec 8 × BitVec 32)) : Session :=
  { s with
    code := { s.code with machine := s.code.machine.setRegs values } }

/-- One command, unless it ends the emulator. -/
def command (s : Session) : Command → Option (List Session × Session)
  | .next =>
    if s.exc then some (executeTimes p beyond 1 s)
    else
      let i := s.i + 1
      some ([], { s with i := if s.code.program.length ≤ i then 0 else i })
  | .x cnt =>
    some (executeTimes p beyond (if cnt.sle 0 then 1 else cnt.toNat)
      { s with exc := true })
  | .p pc => some ([], s.changePc pc)
  | .slash (some pc) =>
    some ([], if s.accepts pc then
      { s with i := (pc - s.code.loadAddress).toNat } else s)
  | .slash none => some ([], s)
  | .edit values => some ([], s.edit values)
  | .dot => if s.exc then some ([], { s with exc := false }) else none
  | .help => some ([], s)

/-- The calls of `Execute()` in a session. -/
def emulate : List Command → Session → List Session
  | [], _ => []
  | c :: cs, s =>
    match s.command p beyond c with
    | some (calls, s) => calls ++ emulate cs s
    | none => []

/-! ## What is promised, and when -/

/-- A relative wait is over when its register has advanced by the amount. -/
def WaitsRight (s : Session) : Prop :=
  ∀ value amount, s.begun p beyond = some (value, amount) →
    ((s.execute p beyond).code.machine.pc ≠ s.code.machine.pc ↔
      value.toInt + amount.toInt ≤
        (s.code.machine.regm (s.code.fetch beyond).src2).toInt)

end Session

/-! ## Where the program counter goes -/

namespace Emu

def after (s : Emu) (done : Bool) : BitVec 32 :=
  if done then s.pc + 1 else s.pc

def jump (s : Emu) (taken : Bool) (address : BitVec 32) : BitVec 32 :=
  if taken then address else s.pc + 1

/-- What a relative wait compares its register with. -/
def target (s : Emu) (value : BitVec 32) : BitVec 32 :=
  if s.waiting then s.waitr else value

/-- Where an instruction takes the program counter. -/
def nextPc (p : Platform) (inst : Instruction) (s : Emu) : BitVec 32 :=
  match idNumber inst.number with
  | none | some .halt => s.pc
  | some .weqv => s.after (s.regm inst.src2 = inst.src1)
  | some .weqr => s.after (s.regm inst.src2 = s.reg p inst.src1)
  | some .wrlv =>
    s.after ((s.target (s.regm inst.src2 + inst.src1)).sle
      (s.regm inst.src2))
  | some .wrlr =>
    s.after ((s.target (s.regm inst.src2 + s.reg p inst.src1)).sle
      (s.regm inst.src2))
  | some .worv => s.after (s.regm inst.src2 &&& inst.src1 ≠ 0)
  | some .worr => s.after (s.regm inst.src2 &&& s.reg p inst.src1 ≠ 0)
  | some .jmp => s.jump true inst.src1
  | some .beq => s.jump (s.status PsEQ) inst.src1
  | some .bne => s.jump (!s.status PsEQ) inst.src1
  | some .blt => s.jump (s.status PsLT) inst.src1
  | some .bgt => s.jump (s.status PsGT) inst.src1
  | some .ble => s.jump (s.status PsEQ || s.status PsLT) inst.src1
  | some .bge => s.jump (s.status PsEQ || s.status PsGT) inst.src1
  | some .bcr => s.jump (s.status PsCR) inst.src1
  | some _ => s.pc + 1

theorem wait_pc (s : Emu) (value : BitVec 32) (r : BitVec 8)
    (done : BitVec 32 → Bool) :
    (s.wait value r done).pc = s.after (done (s.target value)) := by
  unfold wait after target
  cases s.waiting with
  | true =>
    simp only [if_true]
    split <;> rfl
  | false =>
    simp only [Bool.false_eq_true, if_false]
    split <;> rfl

theorem branch_pc (s : Emu) (taken : Bool) (address : BitVec 32) :
    (s.branch taken address).pc = s.jump taken address := by
  unfold branch jump
  split <;> rfl

end Emu

theorem execute_pc (p : Platform) (inst : Instruction) (s : Emu) :
    (execute p inst s).2.pc = s.nextPc p inst := by
  unfold Emu.nextPc
  cases hid : idNumber inst.number with
  | none => rw [execute_none hid]
  | some id =>
    rw [execute_some hid]
    cases id with
    | weqv | weqr | wrlv | wrlr | worv | worr => exact Emu.wait_pc _ _ _ _
    | jmp | beq | bne | blt | bgt | ble | bge | bcr =>
      exact Emu.branch_pc _ _ _
    | movir | movri =>
      simp only [executeCase]
      split <;> rfl
    | _ => rfl

theorem execute_relative {p : Platform} {inst : Instruction} {s : Emu}
    {amount : BitVec 32} (h : s.amount p inst = some amount) :
    execute p inst s = (inst, s.wait (s.regm inst.src2 + amount) inst.src2
      fun waitr => waitr.sle (s.regm inst.src2)) := by
  unfold Emu.amount at h
  split at h
  · rename_i hid
    injection h with h
    rw [execute_some hid, ← h]
    rfl
  · rename_i hid
    injection h with h
    rw [execute_some hid, ← h]
    rfl
  · cases h

theorem Emu.wait_on {s : Emu} {value : BitVec 32} {r : BitVec 8}
    {done : BitVec 32 → Bool} (h : (s.wait value r done).pc = s.pc) :
    (s.wait value r done).waiting = true ∧
      (s.wait value r done).waitr = s.target value := by
  have hne : s.pc + 1 ≠ s.pc := by
    intro heq
    have := BitVec.add_right_eq_self.mp heq
    cases this
  unfold Emu.wait Emu.target at *
  cases hwaiting : s.waiting with
  | true =>
    simp only [hwaiting, if_true] at h ⊢
    split
    · rename_i hdone
      rw [if_pos hdone] at h
      exact absurd h hne
    · exact ⟨hwaiting, rfl⟩
  | false =>
    simp only [hwaiting, Bool.false_eq_true, if_false] at h ⊢
    split
    · rename_i hdone
      rw [if_pos hdone] at h
      exact absurd h hne
    · exact ⟨rfl, rfl⟩

theorem Emu.wait_over {s : Emu} {value : BitVec 32} {r : BitVec 8}
    {done : BitVec 32 → Bool} :
    (s.wait value r done).pc ≠ s.pc ↔ done (s.target value) = true := by
  rw [Emu.wait_pc, Emu.after]
  split
  · rename_i h
    refine ⟨fun _ => h, fun _ heq => ?_⟩
    have := BitVec.add_right_eq_self.mp heq
    cases this
  · rename_i h
    exact ⟨fun hne => absurd rfl hne, fun h' => absurd h' h⟩

namespace Session

/-! ## The invariant -/

section Runs

variable (p : Platform) (beyond : Emulation → Instruction)

/-- Before an execution: it leaves the program counter in the program, and a
relative wait that begins finds no other one pending and does not overflow. -/
structure Ok (s : Session) : Prop where
  leads : s.code.Inside (s.code.machine.nextPc p (s.code.fetch beyond))
  fresh : ∀ value amount, s.begun p beyond = some (value, amount) →
    s.since = none →
    s.code.machine.waiting = false ∧ value.saddOverflow amount = false

structure Inv (s : Session) : Prop where
  inside : s.code.Inside s.code.machine.pc
  inMemory : 8 * s.code.program.length < 2 ^ 32
  since : ∀ value amount, s.since = some (value, amount) →
    s.code.machine.waiting = true ∧
      s.code.machine.waitr = value + amount ∧
      value.saddOverflow amount = false

variable {p beyond} {s : Session}

theorem execute_machine :
    (s.code.execute p beyond).machine =
      (Mttn.execute p (s.code.fetch beyond) s.code.machine).2 := rfl

theorem execute_length :
    (s.code.execute p beyond).program.length = s.code.program.length := by
  unfold Emulation.execute
  dsimp only
  split
  · exact List.length_set
  · rfl

theorem Inv.target (hs : s.Inv) (hok : s.Ok p beyond)
    {value amount : BitVec 32} (h : s.begun p beyond = some (value, amount)) :
    ∃ a, s.code.machine.amount p (s.code.fetch beyond) = some a ∧
      s.code.machine.target
        (s.code.machine.regm (s.code.fetch beyond).src2 + a) =
        value + amount ∧
      value.saddOverflow amount = false := by
  have hbegun := h
  obtain ⟨a, ha, hvalue⟩ := Option.map_eq_some_iff.mp h
  refine ⟨a, ha, ?_⟩
  cases hsince : s.since with
  | none =>
    obtain ⟨hwaiting, hover⟩ := hok.fresh value amount hbegun hsince
    rw [hsince] at hvalue
    injection hvalue with hv ha'
    rw [Emu.target, hwaiting, if_neg Bool.false_ne_true, hv, ha']
    exact ⟨rfl, hover⟩
  | some first =>
    rw [hsince] at hvalue
    have hfirst : s.since = some (value, amount) := hsince.trans
      (congrArg some hvalue)
    obtain ⟨hwaiting, hwaitr, hover⟩ := hs.since value amount hfirst
    rw [Emu.target, hwaiting, if_pos rfl]
    exact ⟨hwaitr, hover⟩

theorem Inv.waitsRight (hs : s.Inv) (hok : s.Ok p beyond) :
    s.WaitsRight p beyond := by
  intro value amount h
  obtain ⟨a, ha, htarget, hover⟩ := hs.target hok h
  have hexecute := execute_relative ha
  change (s.code.execute p beyond).machine.pc ≠ _ ↔ _
  rw [execute_machine, hexecute, Emu.wait_over, htarget,
    BitVec.sle_iff_toInt_le,
    BitVec.toInt_add_of_not_saddOverflow (by rw [hover]; exact Bool.false_ne_true)]

theorem Inv.execute (hs : s.Inv) (hok : s.Ok p beyond) :
    (s.execute p beyond).Inv where
  inside := by
    have hleads := hok.leads
    rw [← execute_pc] at hleads
    unfold Emulation.Inside at hleads ⊢
    change _ ∧ _ < ((s.code.execute p beyond).program.length : Int)
    rw [execute_length]
    exact hleads
  inMemory := by
    change 8 * (s.code.execute p beyond).program.length < _
    rw [execute_length]
    exact hs.inMemory
  since value amount h := by
    change (if _ then _ else _) = _ at h
    split at h
    · rename_i hpc
      obtain ⟨a, ha, htarget, hover⟩ := hs.target hok h
      have hexecute := execute_relative ha
      change (s.code.execute p beyond).machine.waiting = true ∧
        (s.code.execute p beyond).machine.waitr = _ ∧ _
      rw [execute_machine, hexecute] at hpc ⊢
      obtain ⟨hwaiting, hwaitr⟩ := Emu.wait_on hpc
      exact ⟨hwaiting, hwaitr.trans htarget, hover⟩
    · cases h

theorem setRegs_eq (m : Emu) (values : List (BitVec 8 × BitVec 32)) :
    ∃ regm, m.setRegs values = { m with regm } := by
  induction values generalizing m with
  | nil => exact ⟨m.regm, rfl⟩
  | cons v values ih => exact ih (m.setReg v.1 v.2)

theorem Inv.edit (hs : s.Inv) (values : List (BitVec 8 × BitVec 32)) :
    (s.edit values).Inv := by
  obtain ⟨regm, h⟩ := setRegs_eq s.code.machine values
  unfold Session.edit
  rw [h]
  exact ⟨hs.inside, hs.inMemory, hs.since⟩

theorem Inv.accepted (hs : s.Inv) {pc : BitVec 32}
    (h : s.accepts pc = true) : s.code.Inside pc := by
  obtain ⟨hle, hlt⟩ := of_decide_eq_true h
  have hmemory := hs.inMemory
  have hsum : (s.code.loadAddress +
      BitVec.ofNat 32 s.code.program.length).toNat ≤
      s.code.loadAddress.toNat + s.code.program.length := by
    rw [BitVec.toNat_add, BitVec.toNat_ofNat]
    have hcount := Nat.mod_le s.code.program.length (2 ^ 32)
    exact Nat.le_trans (Nat.mod_le _ _) (by omega)
  have hindex : (pc - s.code.loadAddress).toNat < s.code.program.length := by
    rw [BitVec.toNat_sub_of_le hle]
    have hlt' := BitVec.lt_def.mp hlt
    have hle' := BitVec.le_def.mp hle
    omega
  unfold Emulation.Inside
  rw [BitVec.toInt_eq_toNat_of_lt (by omega)]
  omega

theorem Inv.changePc (hs : s.Inv) (pc : BitVec 32) : (s.changePc pc).Inv := by
  unfold Session.changePc
  split
  · rename_i h
    exact ⟨hs.accepted h, hs.inMemory, fun _ _ h => by cases h⟩
  · exact hs

theorem Inv.executeTimes {n : Nat} (hs : s.Inv)
    (hok : ∀ t ∈ (executeTimes p beyond n s).1, t.Ok p beyond) :
    (∀ t ∈ (executeTimes p beyond n s).1,
        t.code.Inside t.code.machine.pc ∧ t.WaitsRight p beyond) ∧
      (executeTimes p beyond n s).2.Inv := by
  induction n generalizing s with
  | zero => exact ⟨fun _ h => (by cases h), hs⟩
  | succ n ih =>
    have hfirst := hok s List.mem_cons_self
    obtain ⟨hrest, hlast⟩ := ih (hs.execute hfirst) fun t ht =>
      hok t (List.mem_cons_of_mem s ht)
    refine ⟨fun t ht => ?_, hlast⟩
    rcases List.mem_cons.mp ht with rfl | ht
    · exact ⟨hs.inside, hs.waitsRight hfirst⟩
    · exact hrest t ht

theorem Inv.command {c : Command} {calls : List Session} {s' : Session}
    (hs : s.Inv) (h : s.command p beyond c = some (calls, s'))
    (hok : ∀ t ∈ calls, t.Ok p beyond) :
    (∀ t ∈ calls,
        t.code.Inside t.code.machine.pc ∧ t.WaitsRight p beyond) ∧
      s'.Inv := by
  have hi : ∀ i exc, ({ s with i, exc } : Session).Inv := fun _ _ =>
    ⟨hs.inside, hs.inMemory, hs.since⟩
  have hquiet : ∀ s₁ : Session, s₁.Inv → some ([], s₁) = some (calls, s') →
      (∀ t ∈ calls,
        t.code.Inside t.code.machine.pc ∧ t.WaitsRight p beyond) ∧
      s'.Inv := by
    intro s₁ hs₁ heq
    injection heq with heq
    injection heq with hcalls hs'
    rw [← hcalls, ← hs']
    exact ⟨fun _ ht => (by cases ht), hs₁⟩
  have htimes : ∀ n (s₁ : Session), s₁.Inv →
      some (Session.executeTimes p beyond n s₁) = some (calls, s') →
      (∀ t ∈ calls,
        t.code.Inside t.code.machine.pc ∧ t.WaitsRight p beyond) ∧
      s'.Inv := by
    intro n s₁ hs₁ heq
    injection heq with heq
    have hall := @Inv.executeTimes p beyond s₁ n hs₁
    rw [heq] at hall
    exact hall hok
  cases c with
  | next =>
    rw [Session.command] at h
    split at h
    · exact htimes 1 s hs h
    · exact hquiet _ (hi _ s.exc) h
  | x cnt => exact htimes _ _ (hi s.i true) h
  | p pc => exact hquiet _ (hs.changePc pc) h
  | slash pc =>
    cases pc with
    | none => exact hquiet s hs h
    | some pc =>
      rw [Session.command] at h
      split at h
      · exact hquiet _ (hi _ s.exc) h
      · exact hquiet s hs h
  | edit values => exact hquiet _ (hs.edit values) h
  | dot =>
    rw [Session.command] at h
    split at h
    · exact hquiet _ (hi s.i false) h
    · cases h
  | help => exact hquiet s hs h

theorem Inv.emulate {cs : List Command} (hs : s.Inv)
    (hok : ∀ t ∈ emulate p beyond cs s, t.Ok p beyond) :
    ∀ t ∈ Session.emulate p beyond cs s,
      t.code.Inside t.code.machine.pc ∧ t.WaitsRight p beyond := by
  induction cs generalizing s with
  | nil => exact fun _ h => by cases h
  | cons c cs ih =>
    rw [Session.emulate] at hok ⊢
    cases hc : s.command p beyond c with
    | none => exact fun _ h => by cases h
    | some r =>
      obtain ⟨calls, s'⟩ := r
      rw [hc] at hok
      dsimp only at hok ⊢
      obtain ⟨hcalls, hs'⟩ := hs.command hc fun t ht =>
        hok t (List.mem_append_left _ ht)
      intro t ht
      rcases List.mem_append.mp ht with ht | ht
      · exact hcalls t ht
      · exact ih hs' (fun t ht => hok t (List.mem_append_right _ ht)) t ht

theorem start_inv (code : Loaded) : (start code).Inv where
  inside := by
    unfold Emulation.Inside
    have := code.nonempty
    simp only [start, BitVec.sub_self]
    exact ⟨by decide, by
      rw [BitVec.toInt_zero]
      omega⟩
  inMemory := code.inMemory
  since _ _ h := by cases h

end Runs

end Session

/-- `WRLV 100,GR1`, `WRLV 1,GR1` and a jump to an address outside. -/
def abandonProgram : Loaded where
  loadAddress := 0
  program := [{ number := 0x92, src1 := 100 }, { number := 0x92, src1 := 1 },
    { number := 0x85, src1 := 9 }]
  nonempty := by decide
  inMemory := by decide

/-- The first wait is abandoned for the second one. -/
def abandonedCalls : List Session :=
  Session.emulate zeroPlatform (fun _ => {})
    [.x 1, .p 1, .x 1, .x 2] (.start abandonProgram)

/-- `WRLV 1,GR1` in front of a `HALT`. -/
def waitProgram : Loaded where
  loadAddress := 16
  program := [{ number := 0x92, src1 := 1 }, { number := 0x00 }]
  nonempty := by decide
  inMemory := by decide

/-- The wait is over when its register has been edited. -/
def waitingCalls : List Session :=
  Session.emulate zeroPlatform (fun _ => {}) [.x 1, .edit [(0, 1)], .x 2]
    (.start waitProgram)

end Coht.Mttn
