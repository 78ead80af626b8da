import Coht.Lib.System
import Coht.Mttn.Opcodes

/-!
# The emulator against the instruction table (`emu.c`)

`execute` is the switch of `Execute()`: each case picks the operand fields it
reads by hand. `MatchesTable` says what the table of op-codes promises about
it: instructions that agree in the fields their entry declares have one
effect, only the register in a declared destination field is written, and the
instruction itself stays as it is.

Two op-codes break the promise. `WDOG` counts its own op-code up, in the
program, and the number it becomes belongs to no instruction. `MOVRI` moves
the register in the undeclared destination field to the register the index
register points to.

What C leaves open is a `Platform`: the value read outside the register file,
and shifts by a count that is negative or not below 32. The text of the last
difference (`Dfs`, `regm`) is display only and not here.
-/

namespace Coht.Mttn

open Coht.Lib

/-! ## The emulated module -/

/-- `Regm` and what else `Execute()` works on. -/
structure Emu where
  regm : BitVec 8 → BitVec 32
  pswd : BitVec 32 := 0
  pc : BitVec 32 := 0
  waiting : Bool := false
  waitr : BitVec 32 := 0
  regwa : BitVec 8 := 0

structure Platform extends Shifts where
  /-- What `Regm[i]` reads for an `i` outside the register file. -/
  outside : Emu → BitVec 32 → BitVec 32

def PsEQ : BitVec 32 := 0x1
def PsLT : BitVec 32 := 0x2
def PsGT : BitVec 32 := 0x4
def PsCR : BitVec 32 := 0x8

def setPSwd (val : BitVec 32) : BitVec 32 :=
  if val = 0 then PsEQ else if val.slt 0 then PsLT else PsGT

def GREGS : BitVec 8 := 224

namespace Emu

def setReg (s : Emu) (r : BitVec 8) (v : BitVec 32) : Emu :=
  { s with regm := fun r' => if r' = r then v else s.regm r' }

/-- `Regm[i]` for a register number that is not checked. -/
def reg (p : Platform) (s : Emu) (i : BitVec 32) : BitVec 32 :=
  if i.toNat < 256 then s.regm (i.setWidth 8) else p.outside s i

def next (s : Emu) : Emu := { s with pc := s.pc + 1 }

/-- A register gets a value, which sets the processor status. -/
def assign (s : Emu) (r : BitVec 8) (v : BitVec 32) : Emu :=
  { s.setReg r v with pswd := setPSwd v }

/-- The program counter stays on a wait until it is over. -/
def wait (s : Emu) (value : BitVec 32) (r : BitVec 8)
    (done : BitVec 32 → Bool) : Emu :=
  let s := if s.waiting then s
    else { s with waiting := true, waitr := value, regwa := r }
  if done s.waitr then { s with waiting := false, pc := s.pc + 1 } else s

def branch (s : Emu) (taken : Bool) (address : BitVec 32) : Emu :=
  if taken then { s with pc := address } else s.next

def status (s : Emu) (bits : BitVec 32) : Bool := s.pswd &&& bits ≠ 0

/-- `MOVIR` and `MOVRI` work only while the index register holds a register
number. -/
def indexed (s : Emu) : Bool := (s.regm GREGS).toNat < 256

def index (s : Emu) : BitVec 8 := (s.regm GREGS).setWidth 8

end Emu

/-- The case of `Execute()` for each op-code: the instruction and the module
afterwards. -/
def executeCase (p : Platform) (inst : Instruction) (s : Emu) :
    IdNumber → Instruction × Emu
  | .halt => (inst, s)
  | .noop => (inst, s.next)
  | .int => (inst, s.next)
  | .weqv => (inst, s.wait inst.src1 inst.src2
      fun _ => s.regm inst.src2 = inst.src1)
  | .weqr => (inst, s.wait (s.reg p inst.src1) inst.src2
      fun _ => s.regm inst.src2 = s.reg p inst.src1)
  | .wrlv => (inst, s.wait (s.regm inst.src2 + inst.src1) inst.src2
      fun waitr => waitr.sle (s.regm inst.src2))
  | .wrlr => (inst, s.wait (s.regm inst.src2 + s.reg p inst.src1) inst.src2
      fun waitr => waitr.sle (s.regm inst.src2))
  | .worv => (inst, s.wait inst.src1 inst.src2
      fun _ => s.regm inst.src2 &&& inst.src1 ≠ 0)
  | .worr => (inst, s.wait (s.reg p inst.src1) inst.src2
      fun _ => s.regm inst.src2 &&& s.reg p inst.src1 ≠ 0)
  | .movv => (inst, (s.assign inst.dest inst.src1).next)
  | .movr => (inst, (s.assign inst.dest (s.reg p inst.src1)).next)
  | .movir => (inst,
      (if s.indexed then s.assign inst.dest (s.regm s.index) else s).next)
  | .movri => (inst,
      (if s.indexed then s.assign s.index (s.regm inst.dest) else s).next)
  | .addr => (inst,
      (s.assign inst.dest (s.reg p inst.src1 + s.regm inst.src2)).next)
  | .subr => (inst,
      (s.assign inst.dest (s.regm inst.src2 - s.reg p inst.src1)).next)
  | .lorr => (inst,
      (s.assign inst.dest (s.regm inst.src2 ||| s.reg p inst.src1)).next)
  | .andr => (inst,
      (s.assign inst.dest (s.regm inst.src2 &&& s.reg p inst.src1)).next)
  | .xorr => (inst,
      (s.assign inst.dest (s.regm inst.src2 ^^^ s.reg p inst.src1)).next)
  | .lsr => (inst, (s.assign inst.dest
      (p.left (s.regm inst.src2) (s.reg p inst.src1))).next)
  | .rsr => (inst, (s.assign inst.dest
      (p.right (s.regm inst.src2) (s.reg p inst.src1))).next)
  | .addv => (inst, (s.assign inst.dest (s.regm inst.src2 + inst.src1)).next)
  | .subv => (inst, (s.assign inst.dest (s.regm inst.src2 - inst.src1)).next)
  | .lorv => (inst, (s.assign inst.dest (s.regm inst.src2 ||| inst.src1)).next)
  | .andv => (inst, (s.assign inst.dest (s.regm inst.src2 &&& inst.src1)).next)
  | .xorv => (inst, (s.assign inst.dest (s.regm inst.src2 ^^^ inst.src1)).next)
  | .lsv => (inst,
      (s.assign inst.dest (p.left (s.regm inst.src2) inst.src1)).next)
  | .rsv => (inst,
      (s.assign inst.dest (p.right (s.regm inst.src2) inst.src1)).next)
  | .wdog => ({ inst with number := inst.number + 1 }, s.next)
  | .jmp => (inst, s.branch true inst.src1)
  | .beq => (inst, s.branch (s.status PsEQ) inst.src1)
  | .bne => (inst, s.branch (!s.status PsEQ) inst.src1)
  | .blt => (inst, s.branch (s.status PsLT) inst.src1)
  | .bgt => (inst, s.branch (s.status PsGT) inst.src1)
  | .ble => (inst, s.branch (s.status PsEQ || s.status PsLT) inst.src1)
  | .bge => (inst, s.branch (s.status PsEQ || s.status PsGT) inst.src1)
  | .bcr => (inst, s.branch (s.status PsCR) inst.src1)

/-- `Execute()`. A number that is no op-code does nothing. -/
def execute (p : Platform) (inst : Instruction) (s : Emu) :
    Instruction × Emu :=
  match idNumber inst.number with
  | some id => executeCase p inst s id
  | none => (inst, s)

/-! ## What the table promises -/

/-- The fields that the entry of the op-code declares are the same. -/
def SameDeclared (inst inst' : Instruction) : Prop :=
  inst'.number = inst.number ∧
  ∀ o, opCode inst.number = some o →
    (o.src1 ≠ .nothing → inst'.src1 = inst.src1) ∧
    (o.src2 ≠ .nothing → inst'.src2 = inst.src2) ∧
    (o.dest ≠ .nothing → inst'.dest = inst.dest)

structure MatchesTable (p : Platform) (inst : Instruction) (s : Emu) :
    Prop where
  fields : ∀ inst', SameDeclared inst inst' →
    (execute p inst' s).2 = (execute p inst s).2
  written : ∀ r, (execute p inst s).2.regm r ≠ s.regm r →
    ∃ o, opCode inst.number = some o ∧ o.dest = .register ∧ r = inst.dest
  unchanged : (execute p inst s).1 = inst

/-- No watch dog, and no `MOVRI` that can move anything. -/
def InTable (inst : Instruction) (s : Emu) : Prop :=
  inst.number ≠ IdNumber.wdog.number ∧
  (inst.number = IdNumber.movri.number →
    s.indexed = false ∨ ∀ r r', s.regm r = s.regm r')

section Table

variable {p : Platform} {inst inst' : Instruction} {s : Emu} {id : IdNumber}

theorem execute_some (hid : idNumber inst.number = some id) :
    execute p inst s = executeCase p inst s id := by
  unfold execute
  rw [hid]

theorem execute_none (hid : idNumber inst.number = none) :
    execute p inst s = (inst, s) := by
  unfold execute
  rw [hid]

@[simp] theorem next_regm : s.next.regm = s.regm := rfl

@[simp] theorem wait_regm (value : BitVec 32) (r : BitVec 8)
    (done : BitVec 32 → Bool) : (s.wait value r done).regm = s.regm := by
  unfold Emu.wait
  simp only []
  split <;> split <;> rfl

@[simp] theorem branch_regm (taken : Bool) (address : BitVec 32) :
    (s.branch taken address).regm = s.regm := by
  unfold Emu.branch
  split <;> rfl

theorem assign_regm (r r' : BitVec 8) (v : BitVec 32) :
    (s.assign r' v).regm r = if r = r' then v else s.regm r := rfl

theorem executeCase_fields (hid : id ≠ .movri)
    (hnumber : inst.number = id.number) (h : SameDeclared inst inst') :
    (executeCase p inst' s id).2 = (executeCase p inst s id).2 := by
  obtain ⟨-, hfields⟩ := h
  rw [hnumber] at hfields
  cases id with
  | movri => exact absurd rfl hid
  | _ =>
    have hsame := hfields _ rfl
    simp_all [executeCase]

theorem executeCase_written (hid : id ≠ .movri)
    (hnumber : inst.number = id.number) {r : BitVec 8}
    (hwritten : (executeCase p inst s id).2.regm r ≠ s.regm r) :
    ∃ o, opCode inst.number = some o ∧ o.dest = .register ∧ r = inst.dest := by
  have hdest : ∀ v, (s.assign inst.dest v).next.regm r ≠ s.regm r →
      r = inst.dest := by
    intro v hne
    rw [next_regm, assign_regm] at hne
    by_cases hr : r = inst.dest
    · exact hr
    · rw [if_neg hr] at hne
      exact absurd rfl hne
  rw [hnumber]
  cases id with
  | movri => exact absurd rfl hid
  | halt | noop | int | weqv | weqr | wrlv | wrlr | worv | worr | wdog | jmp
  | beq | bne | blt | bgt | ble | bge | bcr =>
    simp [executeCase] at hwritten
  | movir =>
    refine ⟨_, rfl, rfl, ?_⟩
    cases hindexed : s.indexed with
    | true => exact hdest _ (by simpa [executeCase, hindexed] using hwritten)
    | false => simp [executeCase, hindexed] at hwritten
  | _ => exact ⟨_, rfl, rfl, hdest _ hwritten⟩

theorem executeCase_unchanged (hid : id ≠ .wdog) :
    (executeCase p inst s id).1 = inst := by
  cases id with
  | wdog => exact absurd rfl hid
  | _ => rfl

theorem movri_idle (hid : idNumber inst.number = some .movri)
    (hidle : s.indexed = false) : execute p inst s = (inst, s.next) := by
  rw [execute_some hid]
  simp [executeCase, hidle]

theorem movri_moves (hid : idNumber inst.number = some .movri)
    (hindexed : s.indexed = true) :
    execute p inst s = (inst, (s.assign s.index (s.regm inst.dest)).next) := by
  rw [execute_some hid]
  simp [executeCase, hindexed]

theorem inTable_of_matchesTable (h : MatchesTable p inst s) :
    InTable inst s := by
  refine ⟨fun hwdog => ?_, fun hmovri => ?_⟩
  · have hid : idNumber inst.number = some .wdog := by
      rw [hwdog, idNumber_number]
    have hsame := h.unchanged
    rw [execute_some hid] at hsame
    have hnumber := congrArg Instruction.number hsame
    simp [executeCase, hwdog, IdNumber.number] at hnumber
  · have hid : ∀ d, idNumber { inst with dest := d }.number = some .movri := by
      intro d
      rw [hmovri, idNumber_number]
    cases hindexed : s.indexed with
    | false => exact .inl rfl
    | true =>
      have hread : ∀ r, s.regm r = s.regm inst.dest := by
        intro r
        have hdeclared : SameDeclared inst { inst with dest := r } := by
          refine ⟨rfl, fun o ho => ?_⟩
          rw [hmovri] at ho
          injection ho with ho
          subst ho
          simp
        have hsame := h.fields _ hdeclared
        rw [movri_moves (hid r) hindexed,
          movri_moves (hid inst.dest) hindexed] at hsame
        have hvalue := congrFun (congrArg Emu.regm hsame) s.index
        simpa [assign_regm] using hvalue
      exact .inr fun r r' => (hread r).trans (hread r').symm

theorem matchesTable_of_inTable (h : InTable inst s) :
    MatchesTable p inst s := by
  obtain ⟨hwdog, hmovri⟩ := h
  cases hid : idNumber inst.number with
  | none =>
    exact {
      fields := fun inst' hsame => by
        have hid' : idNumber inst'.number = none := by rw [hsame.1, hid]
        rw [execute_none hid, execute_none hid']
      written := fun r hwritten => by
        rw [execute_none hid] at hwritten
        exact absurd rfl hwritten
      unchanged := by rw [execute_none hid] }
  | some id =>
    have hnumber := number_of_idNumber hid
    have hneWdog : id ≠ .wdog := by
      rintro rfl
      exact hwdog hnumber
    by_cases hneMovri : id = .movri
    · subst hneMovri
      have hid' : ∀ inst', SameDeclared inst inst' →
          idNumber inst'.number = some .movri := by
        intro inst' hsame
        rw [hsame.1, hid]
      cases hindexed : s.indexed with
      | false =>
        exact {
          fields := fun inst' hsame => by
            rw [movri_idle hid hindexed,
              movri_idle (hid' inst' hsame) hindexed]
          written := fun r hwritten => by
            rw [movri_idle hid hindexed] at hwritten
            exact absurd rfl hwritten
          unchanged := by rw [movri_idle hid hindexed] }
      | true =>
        have hequal : ∀ r r', s.regm r = s.regm r' := by
          rcases hmovri hnumber with hidle | hequal
          · rw [hindexed] at hidle
            cases hidle
          · exact hequal
        exact {
          fields := fun inst' hsame => by
            rw [movri_moves hid hindexed,
              movri_moves (hid' inst' hsame) hindexed,
              hequal inst'.dest inst.dest]
          written := fun r hwritten => by
            rw [movri_moves hid hindexed, next_regm, assign_regm,
              hequal inst.dest r, ite_self] at hwritten
            exact absurd rfl hwritten
          unchanged := by rw [movri_moves hid hindexed] }
    · exact {
        fields := fun inst' hsame => by
          have hid' : idNumber inst'.number = some id := by
            rw [hsame.1, hid]
          rw [execute_some hid, execute_some hid']
          exact executeCase_fields hneMovri hnumber hsame
        written := fun r hwritten => by
          rw [execute_some hid] at hwritten
          exact executeCase_written hneMovri hnumber hwritten
        unchanged := by
          rw [execute_some hid]
          exact executeCase_unchanged hneWdog }

end Table

/-! ## Runs of a program -/

/-- A loaded program and the module it runs on. -/
structure Emulation where
  loadAddress : BitVec 32
  program : List Instruction
  machine : Emu

/-- The place in the program that `Pc` points to, if it is inside. -/
def Emulation.slot (s : Emulation) : Option Nat :=
  let pc := (s.machine.pc - s.loadAddress).toInt
  if 0 ≤ pc ∧ pc < s.program.length then some pc.toNat else none

inductive EmuEvent
  | executes (inst : Instruction)
  /-- `Pc` is outside the program: whatever is found there is executed. -/
  | strays (inst : Instruction)
  /-- The operator changes registers or `Pc`. -/
  | edits

inductive EmuStep (p : Platform) : Emulation → EmuEvent → Emulation → Prop
  | executes {s : Emulation} {i : Nat} {inst : Instruction} :
      s.slot = some i → s.program[i]? = some inst →
      EmuStep p s (.executes inst)
        { s with
          program := s.program.set i (execute p inst s.machine).1
          machine := (execute p inst s.machine).2 }
  | strays {s : Emulation} (inst : Instruction) : s.slot = none →
      EmuStep p s (.strays inst)
        { s with machine := (execute p inst s.machine).2 }
  | edits {s : Emulation} (machine : Emu) :
      EmuStep p s .edits { s with machine }

def emuSystem (p : Platform) : System Emulation EmuEvent where
  init _ := True
  step := EmuStep p

def EmuEvent.watchDog : EmuEvent → Prop
  | .executes inst => inst.number = IdNumber.wdog.number
  | .strays _ | .edits => False

section Runs

variable {p : Platform} {s s' : Emulation} {e : EmuEvent} {es : List EmuEvent}
  {inst : Instruction} {i : Nat}

theorem execute_unchanged {m : Emu} (h : inst.number ≠ IdNumber.wdog.number) :
    (execute p inst m).1 = inst := by
  cases hid : idNumber inst.number with
  | none => rw [execute_none hid]
  | some id =>
    rw [execute_some hid]
    refine executeCase_unchanged ?_
    rintro rfl
    exact h (number_of_idNumber hid)

theorem step_program (h : EmuStep p s e s') (he : ¬ e.watchDog) :
    s'.program = s.program := by
  cases h with
  | executes hslot hinst =>
    show s.program.set _ _ = s.program
    rw [execute_unchanged he]
    obtain ⟨hlt, rfl⟩ := List.getElem?_eq_some_iff.mp hinst
    exact List.set_getElem_self hlt
  | strays => rfl
  | edits => rfl

theorem step_keeps (hinst : s.program[i]? = some inst)
    (hnumber : inst.number ≠ IdNumber.wdog.number) (h : EmuStep p s e s') :
    s'.program[i]? = some inst := by
  cases h with
  | executes hslot hfetched =>
    rename_i j fetched
    show (s.program.set j _)[i]? = _
    by_cases hij : j = i
    · subst hij
      rw [hinst] at hfetched
      injection hfetched with hfetched
      subst hfetched
      rw [execute_unchanged hnumber]
      obtain ⟨hlt, rfl⟩ := List.getElem?_eq_some_iff.mp hinst
      rw [List.set_getElem_self hlt]
      exact hinst
    · rw [List.getElem?_set_ne hij]
      exact hinst
  | strays => exact hinst
  | edits => exact hinst

theorem run_keeps (h : (emuSystem p).Run s es s')
    (hinst : s.program[i]? = some inst)
    (hnumber : inst.number ≠ IdNumber.wdog.number) :
    s'.program[i]? = some inst := by
  induction h with
  | nil => exact hinst
  | cons hstep _ ih => exact ih (step_keeps hinst hnumber hstep)

theorem watchDog_changes {s'' : Emulation} (hstep : EmuStep p s e s')
    (he : e.watchDog) (hrest : (emuSystem p).Run s' es s'') :
    s''.program ≠ s.program := by
  cases hstep with
  | executes hslot hinst =>
    rename_i i inst
    have hid : idNumber inst.number = some .wdog := by
      rw [show inst.number = _ from he, idNumber_number]
    have hcounted : (execute p inst s.machine).1 =
        { inst with number := inst.number + 1 } := by
      rw [execute_some hid]
      rfl
    obtain ⟨hlt, -⟩ := List.getElem?_eq_some_iff.mp hinst
    have hset : (s.program.set i (execute p inst s.machine).1)[i]? =
        some { inst with number := inst.number + 1 } := by
      rw [List.getElem?_set_self hlt, hcounted]
    have hwas : inst.number = IdNumber.wdog.number := he
    have hother : inst.number + 1 ≠ IdNumber.wdog.number := by
      rw [hwas]
      decide
    have hkept := run_keeps hrest hset hother
    intro hsame
    rw [hsame, hinst] at hkept
    injection hkept with hkept
    have hnumber := congrArg Instruction.number hkept
    simp [hwas, IdNumber.number] at hnumber
  | strays => exact absurd he id
  | edits => exact absurd he id

theorem run_program_iff (h : (emuSystem p).Run s es s') :
    s'.program = s.program ↔ ∀ e ∈ es, ¬ e.watchDog := by
  induction h with
  | nil => simp
  | cons hstep hrest ih =>
    rename_i s s' s'' e es
    constructor
    · intro hsame
      have hhead : ¬ e.watchDog := fun he =>
        watchDog_changes hstep he hrest hsame
      have htail := ih.mp (hsame.trans (step_program hstep hhead).symm)
      intro e' he'
      rcases List.mem_cons.mp he' with rfl | hmem
      · exact hhead
      · exact htail e' hmem
    · intro hall
      have htail := ih.mpr fun e' he' => hall e' (List.mem_cons_of_mem _ he')
      exact htail.trans (step_program hstep (hall e List.mem_cons_self))

end Runs

/-- Exactly which steps are as the table says, and which runs leave the
program as it was loaded. -/
theorem execute_matches_table (p : Platform) :
    (∀ inst s, MatchesTable p inst s ↔ InTable inst s) ∧
    ∀ s es s', (emuSystem p).Run s es s' →
      (s'.program = s.program ↔ ∀ e ∈ es, ¬ EmuEvent.watchDog e) :=
  ⟨fun _ _ => ⟨inTable_of_matchesTable, matchesTable_of_inTable⟩,
    fun _ _ _ => run_program_iff⟩

/-- Everything C leaves open is zero. -/
def zeroPlatform : Platform where
  outside _ _ := 0
  shl _ _ := 0
  shr _ _ := 0

/-- `ADDV 1,GR3,GR2` alone at address 16. -/
def addProgram : Emulation where
  loadAddress := 16
  program := [{ number := 0xe6, src1 := 1, src2 := 3, dest := 2 }]
  machine := { regm := fun _ => 7, pc := 16 }

theorem execute_matches_table_addition :
    (∀ inst ∈ addProgram.program,
      MatchesTable zeroPlatform inst addProgram.machine) ∧
    ∃ inst s', (emuSystem zeroPlatform).Run addProgram [.executes inst] s' ∧
      s'.machine.regm 2 = 8 ∧ s'.program = addProgram.program := by
  refine ⟨?_, _, _, .cons (.executes rfl rfl) (.nil _), by decide, ?_⟩
  · intro inst hinst
    rw [List.mem_singleton.mp hinst]
    exact ((execute_matches_table zeroPlatform).1 _ _).mpr
      ⟨by decide, nofun⟩
  · refine ((execute_matches_table zeroPlatform).2 _ _ _
      (.cons (.executes rfl rfl) (.nil _))).mpr ?_
    intro e he
    rw [List.mem_singleton.mp he]
    show (0xe6#8) ≠ IdNumber.wdog.number
    decide

/-- The watch dog at address 0. -/
theorem not_execute_matches_table :
    ¬ MatchesTable zeroPlatform { number := 0x34, src1 := 4 }
      { regm := fun _ => 0 } := by
  intro h
  have hnumber := congrArg Instruction.number h.unchanged
  revert hnumber
  decide

end Coht.Mttn
