import Mathlib.Logic.Function.Basic
import Coht.Lib.FirstFit
import Coht.Mttn.Object

/-!
# Loading tasks into program memory (`libmtt.c`, `mtt-skel.c`)

The module runs up to sixteen tasks. The driver keeps a block for each of
them, with the name of the program in it; a slot without a name is free. The
library gives a slot `max_size` instructions of program memory and a program
as many slots in a row as it thinks it needs. It looks for them from the left.

`AllFit` is the condition under which a sequence of loads and unloads keeps
the programs apart. One slot has to be enough: the load address is that of the
last slot found and not of the first, so whatever is longer than a slot
reaches over the end of the last one. And where the row ends before enough
slots were found, the library loads into those there are.
-/

namespace Coht.Mttn

open Coht.Lib

/-! ## The driver -/

/-- `MttDrvrTBF`, the bits from 0x01 to 0x20. -/
inductive TBF
  | loadAddress
  | instructionCount
  | pcStart
  | pcOffset
  | pc
  | name
deriving DecidableEq

def TBF.all : List TBF :=
  [.loadAddress, .instructionCount, .pcStart, .pcOffset, .pc, .name]

/-- `struct mtt_task`, without its lock. -/
structure Task where
  loadAddress : BitVec 32 := 0
  instructionCount : BitVec 32 := 0
  pcStart : BitVec 32 := 0
  pcOffset : BitVec 32 := 0
  pc : BitVec 32 := 0
  name : List Char := []

/-- The registers of a task in the module. -/
structure TaskBlock where
  pc : BitVec 32 := 0
  pcOffset : BitVec 32 := 0

structure TaskBuf where
  task : Nat
  fields : List TBF
  loadAddress : BitVec 32
  instructionCount : BitVec 32
  pcStart : BitVec 32
  controlBlock : TaskBlock
  name : List Char

/-- The library's file, the driver's tasks and the module. Tasks are numbered
from one. -/
structure Machine where
  mtt : Bool
  tasks : Nat → Task
  map : Nat → TaskBlock
  programMem : Nat → Instruction
  stopTasks : List Nat := []

def setTcbField (b : TaskBuf) (s : Machine) (action : TBF) : Machine :=
  let localtask := s.tasks b.task
  let store := fun t => Function.update s.tasks b.task t
  let io := fun k => Function.update s.map b.task k
  match action with
  | .loadAddress =>
    { s with tasks := store { localtask with loadAddress := b.loadAddress } }
  | .instructionCount =>
    { s with tasks :=
        store { localtask with instructionCount := b.instructionCount } }
  | .pcStart => { s with tasks := store { localtask with pcStart := b.pcStart } }
  | .pcOffset =>
    { s with
      tasks := store { localtask with pcOffset := b.controlBlock.pcOffset }
      map := io { s.map b.task with pcOffset := b.controlBlock.pcOffset } }
  | .pc =>
    { s with
      tasks := store { localtask with pc := b.controlBlock.pc }
      map := io { s.map b.task with pc := b.controlBlock.pc } }
  | .name => { s with tasks := store { localtask with name := b.name } }

/-- `MTT_IOCSTCB`. -/
def setTcb (s : Machine) (b : TaskBuf) : Machine :=
  (TBF.all.filter fun f => f ∈ b.fields).foldl (setTcbField b) s

/-- `MTT_IOCGTCB`. -/
def getTcb (s : Machine) (n : Nat) : TaskBuf where
  task := n
  fields := TBF.all
  loadAddress := (s.tasks n).loadAddress
  instructionCount := (s.tasks n).instructionCount
  pcStart := (s.tasks n).pcStart
  controlBlock := s.map n
  name := (s.tasks n).name

/-- `MTT_IOCSTASKS_STOP`. -/
def stopTask (s : Machine) (tmsk : Nat) : Machine :=
  { s with stopTasks := tmsk :: s.stopTasks }

/-- `MTT_IOCSPROGRAM`. -/
def setProgram (s : Machine) (prog : ProgramBuf) : Machine :=
  let base := prog.loadAddress.toNat
  { s with programMem := fun a =>
      if base ≤ a ∧ a < base + prog.instructionCount.toNat then
        prog.program (a - base)
      else s.programMem a }

/-! ## The library -/

def TASKS : Nat := 16
def MIN_NAME_SIZE : Nat := 3
def MAX_NAME_SIZE : Nat := 32

/-- The slots the library uses, and how many instructions it puts in one. -/
structure TaskRange where
  first : Nat
  last : Nat
  maxSize : Nat
  first_pos : 1 ≤ first
  first_le : first ≤ last
  last_le : last ≤ TASKS
  size_pos : 0 < maxSize
  size_lt : maxSize < 2 ^ 31

def setTaskRange (first last isize : Nat) (hpos : 0 < isize)
    (hint : isize < 2 ^ 31) : Option TaskRange :=
  if h : first < 1 ∨ first > TASKS ∨ last ≤ first ∨ last > TASKS then none
  else some ⟨first, last, isize, by omega, by omega, by omega, hpos, hint⟩

inductive TaskError
  | none
  | init
  | name
  | norelo
  | empty
  | isload
  | nomem
deriving DecidableEq

variable (r : TaskRange)

def slots : List Nat := List.range' r.first (r.last + 1 - r.first)

def nameChar (c : Char) : Bool := c = '_' || c = '.' || c.isAlphanum

/-- The rules for a task name. A name they let through is shorter than the
field for it, so it is copied and compared whole. -/
def isTaskName : List Char → Bool
  | [] => false
  | c :: cs =>
    decide (cs.length + 1 < MAX_NAME_SIZE) &&
      decide (c :: cs ≠ ['A', 'L', 'L']) && c.isAlpha && cs.all nameChar &&
      decide (MIN_NAME_SIZE ≤ cs.length + 1)

/-- What `MttLibLoadTaskObject()` looks at before it looks for room. -/
def refusal (s : Machine) (name : Option (List Char)) (pbf : ProgramBuf) :
    TaskError :=
  if s.mtt = false then .init
  else if isTaskName (name.getD []) = false then .name
  else if pbf.loadAddress ≠ 0 then .norelo
  else if pbf.instructionCount = 0 then .empty
  else if (slots r).any fun n => (getTcb s n).name = name.getD [] then .isload
  else .none

/-- `tcnt`. -/
def taskCount (pbf : ProgramBuf) : Nat :=
  pbf.instructionCount.toNat / (r.maxSize + 1) + 1

/-- The search for free slots: `tn` is `last`, `ftn` is `start` and `tval` is
`count`. A free slot is stopped on the way. -/
def scanSlots (tcnt : Nat) : List Nat → Machine → Search → Machine × Search
  | [], s, acc => (s, acc)
  | tn :: rest, s, acc =>
    if (getTcb s tn).name.length = 0 then
      let s := stopTask s (1 <<< (tn - 1))
      let ftn := if acc.count = 0 then tn else acc.start
      if tcnt ≤ acc.count + 1 then (s, ⟨tn, ftn, acc.count + 1⟩)
      else scanSlots tcnt rest s ⟨tn, ftn, acc.count + 1⟩
    else scanSlots tcnt rest s ⟨tn, acc.start, 0⟩

def storeTask (name : List Char) (pbf : ProgramBuf) (s : Machine) (i : Nat) :
    Machine :=
  setTcb s
    { task := i
      fields := TBF.all
      loadAddress := pbf.loadAddress
      instructionCount := pbf.instructionCount
      pcStart := 0
      controlBlock := { pc := 0, pcOffset := pbf.loadAddress }
      name := name }

/-- What `MttLibLoadTaskObject()` does with a program it does not refuse. -/
def placeTask (s : Machine) (name : List Char) (pbf : ProgramBuf) :
    TaskError × Machine :=
  let found := scanSlots (taskCount r pbf) (slots r) s {}
  if found.2.count = 0 then (.nomem, found.1)
  else
    let pbf := { pbf with
      loadAddress := BitVec.ofNat 32 (r.maxSize * (found.2.last - 1)) }
    (.none, (List.range' found.2.start found.2.count).foldl
      (storeTask name pbf) (setProgram found.1 pbf))

def mttLibLoadTaskObject (s : Machine) (name : Option (List Char))
    (pbf : ProgramBuf) : TaskError × Machine :=
  match refusal r s name pbf with
  | .none => placeTask r s (name.getD []) pbf
  | e => (e, s)

def unloadSlot (name : List Char) (s : Machine) (tn : Nat) : Machine :=
  let tbuf := getTcb s tn
  if name = ['A', 'L', 'L'] ∨ name = tbuf.name then
    setTcb (stopTask s (1 <<< (tn - 1))) { tbuf with name := [] }
  else s

def mttLibUnloadTask (s : Machine) (name : List Char) : TaskError × Machine :=
  if s.mtt = false then (.init, s)
  else (.none, (slots r).foldl (unloadSlot name) s)

/-- The calls, and the module running its tasks between two of them. -/
inductive Call
  | load (name : Option (List Char)) (pbf : ProgramBuf)
  | unload (name : List Char)
  | execute (map : Nat → TaskBlock)

def call (s : Machine) : Call → TaskError × Machine
  | .load name pbf => mttLibLoadTaskObject r s name pbf
  | .unload name => mttLibUnloadTask r s name
  | .execute map => (.none, { s with map := map })

/-! ## What a sequence of calls is to keep -/

/-- Slot `n` belongs to the task `name`. -/
def Carries (s : Machine) (name : List Char) (n : Nat) : Prop :=
  r.first ≤ n ∧ n ≤ r.last ∧ (s.tasks n).name = name ∧ name ≠ []

def loadStart (s : Machine) (n : Nat) : Nat := (s.tasks n).loadAddress.toNat

def loadEnd (s : Machine) (n : Nat) : Nat :=
  (s.tasks n).loadAddress.toNat + (s.tasks n).instructionCount.toNat

structure Allocated (s : Machine) : Prop where
  disjoint : ∀ name name' n n', Carries r s name n → Carries r s name' n' →
    name ≠ name' →
    loadEnd s n ≤ loadStart s n' ∨ loadEnd s n' ≤ loadStart s n
  inside : ∀ name n, Carries r s name n →
    ∃ f l, (∀ i, Carries r s name i ↔ f ≤ i ∧ i ≤ l) ∧
      ∀ i, Carries r s name i →
        r.maxSize * (f - 1) ≤ loadStart s i ∧ loadEnd s i ≤ r.maxSize * l

def isFree (s : Machine) (n : Nat) : Bool := (getTcb s n).name.length = 0

/-- There are free slots in a row that hold `count` instructions. -/
def Room (s : Machine) (count : Nat) : Prop :=
  ∃ f k, r.first ≤ f ∧ f + k ≤ r.last + 1 ∧ FreeRun (isFree s) f k ∧
    count ≤ k * r.maxSize

/-- What is to hold of one call. -/
structure CallOk (s : Machine) (c : Call) : Prop where
  allocated : Allocated r (call r s c).2
  refused : ∀ name pbf, c = .load name pbf →
    ¬ Room r s pbf.instructionCount.toNat →
    (call r s c).1 ≠ .none ∧
      (call r s c).2.programMem = s.programMem ∧
      (call r s c).2.tasks = s.tasks ∧ (call r s c).2.map = s.map

def AllOk (s : Machine) : List Call → Prop
  | [] => True
  | c :: cs => CallOk r s c ∧ AllOk (call r s c).2 cs

/-- The load is refused; or there is no room for as many slots as the library
counts and the last slot is taken; or the program fits in one slot and the
first free one has an address of 32 bits. -/
def FitsProgram (s : Machine) : Call → Prop
  | .load name pbf =>
    refusal r s name pbf ≠ .none ∨
    NoFit (isFree s) (taskCount r pbf) r.first (r.last + 1) ∨
    (pbf.instructionCount.toNat ≤ r.maxSize ∧
      ∀ p, r.first ≤ p → p ≤ r.last → isFree s p = true →
        (∀ q, r.first ≤ q → q < p → isFree s q = false) →
        r.maxSize * (p - 1) < 2 ^ 32)
  | _ => True

def AllFit (s : Machine) : List Call → Prop
  | [] => True
  | c :: cs => FitsProgram r s c ∧ AllFit (call r s c).2 cs

def NothingLoaded (s : Machine) : Prop := ∀ n, (s.tasks n).name = []

section

variable {r} {s : Machine} {name : List Char} {pbf : ProgramBuf}

/-! ## One spec lemma for each routine -/

def TaskBuf.stored (b : TaskBuf) : Task where
  loadAddress := b.loadAddress
  instructionCount := b.instructionCount
  pcStart := b.pcStart
  pcOffset := b.controlBlock.pcOffset
  pc := b.controlBlock.pc
  name := b.name

theorem setTcb_all {b : TaskBuf} (h : b.fields = TBF.all) :
    setTcb s b = { s with
      tasks := Function.update s.tasks b.task b.stored
      map := Function.update s.map b.task b.controlBlock } := by
  have hall : (TBF.all.filter fun f => f ∈ b.fields) = TBF.all := by
    rw [h]
    rfl
  unfold setTcb
  rw [hall]
  simp [TBF.all, setTcbField, TaskBuf.stored]

def taskOf (name : List Char) (pbf : ProgramBuf) : Task where
  loadAddress := pbf.loadAddress
  instructionCount := pbf.instructionCount
  pcOffset := pbf.loadAddress
  name := name

theorem storeTask_eq (i : Nat) :
    (storeTask name pbf s i).tasks =
      Function.update s.tasks i (taskOf name pbf) := by
  unfold storeTask
  rw [setTcb_all rfl]
  rfl

theorem storeTasks_tasks (f k n : Nat) :
    (((List.range' f k).foldl (storeTask name pbf) s).tasks n) =
      if f ≤ n ∧ n < f + k then taskOf name pbf else s.tasks n := by
  induction k generalizing f s with
  | zero =>
    have hno : ¬ (f ≤ n ∧ n < f + 0) := by omega
    rw [if_neg hno]
    rfl
  | succ k ih =>
    rw [List.range'_succ, List.foldl_cons, ih, storeTask_eq]
    by_cases hn : n = f
    · subst hn
      rw [if_neg (by omega), if_pos (by omega), Function.update_self]
    · rw [Function.update_of_ne hn]
      by_cases hin : f + 1 ≤ n ∧ n < f + 1 + k
      · rw [if_pos hin, if_pos (by omega)]
      · rw [if_neg hin, if_neg (by omega)]

theorem scanSlots_eq (tcnt : Nat) (ns : List Nat) (s : Machine)
    (acc : Search) :
    ∃ stops, scanSlots tcnt ns s acc =
      ({ s with stopTasks := stops }, search (isFree s) tcnt ns acc) := by
  induction ns generalizing s acc with
  | nil => exact ⟨s.stopTasks, rfl⟩
  | cons tn rest ih =>
    rw [scanSlots, search]
    by_cases hfree : (getTcb s tn).name.length = 0
    · have hfree' : isFree s tn = true := decide_eq_true hfree
      rw [if_pos hfree, if_pos hfree']
      dsimp only
      split
      · exact ⟨_, rfl⟩
      · exact ih _ _
    · have hfree' : ¬ isFree s tn = true := by
        unfold isFree
        rw [decide_eq_true_iff]
        exact hfree
      rw [if_neg hfree, if_neg hfree']
      exact ih _ _

theorem slots_length_pos (r : TaskRange) : 0 < r.last + 1 - r.first := by
  have := r.first_le
  omega

theorem mem_slots {n : Nat} : n ∈ slots r ↔ r.first ≤ n ∧ n ≤ r.last := by
  have := r.first_le
  rw [slots, List.mem_range'_1]
  omega

theorem searchSlots_spec (r : TaskRange) (s : Machine) {tcnt : Nat}
    (htcnt : 0 < tcnt) :
    ((search (isFree s) tcnt (slots r) {}).count = 0 ∧
        NoFit (isFree s) tcnt r.first (r.last + 1)) ∨
      Found (isFree s) tcnt r.first (r.last + 1)
        (search (isFree s) tcnt (slots r) {}) := by
  have hrow : r.first + (r.last + 1 - r.first) = r.last + 1 := by
    have := r.first_le
    omega
  have hspec := search_spec (isFree s) r.first htcnt (slots_length_pos r)
  rw [hrow] at hspec
  exact hspec

def relocated (r : TaskRange) (pbf : ProgramBuf) (q : Search) : ProgramBuf :=
  { pbf with loadAddress := BitVec.ofNat 32 (r.maxSize * (q.last - 1)) }

theorem placeTask_cases (s : Machine) (name : List Char) (pbf : ProgramBuf) :
    (NoFit (isFree s) (taskCount r pbf) r.first (r.last + 1) ∧
      ∃ stops, placeTask r s name pbf =
        (.nomem, { s with stopTasks := stops })) ∨
    ∃ q, Found (isFree s) (taskCount r pbf) r.first (r.last + 1) q ∧
      (placeTask r s name pbf).1 = .none ∧
      ∀ n, (placeTask r s name pbf).2.tasks n =
        if q.start ≤ n ∧ n ≤ q.last then taskOf name (relocated r pbf q)
        else s.tasks n := by
  obtain ⟨stops, hscan⟩ := scanSlots_eq (taskCount r pbf) (slots r) s {}
  have hspec : _ ∨ Found _ (taskCount r pbf) _ _ _ :=
    searchSlots_spec r s (Nat.succ_pos _)
  unfold placeTask
  rw [hscan]
  generalize search (isFree s) (taskCount r pbf) (slots r) {} = q at hspec
  dsimp only
  rcases hspec with ⟨hzero, hno⟩ | hfound
  · exact .inl ⟨hno, stops, if_pos hzero⟩
  · have hlast := hfound.last
    rw [if_neg (Nat.ne_of_gt hfound.pos)]
    refine .inr ⟨q, hfound, rfl, fun n => ?_⟩
    rw [storeTasks_tasks]
    have hiff : (q.start ≤ n ∧ n < q.start + q.count) ↔
        (q.start ≤ n ∧ n ≤ q.last) := by omega
    rw [if_congr hiff rfl rfl]
    rfl

def Kept (s s' : Machine) : Prop :=
  ∀ n, (s'.tasks n).name = [] ∨ s'.tasks n = s.tasks n

theorem Kept.trans {s₁ s₂ s₃ : Machine} (h : Kept s₁ s₂) (h' : Kept s₂ s₃) :
    Kept s₁ s₃ := by
  intro n
  rcases h' n with hnil | heq
  · exact .inl hnil
  · rcases h n with hnil | heq'
    · exact .inl (heq ▸ hnil)
    · exact .inr (heq.trans heq')

theorem unloadSlot_kept (s : Machine) (tn : Nat) :
    Kept s (unloadSlot name s tn) := by
  intro n
  unfold unloadSlot
  dsimp only
  split
  · rw [setTcb_all rfl]
    by_cases hn : n = tn
    · subst hn
      left
      simp [getTcb, TaskBuf.stored]
    · right
      exact Function.update_of_ne hn _ _
  · exact .inr rfl

theorem unloadSlots_kept (ns : List Nat) (s : Machine) :
    Kept s (ns.foldl (unloadSlot name) s) := by
  induction ns generalizing s with
  | nil => exact fun n => .inr rfl
  | cons tn ns ih => exact (unloadSlot_kept s tn).trans (ih _)

theorem mttLibUnloadTask_kept (s : Machine) :
    Kept s (mttLibUnloadTask r s name).2 := by
  unfold mttLibUnloadTask
  split
  · exact fun n => .inr rfl
  · exact unloadSlots_kept _ _

theorem load_of_refusal {name : Option (List Char)}
    (h : refusal r s name pbf ≠ .none) :
    mttLibLoadTaskObject r s name pbf = (refusal r s name pbf, s) := by
  unfold mttLibLoadTaskObject
  cases href : refusal r s name pbf with
  | none => exact absurd href h
  | init | name | norelo | empty | isload | nomem => rfl

theorem load_of_none {name : Option (List Char)}
    (h : refusal r s name pbf = .none) :
    mttLibLoadTaskObject r s name pbf =
      placeTask r s (name.getD []) pbf := by
  unfold mttLibLoadTaskObject
  rw [h]

structure Admitted (r : TaskRange) (s : Machine) (name : List Char) : Prop where
  named : name ≠ []
  absent : ∀ n, ¬ Carries r s name n

theorem admitted_of_refusal {name : Option (List Char)}
    (h : refusal r s name pbf = .none) : Admitted r s (name.getD []) := by
  unfold refusal at h
  split at h
  · cases h
  split at h
  · cases h
  rename_i hname
  split at h
  · cases h
  split at h
  · cases h
  split at h
  · cases h
  rename_i hload
  refine ⟨?_, ?_⟩
  · intro hnil
    rw [hnil] at hname
    exact hname rfl
  · rintro n ⟨hlo, hhi, hn, _⟩
    apply hload
    rw [List.any_eq_true]
    exact ⟨n, mem_slots.mpr ⟨hlo, hhi⟩, decide_eq_true hn⟩

/-! ## Programs of one slot -/

structure OneSlot (r : TaskRange) (s : Machine) : Prop where
  start : ∀ name n, Carries r s name n → loadStart s n = r.maxSize * (n - 1)
  fits : ∀ name n, Carries r s name n → loadEnd s n ≤ r.maxSize * n
  unique : ∀ name n n', Carries r s name n → Carries r s name n' → n = n'

theorem OneSlot.before (h : OneSlot r s) {name name' : List Char} {n n' : Nat}
    (hn : Carries r s name n) (hn' : Carries r s name' n') (hlt : n < n') :
    loadEnd s n ≤ loadStart s n' := by
  calc loadEnd s n ≤ r.maxSize * n := h.fits name n hn
    _ ≤ r.maxSize * (n' - 1) := Nat.mul_le_mul_left _ (by omega)
    _ = loadStart s n' := (h.start name' n' hn').symm

theorem OneSlot.allocated (h : OneSlot r s) : Allocated r s where
  disjoint := by
    intro name name' n n' hn hn' hne
    rcases Nat.lt_trichotomy n n' with hlt | heq | hgt
    · exact .inl (h.before hn hn' hlt)
    · subst heq
      exact absurd (hn.2.2.1.symm.trans hn'.2.2.1) hne
    · exact .inr (h.before hn' hn hgt)
  inside := by
    intro name n hn
    refine ⟨n, n, fun i => ⟨fun hi => ?_, fun hi => ?_⟩, fun i hi => ?_⟩
    · rw [h.unique name i n hi hn]
      exact ⟨Nat.le_refl n, Nat.le_refl n⟩
    · rw [Nat.le_antisymm hi.2 hi.1]
      exact hn
    · rw [h.unique name i n hi hn]
      exact ⟨Nat.le_of_eq (h.start name n hn).symm, h.fits name n hn⟩

theorem OneSlot.nothing (hs : NothingLoaded s) : OneSlot r s := by
  have hno : ∀ name n, ¬ Carries r s name n := by
    rintro name n ⟨_, _, hname, hne⟩
    exact hne (hname.symm.trans (hs n))
  exact ⟨fun name n h => absurd h (hno name n),
    fun name n h => absurd h (hno name n),
    fun name n _ h => absurd h (hno name n)⟩

theorem Kept.carries {s s' : Machine} {name : List Char} {n : Nat}
    (h : Kept s s') (hn : Carries r s' name n) :
    Carries r s name n ∧ s'.tasks n = s.tasks n := by
  obtain ⟨hlo, hhi, hname, hne⟩ := hn
  rcases h n with hnil | heq
  · exact absurd (hname.symm.trans hnil) hne
  · exact ⟨⟨hlo, hhi, heq ▸ hname, hne⟩, heq⟩

theorem OneSlot.kept {s' : Machine} (h : OneSlot r s) (hk : Kept s s') :
    OneSlot r s' where
  start := by
    intro name n hn
    obtain ⟨hold, heq⟩ := hk.carries hn
    have hstart := h.start name n hold
    unfold loadStart at hstart ⊢
    rw [heq]
    exact hstart
  fits := by
    intro name n hn
    obtain ⟨hold, heq⟩ := hk.carries hn
    have hfits := h.fits name n hold
    unfold loadEnd at hfits ⊢
    rw [heq]
    exact hfits
  unique := by
    intro name n n' hn hn'
    exact h.unique name n n' (hk.carries hn).1 (hk.carries hn').1

structure TaskPlaced (r : TaskRange) (name : List Char) (pbf : ProgramBuf)
    (q : Search) (s s' : Machine) : Prop where
  found : Found (isFree s) (taskCount r pbf) r.first (r.last + 1) q
  tasks : ∀ n, s'.tasks n =
    if q.start ≤ n ∧ n ≤ q.last then taskOf name (relocated r pbf q)
    else s.tasks n

variable {q : Search} {s' : Machine}

theorem TaskPlaced.carries_new (h : TaskPlaced r name pbf q s s')
    (ha : Admitted r s name) (n : Nat) :
    Carries r s' name n ↔ q.start ≤ n ∧ n ≤ q.last := by
  have hlow := h.found.low
  have hhigh := h.found.high
  have hlast := h.found.last
  constructor
  · rintro ⟨hlo, hhi, hname, hne⟩
    by_cases hin : q.start ≤ n ∧ n ≤ q.last
    · exact hin
    · rw [h.tasks n, if_neg hin] at hname
      exact absurd ⟨hlo, hhi, hname, hne⟩ (ha.absent n)
  · intro hin
    refine ⟨by omega, by omega, ?_, ha.named⟩
    rw [h.tasks n, if_pos hin]
    rfl

theorem TaskPlaced.carries_old (h : TaskPlaced r name pbf q s s') {name' : List Char}
    {n : Nat} (hn : Carries r s' name' n) (hne : name' ≠ name) :
    Carries r s name' n ∧ s'.tasks n = s.tasks n := by
  obtain ⟨hlo, hhi, hname, hnil⟩ := hn
  by_cases hin : q.start ≤ n ∧ n ≤ q.last
  · rw [h.tasks n, if_pos hin] at hname
    exact absurd hname.symm hne
  · have heq : s'.tasks n = s.tasks n := by
      rw [h.tasks n, if_neg hin]
    exact ⟨⟨hlo, hhi, heq ▸ hname, hnil⟩, heq⟩

theorem TaskPlaced.start_new (h : TaskPlaced r name pbf q s s') {n : Nat}
    (hn : q.start ≤ n ∧ n ≤ q.last) :
    loadStart s' n = r.maxSize * (q.last - 1) % 2 ^ 32 := by
  unfold loadStart
  rw [h.tasks n, if_pos hn]
  exact BitVec.toNat_ofNat _ _

theorem TaskPlaced.end_new (h : TaskPlaced r name pbf q s s') {n : Nat}
    (hn : q.start ≤ n ∧ n ≤ q.last) :
    loadEnd s' n =
      r.maxSize * (q.last - 1) % 2 ^ 32 + pbf.instructionCount.toNat := by
  unfold loadEnd
  rw [h.tasks n, if_pos hn]
  exact congrArg (· + pbf.instructionCount.toNat) (BitVec.toNat_ofNat _ _)

theorem TaskPlaced.first_free (h : TaskPlaced r name pbf q s s')
    (hsmall : pbf.instructionCount.toNat ≤ r.maxSize) :
    q.start = q.last ∧ isFree s q.last = true ∧
      ∀ n, r.first ≤ n → n < q.last → isFree s n = false := by
  have hcount : taskCount r pbf = 1 := by
    unfold taskCount
    rw [Nat.div_eq_of_lt (by omega)]
  have hpos := h.found.pos
  have hle := h.found.le
  have hlast := h.found.last
  have hhigh := h.found.high
  have hone : q.count = 1 := by omega
  have heq : q.start = q.last := by omega
  refine ⟨heq, h.found.run q.last (by omega) (by omega), ?_⟩
  intro n hlo hlt
  refine Bool.eq_false_iff.mpr fun hfree => ?_
  have hle' : q.start ≤ n := by
    apply h.found.first n hlo (by omega)
    intro i hi hi'
    have hin : i = n := by omega
    rw [hin]
    exact hfree
  omega

theorem TaskPlaced.fits_iff (h : TaskPlaced r name pbf q s s') :
    (pbf.instructionCount.toNat ≤ r.maxSize ∧
      ∀ p, r.first ≤ p → p ≤ r.last → isFree s p = true →
        (∀ i, r.first ≤ i → i < p → isFree s i = false) →
        r.maxSize * (p - 1) < 2 ^ 32) ↔
    (pbf.instructionCount.toNat ≤ r.maxSize ∧
      r.maxSize * (q.last - 1) < 2 ^ 32) := by
  have hlow := h.found.low
  have hhigh := h.found.high
  have hlast := h.found.last
  have hpos := h.found.pos
  constructor
  · rintro ⟨hsmall, haddr⟩
    obtain ⟨_, hfree, hbefore⟩ := h.first_free hsmall
    exact ⟨hsmall, haddr q.last (by omega) (by omega) hfree hbefore⟩
  · rintro ⟨hsmall, haddr⟩
    refine ⟨hsmall, fun p hlo _ hfree hbefore => ?_⟩
    obtain ⟨heq, hfreeq, hbeforeq⟩ := h.first_free hsmall
    have hp : p = q.last := by
      rcases Nat.lt_trichotomy p q.last with hlt | heq | hgt
      · rw [hbeforeq p hlo hlt] at hfree
        cases hfree
      · exact heq
      · rw [hbefore q.last (by omega) hgt] at hfreeq
        cases hfreeq
    rw [hp]
    exact haddr

theorem TaskPlaced.oneSlot (h : TaskPlaced r name pbf q s s') (hs : OneSlot r s)
    (ha : Admitted r s name)
    (hsmall : pbf.instructionCount.toNat ≤ r.maxSize)
    (haddr : r.maxSize * (q.last - 1) < 2 ^ 32) : OneSlot r s' := by
  have hfirst := (h.first_free hsmall).1
  have hnew : ∀ n, Carries r s' name n → n = q.last := by
    intro n hn
    have hin := (h.carries_new ha n).mp hn
    omega
  have hmod : r.maxSize * (q.last - 1) % 2 ^ 32 = r.maxSize * (q.last - 1) :=
    Nat.mod_eq_of_lt haddr
  have hlow := h.found.low
  have hone := r.first_pos
  refine ⟨?_, ?_, ?_⟩
  · intro name' n hn
    by_cases hname : name' = name
    · subst hname
      rw [h.start_new ((h.carries_new ha n).mp hn), hnew n hn, hmod]
    · obtain ⟨hold, heq⟩ := h.carries_old hn hname
      have hstart := hs.start name' n hold
      unfold loadStart at hstart ⊢
      rw [heq]
      exact hstart
  · intro name' n hn
    by_cases hname : name' = name
    · subst hname
      rw [h.end_new ((h.carries_new ha n).mp hn), hnew n hn, hmod]
      calc r.maxSize * (q.last - 1) + pbf.instructionCount.toNat
          ≤ r.maxSize * (q.last - 1) + r.maxSize * 1 := by omega
        _ = r.maxSize * (q.last - 1 + 1) := (Nat.mul_add _ _ _).symm
        _ = r.maxSize * q.last := by rw [Nat.sub_add_cancel (by omega)]
    · obtain ⟨hold, heq⟩ := h.carries_old hn hname
      have hfits := hs.fits name' n hold
      unfold loadEnd at hfits ⊢
      rw [heq]
      exact hfits
  · intro name' n n' hn hn'
    by_cases hname : name' = name
    · subst hname
      rw [hnew n hn, hnew n' hn']
    · exact hs.unique name' n n' (h.carries_old hn hname).1
        (h.carries_old hn' hname).1

theorem TaskPlaced.small_of_allocated (h : TaskPlaced r name pbf q s s')
    (ha : Admitted r s name) (hs' : Allocated r s') :
    pbf.instructionCount.toNat ≤ r.maxSize ∧
      r.maxSize * (q.last - 1) < 2 ^ 32 := by
  have hlow := h.found.low
  have hlast := h.found.last
  have hpos := h.found.pos
  have hle := h.found.le
  have hone := r.first_pos
  have hend : q.start ≤ q.last ∧ q.last ≤ q.last := by omega
  have hself := (h.carries_new ha q.last).mpr hend
  obtain ⟨f, l, hiff, hin⟩ := hs'.inside name q.last hself
  have hspan : ∀ i, (q.start ≤ i ∧ i ≤ q.last) ↔ (f ≤ i ∧ i ≤ l) :=
    fun i => (h.carries_new ha i).symm.trans (hiff i)
  have hf : f = q.start := by
    have h₁ := (hspan q.start).mp (by omega)
    have h₂ := (hspan f).mpr (by omega)
    omega
  have hl : l = q.last := by
    have h₁ := (hspan q.last).mp hend
    have h₂ := (hspan l).mpr (by omega)
    omega
  obtain ⟨hstart, hstop⟩ := hin q.last hself
  rw [h.start_new hend, hf] at hstart
  rw [h.end_new hend, hl] at hstop
  have hslot : r.maxSize * q.last = r.maxSize * (q.last - 1) + r.maxSize := by
    obtain ⟨k, hk⟩ : ∃ k, q.last = k + 1 := ⟨q.last - 1, by omega⟩
    rw [hk]
    exact Nat.mul_succ _ _
  have haddr : r.maxSize * (q.last - 1) < 2 ^ 32 := by
    refine Nat.lt_of_not_le fun hwrap => ?_
    -- the slots the library counts hold fewer than 2^32 instructions, so a
    -- wrapped address lies below the first of them
    have hsplit : r.maxSize * (q.last - 1) =
        r.maxSize * (q.start - 1) + r.maxSize * (q.count - 1) := by
      rw [← Nat.mul_add]
      congr 1
      omega
    have hcounted : r.maxSize * (q.count - 1) < 2 ^ 32 := by
      calc r.maxSize * (q.count - 1)
          ≤ r.maxSize *
            (pbf.instructionCount.toNat / (r.maxSize + 1)) := by
            apply Nat.mul_le_mul_left
            unfold taskCount at hle
            omega
        _ ≤ (r.maxSize + 1) *
            (pbf.instructionCount.toNat / (r.maxSize + 1)) :=
            Nat.mul_le_mul_right _ (Nat.le_succ _)
        _ ≤ pbf.instructionCount.toNat := Nat.mul_div_le _ _
        _ < 2 ^ 32 := pbf.instructionCount.isLt
    have hdiv := Nat.div_add_mod (r.maxSize * (q.last - 1)) (2 ^ 32)
    have hquot : 1 ≤ r.maxSize * (q.last - 1) / 2 ^ 32 :=
      (Nat.one_le_div_iff (by omega)).mpr hwrap
    omega
  rw [Nat.mod_eq_of_lt haddr, hslot] at hstop
  exact ⟨by omega, haddr⟩

/-! ## Runs -/

theorem load_oneSlot (hs : OneSlot r s) {name : Option (List Char)}
    (hfit : FitsProgram r s (.load name pbf)) :
    OneSlot r (call r s (.load name pbf)).2 ∧
      CallOk r s (.load name pbf) := by
  have hcall : call r s (.load name pbf) =
      mttLibLoadTaskObject r s name pbf := rfl
  by_cases href : refusal r s name pbf = .none
  · rw [load_of_none href] at hcall
    rcases placeTask_cases (r := r) s (name.getD []) pbf with
      ⟨_, stops, hno⟩ | ⟨q, hfound, _, htasks⟩
    · rw [hno] at hcall
      have hone : OneSlot r (call r s (.load name pbf)).2 := by
        rw [hcall]
        exact ⟨hs.start, hs.fits, hs.unique⟩
      refine ⟨hone, hone.allocated, ?_⟩
      rintro _ _ _ _
      rw [hcall]
      exact ⟨by simp, rfl, rfl, rfl⟩
    · have hp : TaskPlaced r (name.getD []) pbf q s
          (placeTask r s (name.getD []) pbf).2 := ⟨hfound, htasks⟩
      have hsmall : pbf.instructionCount.toNat ≤ r.maxSize ∧
          r.maxSize * (q.last - 1) < 2 ^ 32 := by
        rcases hfit with h | h | h
        · exact absurd href h
        · -- the search found slots where there is no room
          have hrun := hfound.run
          have hlast := hfound.last
          have hpos := hfound.pos
          rcases hfound.full with hfull | ⟨hend, _⟩
          · rw [hfull] at hrun
            exact absurd hrun
              (h.2 q.start hfound.low (hfull ▸ hfound.high))
          · have hfree := hrun q.last (by omega) (by omega)
            have hq : q.last = r.last + 1 - 1 := by omega
            rw [hq, h.1] at hfree
            cases hfree
        · exact hp.fits_iff.mp h
      have hone : OneSlot r (call r s (.load name pbf)).2 := by
        rw [hcall]
        exact hp.oneSlot hs (admitted_of_refusal href) hsmall.1 hsmall.2
      refine ⟨hone, hone.allocated, ?_⟩
      intro name' pbf' hc hroom
      obtain ⟨rfl, rfl⟩ : name = name' ∧ pbf = pbf' := by
        simpa using hc
      obtain ⟨heq, hfree, _⟩ := hp.first_free hsmall.1
      have hlow := hfound.low
      have hhigh := hfound.high
      have hlast := hfound.last
      refine absurd ⟨q.last, 1, by omega, by omega, ?_, ?_⟩ hroom
      · intro i hlo hlt
        have hi : i = q.last := by omega
        rw [hi]
        exact hfree
      · rw [Nat.one_mul]
        exact hsmall.1
  · rw [load_of_refusal href] at hcall
    have hone : OneSlot r (call r s (.load name pbf)).2 := by
      rw [hcall]
      exact hs
    refine ⟨hone, hone.allocated, ?_⟩
    rintro _ _ _ _
    rw [hcall]
    exact ⟨href, rfl, rfl, rfl⟩

theorem call_oneSlot (hs : OneSlot r s) {c : Call} (hfit : FitsProgram r s c) :
    OneSlot r (call r s c).2 ∧ CallOk r s c := by
  cases c with
  | load name pbf => exact load_oneSlot hs hfit
  | unload name =>
    have hone : OneSlot r (call r s (.unload name)).2 :=
      hs.kept (mttLibUnloadTask_kept s)
    refine ⟨hone, hone.allocated, ?_⟩
    intro name' pbf hc
    cases hc
  | execute map =>
    have hone : OneSlot r (call r s (.execute map)).2 :=
      hs.kept fun n => .inr rfl
    refine ⟨hone, hone.allocated, ?_⟩
    intro name' pbf hc
    cases hc

theorem fits_of_callOk {c : Call} (h : CallOk r s c) : FitsProgram r s c := by
  cases c with
  | unload name => trivial
  | execute map => trivial
  | load name pbf =>
    by_cases href : refusal r s name pbf = .none
    · have hcall : call r s (.load name pbf) =
          placeTask r s (name.getD []) pbf := load_of_none href
      have hall := h.allocated
      rw [hcall] at hall
      rcases placeTask_cases (r := r) s (name.getD []) pbf with
        ⟨hno, _⟩ | ⟨q, hfound, _, htasks⟩
      · exact .inr (.inl hno)
      · have hp : TaskPlaced r (name.getD []) pbf q s
            (placeTask r s (name.getD []) pbf).2 := ⟨hfound, htasks⟩
        exact .inr (.inr (hp.fits_iff.mpr
          (hp.small_of_allocated (admitted_of_refusal href) hall)))
    · exact .inl href

theorem allOk_iff (hs : OneSlot r s) (cs : List Call) :
    AllOk r s cs ↔ AllFit r s cs := by
  induction cs generalizing s with
  | nil => exact Iff.rfl
  | cons c cs ih =>
    constructor
    · rintro ⟨hok, hrest⟩
      have hfit := fits_of_callOk hok
      exact ⟨hfit, (ih (call_oneSlot hs hfit).1).mp hrest⟩
    · rintro ⟨hfit, hrest⟩
      obtain ⟨hone, hok⟩ := call_oneSlot hs hfit
      exact ⟨hok, (ih hone).mpr hrest⟩

end

/-- Whatever is loaded and unloaded, the programs stay apart and in their
slots exactly as long as every load fits. -/
theorem task_allocation_iff (r : TaskRange) (s : Machine)
    (hs : NothingLoaded s) (cs : List Call) :
    AllOk r s cs ↔ AllFit r s cs :=
  allOk_iff (OneSlot.nothing hs) cs

/-! ## Two slots -/

/-- The default range, and a library that was just initialised. -/
def defaultRange : TaskRange where
  first := 1
  last := 16
  maxSize := 256
  first_pos := by decide
  first_le := by decide
  last_le := by decide
  size_pos := by decide
  size_lt := by decide

def freshMachine : Machine where
  mtt := true
  tasks := fun _ => {}
  map := fun _ => {}
  programMem := fun _ => {}

def longTask : ProgramBuf where
  loadAddress := 0
  instructionCount := 300
  program := fun _ => {}

def loadLong : Call := .load (some ['l', 'o', 'n', 'g']) longTask

theorem task_allocation_fresh :
    AllOk defaultRange freshMachine [.unload ['A', 'L', 'L'], loadLong] ↔
      AllFit defaultRange freshMachine [.unload ['A', 'L', 'L'], loadLong] :=
  task_allocation_iff defaultRange freshMachine (fun _ => rfl) _

/-- A program of 300 instructions takes two slots of 256 and is loaded at the
second. -/
theorem long_task_misplaced :
    ¬ ∀ (r : TaskRange) (s : Machine) (cs : List Call), NothingLoaded s →
      AllOk r s cs := by
  intro h
  have hok := h defaultRange freshMachine [loadLong] (fun _ => rfl)
  have hfit := fits_of_callOk hok.1
  rcases hfit with href | hno | hsmall
  · exact href (by decide +kernel)
  · exact absurd hno.1 (by decide +kernel)
  · exact absurd hsmall.1 (by decide +kernel)

end Coht.Mttn
