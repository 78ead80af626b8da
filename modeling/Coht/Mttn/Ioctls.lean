import Coht.Lib.Access
import Coht.Mttn.Tasks

/-!
# The driver's access to the module (`mtt-skel.c`)

The module's registers, its task blocks and its memories are one structure,
`MttDrvrMap`, that the driver has mapped. Four pairs of ioctls read and write
the arrays in it with what the user gives as an index. The driver was written
for 32 bits: a `long` is a word, and so is a pointer, so an index that is far
too large comes round to the structure again.

`stays_iff` is when a request keeps to the array it is about. The ioctls that
take the number of a task always do. A global register is compared with the
size of its array as a number with a sign, so there is no lower bound, and the
transfer of a program is not checked at all: it keeps to the program memory if
the user asks for no more than that, or if it goes wrong before it starts.
-/

namespace Coht.Mttn.Ioctls

open Coht.Lib

abbrev Word := BitVec 32

def GRAM_SIZE : Nat := 224
def LRAM_SIZE : Nat := 32
def INSTRUCTIONS : Nat := 4096

/-! ## `MttDrvrMap` -/

/-- The arrays of the map. Before them are twelve registers. -/
inductive Region
  | tasks
  | globalMem
  | localMem
  | programMem
deriving DecidableEq

namespace Region

/-- Where it begins, in bytes from the start of the map. -/
def base : Region → Nat
  | tasks => 0x30
  | globalMem => 0x130
  | localMem => 0x4b0
  | programMem => 0xcb0

/-- The size of an element. -/
def elem : Region → Nat
  | tasks => 16
  | globalMem => 4
  | localMem => 4
  | programMem => 8

def count : Region → Nat
  | tasks => TASKS
  | globalMem => GRAM_SIZE
  | localMem => TASKS * LRAM_SIZE
  | programMem => INSTRUCTIONS

/-- The word at `a` belongs to the array. -/
def Has (r : Region) (a : Nat) : Prop :=
  r.base ≤ a ∧ a + 4 ≤ r.base + r.elem * r.count

instance (r : Region) (a : Nat) : Decidable (r.Has a) := by
  unfold Has
  infer_instance

end Region

/-- A pointer moves on by `n` bytes. -/
def advance (a n : Nat) : Nat := (a + n) % 2 ^ 32

/-- A pointer to an element. -/
def pointer (r : Region) (i : Word) : Nat := advance r.base (r.elem * i.toNat)

/-! ## Arguments -/

structure MttDrvrTaskBlock where
  pc : Word
  pcOffset : Word
  taskStatus : Word
  processorStatus : Word

/-- What the user passes with a task; the bits of `fields` are those of `TBF`. -/
structure MttDrvrTaskBuf where
  task : Word
  fields : Word
  loadAddress : Word
  instructionCount : Word
  pcStart : Word
  controlBlock : MttDrvrTaskBlock
  name : List Char

structure MttDrvrGlobalRegBuf where
  regNum : Word
  regVal : Word

structure MttDrvrTaskRegBuf where
  task : Word
  regMask : Word
  regVals : Fin LRAM_SIZE → Word

structure MttDrvrInstruction where
  fields : Word
  srce1 : Word

structure MttDrvrProgramBuf where
  loadAddress : Word
  instructionCount : Word
  program : Nat → MttDrvrInstruction

inductive Errno
  | EINVAL
  | ENOMEM
  | EFAULT
deriving DecidableEq

/-- What the driver keeps of the tasks. -/
abbrev Udata := Nat → Task

/-- What a call returns: an error, or what it leaves behind. -/
abbrev Reply (α : Type) := Except Errno α

def failed {α : Type} (e : Errno) : Prog Word (Reply α) := .ret (.error e)

def done {α : Type} (a : α) : Prog Word (Reply α) := .ret (.ok a)

/-! ## Task control blocks -/

/-- The position of the bit in `MttDrvrTBF`. -/
def bit : TBF → Nat
  | .loadAddress => 0
  | .instructionCount => 1
  | .pcStart => 2
  | .pcOffset => 3
  | .pc => 4
  | .name => 5

def setTask (u : Udata) (i : Word) (t : Task) : Udata := Function.update u i.toNat t

/-- `__mtt_set_tcb`, for the field with the bit `action`. -/
def set_tcb (u : Udata) (taskbuf : MttDrvrTaskBuf) (action : TBF) : Prog Word Udata :=
  let i := taskbuf.task - 1
  let localtask := u i.toNat
  match action with
  | .loadAddress =>
    .ret (setTask u i { localtask with loadAddress := taskbuf.loadAddress })
  | .instructionCount =>
    .ret (setTask u i { localtask with instructionCount := taskbuf.instructionCount })
  | .pcStart => .ret (setTask u i { localtask with pcStart := taskbuf.pcStart })
  | .pcOffset =>
    .write (advance (pointer .tasks i) 4) taskbuf.controlBlock.pcOffset
      (.ret (setTask u i { localtask with pcOffset := taskbuf.controlBlock.pcOffset }))
  | .pc =>
    .write (pointer .tasks i) taskbuf.controlBlock.pc
      (.ret (setTask u i { localtask with pc := taskbuf.controlBlock.pc }))
  | .name => .ret (setTask u i { localtask with name := taskbuf.name })

/-- The loop over the bits of `Fields`. -/
def set_fields (taskbuf : MttDrvrTaskBuf) : List TBF → Udata → Prog Word Udata
  | [], u => .ret u
  | f :: fs, u =>
    if taskbuf.fields.getLsbD (bit f) then do
      let u ← set_tcb u taskbuf f
      set_fields taskbuf fs u
    else set_fields taskbuf fs u

/-- `__mtt_get_tcb`. -/
def get_tcb (u : Udata) (taskbuf : MttDrvrTaskBuf) : Prog Word MttDrvrTaskBuf :=
  let i := taskbuf.task - 1
  let localtask := u i.toNat
  let io := pointer .tasks i
  .read io fun pc =>
  .read (advance io 4) fun pcOffset =>
  .read (advance io 8) fun taskStatus =>
  .read (advance io 12) fun processorStatus =>
  .ret
    { taskbuf with
      loadAddress := localtask.loadAddress
      instructionCount := localtask.instructionCount
      pcStart := localtask.pcStart
      fields := 0x3f
      name := localtask.name
      controlBlock := ⟨pc, pcOffset, taskStatus, processorStatus⟩ }

def mtt_gs_tcb_ioctl (u : Udata) (taskbuf : MttDrvrTaskBuf) (set : Bool) :
    Prog Word (Reply (Udata × MttDrvrTaskBuf)) :=
  if ¬ (taskbuf.task.toNat ≤ TASKS ∧ 1 ≤ taskbuf.task.toNat) then failed .EINVAL
  else if set then do
    let u ← set_fields taskbuf TBF.all u
    done (u, taskbuf)
  else do
    let taskbuf ← get_tcb u taskbuf
    done (u, taskbuf)

/-! ## Global registers -/

/-- The register's number is an `int`. -/
def mtt_gs_grval_ioctl (regbuf : MttDrvrGlobalRegBuf) (set : Bool) :
    Prog Word (Reply MttDrvrGlobalRegBuf) :=
  let regnum := regbuf.regNum
  if (GRAM_SIZE : Int) ≤ regnum.toInt then failed .EINVAL
  else if set then
    .write (pointer .globalMem regnum) regbuf.regVal (done regbuf)
  else
    .read (pointer .globalMem regnum) fun x => done { regbuf with regVal := x }

/-! ## Task registers -/

/-- A register of a task. -/
def mttmem (tasknum : Word) (i : Fin LRAM_SIZE) : Nat :=
  pointer .localMem ((tasknum - 1) * 32 + BitVec.ofNat 32 i)

/-- The loop over the mask, which returns with the first register it writes. -/
def set_regs (trbuf : MttDrvrTaskRegBuf) : List (Fin LRAM_SIZE) → Prog Word (Reply MttDrvrTaskRegBuf)
  | [] => failed .EINVAL
  | i :: is =>
    if trbuf.regMask.getLsbD i then
      .write (mttmem trbuf.task i) (trbuf.regVals i) (done trbuf)
    else set_regs trbuf is

/-- The loop that reads all registers. -/
def get_regs (tasknum : Word) :
    List (Fin LRAM_SIZE) → (Fin LRAM_SIZE → Word) → Prog Word (Fin LRAM_SIZE → Word)
  | [], vals => .ret vals
  | i :: is, vals =>
    .read (mttmem tasknum i) fun x => get_regs tasknum is (Function.update vals i x)

/-- The task's number is an `int`. -/
def mtt_gs_trval_ioctl (trbuf : MttDrvrTaskRegBuf) (set : Bool) : Prog Word (Reply MttDrvrTaskRegBuf) :=
  let tasknum := trbuf.task
  if ¬ (tasknum.toInt ≤ TASKS ∧ 1 ≤ tasknum.toInt) then failed .EINVAL
  else if set then set_regs trbuf (List.finRange LRAM_SIZE)
  else do
    let vals ← get_regs tasknum (List.finRange LRAM_SIZE) trbuf.regVals
    done { trbuf with regVals := vals, regMask := 0xffffffff }

/-! ## Program memory -/

/-- What the rest of the kernel does for a transfer: whether `sysbrk()` returns
the null pointer and whether the user's array cannot be accessed. -/
structure Kernel where
  null : Bool
  fault : Bool

/-- `__mtt_set_program`, the instructions from `i` on. -/
def set_program (frm : Nat → MttDrvrInstruction) : Nat → Nat → Nat → Prog Word Unit
  | 0, _, _ => .ret ()
  | elems + 1, i, io =>
    .write io (frm i).fields
      (.write (advance io 4) (frm i).srce1
        (set_program frm elems (i + 1) (advance io 8)))

/-- `__mtt_get_program`. -/
def get_program : Nat → Nat → Prog Word (List MttDrvrInstruction)
  | 0, _ => .ret []
  | elems + 1, io =>
    .read io fun fields =>
    .read (advance io 4) fun srce1 => do
      let rest ← get_program elems (advance io 8)
      .ret (⟨fields, srce1⟩ :: rest)

/-- The bytes that are copied are counted in a word, the instructions that are
transferred are not. -/
def mtt_gs_program (k : Kernel) (prog : MttDrvrProgramBuf) (io_prog : Nat)
    (set : Bool) : Prog Word (Reply MttDrvrProgramBuf) :=
  let elems := prog.instructionCount
  let size := elems * 8
  if k.null then failed .ENOMEM
  else if set then
    if k.fault then failed .EFAULT
    else do
      set_program prog.program elems.toNat 0 io_prog
      done prog
  else do
    let bounce ← get_program elems.toNat io_prog
    if k.fault then failed .EFAULT
    else
      done
        { prog with
          program := fun i =>
            if 8 * i < size.toNat then (bounce[i]?).getD (prog.program i)
            else prog.program i }

def mtt_gs_program_ioctl (k : Kernel) (prog : MttDrvrProgramBuf) (set : Bool) :
    Prog Word (Reply MttDrvrProgramBuf) :=
  mtt_gs_program k prog (pointer .programMem prog.loadAddress) set

/-! ## Requests -/

/-- An argument block that the user passes. -/
inductive Arg
  | tcb (b : MttDrvrTaskBuf)
  | grval (b : MttDrvrGlobalRegBuf)
  | trval (b : MttDrvrTaskRegBuf)
  | program (b : MttDrvrProgramBuf)

/-- The eight ioctls, as `SkelUserIoctls` calls them. -/
def ioctl (k : Kernel) (u : Udata) (set : Bool) : Arg → Prog Word (Reply (Udata × Arg))
  | .tcb b => do
      let r ← mtt_gs_tcb_ioctl u b set
      .ret (r.map fun p => (p.1, .tcb p.2))
  | .grval b => do
      let r ← mtt_gs_grval_ioctl b set
      .ret (r.map fun b => (u, .grval b))
  | .trval b => do
      let r ← mtt_gs_trval_ioctl b set
      .ret (r.map fun b => (u, .trval b))
  | .program b => do
      let r ← mtt_gs_program_ioctl k b set
      .ret (r.map fun b => (u, .program b))

def Arg.region : Arg → Region
  | .tcb _ => .tasks
  | .grval _ => .globalMem
  | .trval _ => .localMem
  | .program _ => .programMem

/-- The request names an element that its array does not have. -/
def Arg.Leaves : Arg → Prop
  | .tcb b => b.task.toNat < 1 ∨ TASKS < b.task.toNat
  | .grval b => GRAM_SIZE ≤ b.regNum.toNat
  | .trval b => b.task.toNat < 1 ∨ TASKS < b.task.toNat
  | .program b =>
    b.instructionCount ≠ 0 ∧
      INSTRUCTIONS < b.loadAddress.toNat + b.instructionCount.toNat

/-- Everything that is accessed is in the array, and a request that leaves the
array is refused before anything is accessed. -/
def Stays (k : Kernel) (u : Udata) (set : Bool) (arg : Arg) (m : Nat → Word) : Prop :=
  (∀ a ∈ (ioctl k u set arg).touched m, arg.region.Has a) ∧
    (arg.Leaves → (ioctl k u set arg).touched m = [] ∧
      ∃ e, ((ioctl k u set arg).run m).1 = .error e)

/-- What keeps a request to its array. -/
def Kept (k : Kernel) (set : Bool) : Arg → Prop
  | .tcb _ => True
  | .grval b => b.regNum.toNat < 2 ^ 31
  | .trval _ => True
  | .program b =>
    b.instructionCount = 0 ∨
      b.loadAddress.toNat + b.instructionCount.toNat ≤ INSTRUCTIONS ∨
      k.null = true ∨ set = true ∧ k.fault = true

/-! ## What is accessed -/

section

variable {k : Kernel} {u : Udata} {set : Bool} {m : Nat → Word} {r : Region} {i : Word}
  {n a : Nat}

theorem has_pointer (hi : i.toNat < r.count) (hn : n + 4 ≤ r.elem) :
    r.Has (advance (pointer r i) n) := by
  have hcount : r.elem * i.toNat + r.elem ≤ r.elem * r.count := by
    rw [← Nat.mul_succ]
    exact Nat.mul_le_mul_left _ hi
  have hend : r.base + r.elem * r.count ≤ 0x8cb0 := by cases r <;> decide
  have hpointer : advance (pointer r i) n = r.base + r.elem * i.toNat + n := by
    simp only [pointer, advance]
    omega
  rw [hpointer]
  simp only [Region.Has]
  omega

theorem has_element (hi : i.toNat < r.count) : r.Has (pointer r i) := by
  have hpointer : pointer r i = advance (pointer r i) 0 := by
    simp [pointer, advance]
  rw [hpointer]
  exact has_pointer hi (by cases r <;> decide)

theorem toNat_pred (h : 1 ≤ i.toNat) : (i - 1).toNat = i.toNat - 1 := by
  have hlt := i.isLt
  have hone : (1 : Word).toNat = 1 := rfl
  rw [BitVec.toNat_sub, hone]
  omega

theorem task_int : (i.toInt ≤ TASKS ∧ 1 ≤ i.toInt) ↔ (i.toNat ≤ TASKS ∧ 1 ≤ i.toNat) := by
  have := i.isLt
  simp only [BitVec.toInt_eq_toNat_cond, TASKS]
  split <;> omega

theorem task_index (h : i.toNat ≤ TASKS ∧ 1 ≤ i.toNat) :
    (i - 1).toNat < Region.tasks.count := by
  rw [toNat_pred h.2]
  show i.toNat - 1 < TASKS
  omega

/-! ### Task control blocks -/

theorem set_tcb_confined {b : MttDrvrTaskBuf} {f : TBF}
    (h : b.task.toNat ≤ TASKS ∧ 1 ≤ b.task.toNat) :
    (set_tcb u b f).Confined Region.tasks.Has := by
  have hi := task_index h
  cases f with
  | pcOffset => exact ⟨has_pointer hi (by decide), trivial⟩
  | pc => exact ⟨has_element hi, trivial⟩
  | _ => trivial

theorem set_fields_confined {b : MttDrvrTaskBuf} {fs : List TBF}
    (h : b.task.toNat ≤ TASKS ∧ 1 ≤ b.task.toNat) :
    (set_fields b fs u).Confined Region.tasks.Has := by
  induction fs generalizing u with
  | nil => trivial
  | cons f fs ih =>
    simp only [set_fields]
    split
    · exact (set_tcb_confined h).bind fun u => ih
    · exact ih

theorem get_tcb_confined {b : MttDrvrTaskBuf}
    (h : b.task.toNat ≤ TASKS ∧ 1 ≤ b.task.toNat) :
    (get_tcb u b).Confined Region.tasks.Has := by
  have hi := task_index h
  exact ⟨has_element hi, fun _ => ⟨has_pointer hi (by decide), fun _ =>
    ⟨has_pointer hi (by decide), fun _ => ⟨has_pointer hi (by decide), fun _ => trivial⟩⟩⟩⟩

theorem tcb_confined {b : MttDrvrTaskBuf} :
    (mtt_gs_tcb_ioctl u b set).Confined Region.tasks.Has := by
  simp only [mtt_gs_tcb_ioctl]
  split
  · trivial
  · next h =>
    rw [Decidable.not_not] at h
    split
    · exact (set_fields_confined h).bind fun _ => trivial
    · exact (get_tcb_confined h).bind fun _ => trivial

/-! ### Registers -/

theorem grval_confined {b : MttDrvrGlobalRegBuf} (h : b.regNum.toNat < 2 ^ 31) :
    (mtt_gs_grval_ioctl b set).Confined Region.globalMem.Has := by
  have hint : b.regNum.toInt = b.regNum.toNat := BitVec.toInt_eq_toNat_of_lt (by omega)
  simp only [mtt_gs_grval_ioctl]
  split
  · trivial
  · next hlt =>
    have hi : b.regNum.toNat < Region.globalMem.count := by
      show b.regNum.toNat < GRAM_SIZE
      omega
    split
    · exact ⟨has_element hi, trivial⟩
    · exact ⟨has_element hi, fun _ => trivial⟩

theorem mttmem_index {j : Fin LRAM_SIZE} (h : i.toNat ≤ TASKS ∧ 1 ≤ i.toNat) :
    ((i - 1) * 32 + BitVec.ofNat 32 j).toNat = (i.toNat - 1) * 32 + j := by
  have hi := toNat_pred h.2
  have hj := j.isLt
  have htasks : i.toNat ≤ 16 := h.1
  have hregs : LRAM_SIZE = 32 := rfl
  have hwidth : (32 : Word).toNat = 32 := rfl
  rw [BitVec.toNat_add, BitVec.toNat_mul, hi, BitVec.toNat_ofNat, hwidth]
  omega

theorem has_mttmem {j : Fin LRAM_SIZE} (h : i.toNat ≤ TASKS ∧ 1 ≤ i.toNat) :
    Region.localMem.Has (mttmem i j) := by
  apply has_element
  have hj := j.isLt
  have htasks : i.toNat ≤ 16 := h.1
  have hregs : LRAM_SIZE = 32 := rfl
  have hcount : Region.localMem.count = 512 := rfl
  rw [mttmem_index h, hcount]
  omega

theorem set_regs_confined {b : MttDrvrTaskRegBuf} {is : List (Fin LRAM_SIZE)}
    (h : b.task.toNat ≤ TASKS ∧ 1 ≤ b.task.toNat) :
    (set_regs b is).Confined Region.localMem.Has := by
  induction is with
  | nil => trivial
  | cons i is ih =>
    simp only [set_regs]
    split
    · exact ⟨has_mttmem h, trivial⟩
    · exact ih

theorem get_regs_confined {is : List (Fin LRAM_SIZE)} {v : Fin LRAM_SIZE → Word}
    (h : i.toNat ≤ TASKS ∧ 1 ≤ i.toNat) :
    (get_regs i is v).Confined Region.localMem.Has := by
  induction is generalizing v with
  | nil => trivial
  | cons j is ih => exact ⟨has_mttmem h, fun _ => ih⟩

theorem trval_confined {b : MttDrvrTaskRegBuf} :
    (mtt_gs_trval_ioctl b set).Confined Region.localMem.Has := by
  simp only [mtt_gs_trval_ioctl, task_int]
  split
  · trivial
  · next h =>
    rw [Decidable.not_not] at h
    split
    · exact set_regs_confined h
    · exact (get_regs_confined h).bind fun _ => trivial

/-! ### Program memory -/

theorem advance_program (h : a + 8 ≤ 2 ^ 31) : advance a 8 = a + 8 := by
  simp only [advance]
  omega

theorem has_program (hlo : 0xcb0 ≤ a) (hhi : a + 8 ≤ 0x8cb0) :
    Region.programMem.Has a ∧ Region.programMem.Has (advance a 4) := by
  have hbase : Region.programMem.base = 0xcb0 := rfl
  have hsize : Region.programMem.elem * Region.programMem.count = 0x8000 := rfl
  simp only [Region.Has, advance, hbase, hsize]
  omega

theorem set_program_confined {frm : Nat → MttDrvrInstruction} {j : Nat}
    (hlo : 0xcb0 ≤ a) (hhi : a + 8 * n ≤ 0x8cb0) :
    (set_program frm n j a).Confined Region.programMem.Has := by
  induction n generalizing a j with
  | zero => trivial
  | succ n ih =>
    obtain ⟨hfields, hsrce⟩ := has_program hlo (by omega)
    have hnext := advance_program (a := a) (by omega)
    refine ⟨hfields, hsrce, ?_⟩
    rw [hnext]
    exact ih (by omega) (by omega)

theorem get_program_confined (hlo : 0xcb0 ≤ a) (hhi : a + 8 * n ≤ 0x8cb0) :
    (get_program n a).Confined Region.programMem.Has := by
  induction n generalizing a with
  | zero => trivial
  | succ n ih =>
    obtain ⟨hfields, hsrce⟩ := has_program hlo (by omega)
    have hnext := advance_program (a := a) (by omega)
    refine ⟨hfields, fun _ => ⟨hsrce, fun _ => ?_⟩⟩
    rw [hnext]
    exact (ih (by omega) (by omega)).bind fun _ => trivial

theorem program_confined {b : MttDrvrProgramBuf}
    (h : b.loadAddress.toNat + b.instructionCount.toNat ≤ INSTRUCTIONS) :
    (mtt_gs_program_ioctl k b set).Confined Region.programMem.Has := by
  have hinstructions : INSTRUCTIONS = 4096 := rfl
  have hpointer :
      pointer .programMem b.loadAddress = 0xcb0 + 8 * b.loadAddress.toNat := by
    simp only [pointer, advance, Region.base, Region.elem]
    omega
  simp only [mtt_gs_program_ioctl, mtt_gs_program, hpointer]
  split
  · trivial
  · split
    · split
      · trivial
      · exact (set_program_confined (by omega) (by omega)).bind fun _ => trivial
    · refine (get_program_confined (by omega) (by omega)).bind fun _ => ?_
      split <;> trivial

/-! ### Requests -/

theorem refused {arg : Arg} (hkept : Kept k set arg) (h : arg.Leaves) :
    ∃ e, ioctl k u set arg = failed e := by
  cases arg with
  | tcb b =>
    have htask : ¬ (b.task.toNat ≤ TASKS ∧ 1 ≤ b.task.toNat) := by
      simp only [Arg.Leaves] at h
      omega
    exact ⟨.EINVAL, by simp [ioctl, mtt_gs_tcb_ioctl, htask, failed, Except.map]⟩
  | grval b =>
    have hint : b.regNum.toInt = b.regNum.toNat := BitVec.toInt_eq_toNat_of_lt (by
      simp only [Kept] at hkept
      omega)
    have hnum : (GRAM_SIZE : Int) ≤ b.regNum.toInt := by
      simp only [Arg.Leaves] at h
      omega
    exact ⟨.EINVAL, by simp [ioctl, mtt_gs_grval_ioctl, hnum, failed, Except.map]⟩
  | trval b =>
    have htask : ¬ (b.task.toNat ≤ TASKS ∧ 1 ≤ b.task.toNat) := by
      simp only [Arg.Leaves] at h
      omega
    refine ⟨.EINVAL, ?_⟩
    simp only [ioctl, mtt_gs_trval_ioctl, task_int, if_pos htask]
    rfl
  | program b =>
    simp only [Arg.Leaves] at h
    obtain hzero | hin | hnull | ⟨hset, hfault⟩ := hkept
    · exact absurd hzero h.1
    · omega
    · exact ⟨.ENOMEM, by
        simp [ioctl, mtt_gs_program_ioctl, mtt_gs_program, hnull, failed, Except.map]⟩
    · cases hnull : k.null with
      | true => exact ⟨.ENOMEM, by
          simp [ioctl, mtt_gs_program_ioctl, mtt_gs_program, hnull, failed, Except.map]⟩
      | false => exact ⟨.EFAULT, by
          simp [ioctl, mtt_gs_program_ioctl, mtt_gs_program, hnull, hset, hfault, failed,
            Except.map]⟩

theorem ioctl_confined {arg : Arg} (hkept : Kept k set arg) :
    (ioctl k u set arg).Confined arg.region.Has := by
  cases arg with
  | tcb b => exact tcb_confined.bind fun _ => trivial
  | grval b => exact (grval_confined hkept).bind fun _ => trivial
  | trval b => exact trval_confined.bind fun _ => trivial
  | program b =>
    by_cases hleaves : (Arg.program b).Leaves
    · obtain ⟨e, he⟩ := refused (u := u) hkept hleaves
      rw [he]
      trivial
    · simp only [Arg.Leaves, not_and, Nat.not_lt] at hleaves
      refine Prog.Confined.bind ?_ fun _ => trivial
      by_cases hzero : b.instructionCount = 0
      · simp only [mtt_gs_program_ioctl, mtt_gs_program, hzero]
        split
        · trivial
        · split
          · split <;> trivial
          · show Prog.Confined _ (if _ then _ else _)
            split <;> trivial
      · exact program_confined (hleaves hzero)

theorem touched_of_not_kept {arg : Arg} (h : ¬ Kept k set arg) :
    arg.Leaves ∧ (ioctl k u set arg).touched m ≠ [] := by
  cases arg with
  | tcb b => exact absurd trivial h
  | trval b => exact absurd trivial h
  | grval b =>
    simp only [Kept, Nat.not_lt] at h
    have hleaves : GRAM_SIZE ≤ b.regNum.toNat := by
      have hsize : GRAM_SIZE = 224 := rfl
      omega
    have hlt : ¬ (GRAM_SIZE : Int) ≤ b.regNum.toInt := by
      have := b.regNum.isLt
      rw [BitVec.toInt_eq_toNat_cond]
      split <;> omega
    refine ⟨hleaves, ?_⟩
    simp only [ioctl, mtt_gs_grval_ioctl, if_neg hlt]
    cases set <;> exact List.cons_ne_nil _ _
  | program b =>
    simp only [Kept, not_or, Nat.not_le] at h
    obtain ⟨hzero, hout, hnull, hcopy⟩ := h
    refine ⟨⟨hzero, hout⟩, ?_⟩
    obtain ⟨n, hn⟩ : ∃ n, b.instructionCount.toNat = n + 1 := by
      refine ⟨b.instructionCount.toNat - 1, ?_⟩
      have : b.instructionCount.toNat ≠ 0 := fun h => hzero (BitVec.eq_of_toNat_eq h)
      omega
    simp only [ioctl, mtt_gs_program_ioctl, mtt_gs_program, if_neg hnull, hn]
    cases set with
    | true =>
      have hfault : ¬ k.fault = true := fun h => hcopy ⟨rfl, h⟩
      rw [if_pos rfl, if_neg hfault]
      exact List.cons_ne_nil _ _
    | false => exact List.cons_ne_nil _ _

/-- A request keeps to the array it is about if and only if a global register's
number is not negative and a transfer asks for no more than the program memory,
or for nothing, or goes wrong before it starts. -/
theorem stays_iff (k : Kernel) (u : Udata) (set : Bool) (arg : Arg) (m : Nat → Word) :
    Stays k u set arg m ↔ Kept k set arg := by
  constructor
  · intro h
    by_contra hkept
    obtain ⟨hleaves, htouched⟩ := touched_of_not_kept (u := u) (m := m) hkept
    exact htouched (h.2 hleaves).1
  · intro hkept
    refine ⟨(ioctl_confined hkept).touched, fun hleaves => ?_⟩
    obtain ⟨e, he⟩ := refused (u := u) hkept hleaves
    rw [he]
    exact ⟨rfl, e, rfl⟩

/-- The register numbered -1 is the last word of the last task's block. -/
theorem not_stays :
    ¬ Stays ⟨false, false⟩ (fun _ => {}) true (.grval ⟨0xffffffff, 7⟩) fun _ => 0 := by
  intro h
  have hin := h.1 0x12c (by decide)
  exact absurd hin (by decide)

end

/-!
## The registers of a task (`mtt-skel.c`)

A task has 32 registers. One ioctl sets those in a mask, another gets them all.

`values_iff` is when a set and the get after it give what was passed: every
register in the mask, apart from the first, has its value already. The loop
that sets returns as soon as it has written one.
-/

/-- The driver takes the number of the task. -/
def Accepted (task : Word) : Prop := task.toInt ≤ TASKS ∧ 1 ≤ task.toInt

def InMask (b : MttDrvrTaskRegBuf) (i : Fin LRAM_SIZE) : Prop := b.regMask.getLsbD i = true

instance (b : MttDrvrTaskRegBuf) (i : Fin LRAM_SIZE) : Decidable (InMask b i) := by
  unfold InMask
  infer_instance

/-- What the set ioctl leaves in the module. -/
def afterSet (b : MttDrvrTaskRegBuf) (m : Nat → Word) : Nat → Word :=
  ((mtt_gs_trval_ioctl b true).run m).2

/-- The registers in the mask have their values, all other words are as before,
and a get with the same mask returns the values. -/
structure SetsAll (b : MttDrvrTaskRegBuf) (m : Nat → Word) : Prop where
  set : ∀ i, InMask b i → afterSet b m (mttmem b.task i) = b.regVals i
  frame : ∀ a, (∀ i, InMask b i → a ≠ mttmem b.task i) → afterSet b m a = m a
  get : ∀ vals, ∃ r, ((mtt_gs_trval_ioctl { b with regVals := vals } false).run
    (afterSet b m)).1 = .ok r ∧ ∀ i, InMask b i → r.regVals i = b.regVals i

/-- Of the registers in the mask only the first can have another value. -/
def OneLeft (b : MttDrvrTaskRegBuf) (m : Nat → Word) : Prop :=
  ∀ i j, j < i → InMask b j → InMask b i → m (mttmem b.task i) = b.regVals i

section

variable {b : MttDrvrTaskRegBuf} {m : Nat → Word} {t : Word}

theorem mttmem_eq {i : Fin LRAM_SIZE} (h : t.toNat ≤ TASKS ∧ 1 ≤ t.toNat) :
    mttmem t i = 0x4b0 + 4 * ((t.toNat - 1) * 32 + i) := by
  have hi := i.isLt
  have htasks : t.toNat ≤ 16 := h.1
  have hregs : LRAM_SIZE = 32 := rfl
  simp only [mttmem, pointer, advance, mttmem_index h, Region.base, Region.elem]
  omega

theorem mttmem_injective (h : Accepted t) : Function.Injective (mttmem t) := by
  intro i j heq
  have ht := task_int.mp h
  rw [mttmem_eq ht, mttmem_eq ht] at heq
  exact Fin.ext (by omega)

theorem run_set_regs {is : List (Fin LRAM_SIZE)} :
    ((set_regs b is).run m).2 = match is.find? fun i => InMask b i with
      | none => m
      | some i => Function.update m (mttmem b.task i) (b.regVals i) := by
  induction is with
  | nil => rfl
  | cons i is ih =>
    by_cases h : InMask b i
    · have hbit : b.regMask.getLsbD i = true := h
      rw [List.find?_cons_of_pos (by simpa using h), set_regs, if_pos hbit]
      rfl
    · have hbit : ¬ b.regMask.getLsbD i = true := h
      rw [List.find?_cons_of_neg (by simpa using h), set_regs, if_neg hbit, ih]

theorem run_get_regs {is : List (Fin LRAM_SIZE)} {vals : Fin LRAM_SIZE → Word} :
    ((get_regs t is vals).run m).1 =
      fun i => if i ∈ is then m (mttmem t i) else vals i := by
  induction is generalizing vals with
  | nil => rfl
  | cons j is ih =>
    simp only [get_regs, Prog.run, ih]
    funext i
    by_cases hi : i ∈ is
    · simp [hi]
    · by_cases hij : i = j
      · subst hij
        simp [hi]
      · simp [hi, hij]

theorem afterSet_eq (h : Accepted b.task) :
    afterSet b m = match (List.finRange LRAM_SIZE).find? fun i => InMask b i with
      | none => m
      | some i => Function.update m (mttmem b.task i) (b.regVals i) := by
  have hpass : ¬ ¬ (b.task.toInt ≤ TASKS ∧ 1 ≤ b.task.toInt) := not_not_intro h
  rw [afterSet, mtt_gs_trval_ioctl, if_neg hpass, if_pos rfl, run_set_regs]

theorem run_get {g : MttDrvrTaskRegBuf} (h : Accepted g.task) :
    ((mtt_gs_trval_ioctl g false).run m).1 =
      .ok { g with regVals := fun i => m (mttmem g.task i), regMask := 0xffffffff } := by
  have hpass : ¬ ¬ (g.task.toInt ≤ TASKS ∧ 1 ≤ g.task.toInt) := not_not_intro h
  rw [mtt_gs_trval_ioctl, if_neg hpass, if_neg Bool.false_ne_true, Prog.run_bind, run_get_regs]
  simp [done]

theorem find_first {i : Fin LRAM_SIZE}
    (h : (List.finRange LRAM_SIZE).find? (fun i => InMask b i) = some i) :
    InMask b i ∧ ∀ j, InMask b j → i ≤ j := by
  obtain ⟨hi, n, hn, rfl, hbefore⟩ := List.find?_eq_some_iff_getElem.mp h
  refine ⟨by simpa using hi, fun j hj => ?_⟩
  by_contra hlt
  have hjn : j.val < n := by
    simpa [Fin.lt_def] using hlt
  simpa [hj] using hbefore j hjn

theorem find_none (h : (List.finRange LRAM_SIZE).find? (fun i => InMask b i) = none)
    (i : Fin LRAM_SIZE) : ¬ InMask b i := by
  simpa using List.find?_eq_none.mp h i (List.mem_finRange i)

theorem setsAll_of_set (h : Accepted b.task)
    (hset : ∀ i, InMask b i → afterSet b m (mttmem b.task i) = b.regVals i)
    (hframe : ∀ a, (∀ i, InMask b i → a ≠ mttmem b.task i) → afterSet b m a = m a) :
    SetsAll b m where
  set := hset
  frame := hframe
  get vals := ⟨_, run_get (g := { b with regVals := vals }) h, hset⟩

/-- A set and the get after it give what was passed if and only if every
register in the mask but the first has its value before. -/
theorem values_iff (b : MttDrvrTaskRegBuf) (m : Nat → Word) (h : Accepted b.task) :
    SetsAll b m ↔ OneLeft b m := by
  have hafter := afterSet_eq (m := m) h
  cases hfind : (List.finRange LRAM_SIZE).find? fun i => InMask b i with
  | none =>
    have hnone := find_none hfind
    rw [hfind] at hafter
    refine iff_of_true (setsAll_of_set h ?_ ?_) fun i _ _ _ hi => absurd hi (hnone i)
    · exact fun i hi => absurd hi (hnone i)
    · exact fun a _ => congrFun hafter a
  | some i =>
    obtain ⟨hi, hfirst⟩ := find_first hfind
    rw [hfind] at hafter
    have hother : ∀ j, j ≠ i → afterSet b m (mttmem b.task j) = m (mttmem b.task j) := by
      intro j hj
      rw [hafter]
      exact Function.update_of_ne (fun heq => hj (mttmem_injective h heq)) _ _
    constructor
    · intro hall j j' hlt hj' hj
      have hne : j ≠ i := by
        rintro rfl
        exact absurd (hfirst j' hj') (Fin.not_le.mpr hlt)
      rw [← hother j hne]
      exact hall.set j hj
    · intro hone
      refine setsAll_of_set h (fun j hj => ?_) fun a ha => ?_
      · by_cases heq : j = i
        · subst heq
          rw [hafter]
          exact Function.update_self _ _ _
        · rw [hother j heq]
          exact hone j i (lt_of_le_of_ne (hfirst j hj) (Ne.symm heq)) hi hj
      · rw [hafter]
        exact Function.update_of_ne (ha i hi) _ _

end

/-- Two registers of the first task. -/
def twoRegs : MttDrvrTaskRegBuf where
  task := 1
  regMask := 3
  regVals i := i.val + 5

theorem values_iff_twoRegs :
    SetsAll twoRegs (fun _ => 6) ↔ OneLeft twoRegs fun _ => 6 :=
  values_iff twoRegs (fun _ => 6) (by unfold Accepted; decide)

/-- The second one is not set. -/
theorem twoRegs_not_set : ¬ SetsAll twoRegs fun _ => 0 := by
  intro h
  exact absurd (h.set ⟨1, by decide⟩ (by decide)) (by decide)

end Coht.Mttn.Ioctls
