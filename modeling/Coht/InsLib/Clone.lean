import Coht.InsLib.ConfigData
import Coht.Lib.Ledger
import Mathlib.Algebra.Group.Nat.Defs
import Mathlib.Data.List.Forall2
import Mathlib.Data.Option.Basic

/-!
# The copy of a driver tree in the kernel (`libinstkernel.c`)

The installer builds a driver tree in user memory and the driver copies it, one
block after the other: memory is allocated, the block is copied as it is, user
pointers and all, and each pointer is then replaced by the copy of what it leads
to. `Faults` says which of the allocations and which of the copies of a call
succeed, `Kernel` counts them and keeps the books on what is allocated. The copy
routine returns nothing, so a failed copy leaves contents that nobody knows,
`none` here; a function that goes by such contents has no result.

A `Block` is a piece of memory allocated by the call. The pointers of a copy
lead to blocks, all but the two kinds that are copied along: `Mapped`, and the
`ModuleAddress` of a module whose bus type is none of the four.
-/

namespace Coht.InsLib

open Coht.Lib

def memBoundary128KB : Nat := 128 * 1024

/-- The structures that are copied. -/
inductive Struct
  | intrDesc
  | carSpace
  | vmeSpace
  | pciSpace
  | carAddress
  | vmeAddress
  | pciAddress
  | modlDesc
  | drvrDesc

/-- `sizeof`, on a 64-bit machine. -/
def sizeof : Struct → Nat
  | .intrDesc => 140
  | .carSpace => 160
  | .vmeSpace => 168
  | .pciSpace => 160
  | .carAddress => 176
  | .vmeAddress => 136
  | .pciAddress => 160
  | .modlDesc => 208
  | .drvrDesc => 192

/-- An allocation: the how many-th it is, and whether it is one of
`vmalloc()`. -/
structure Mem where
  id : Nat
  vmalloc : Bool
  deriving DecidableEq, Repr

/-- Which allocations and which copies of the call succeed. -/
structure Faults where
  alloc : Nat → Bool
  copy : Nat → Bool

/-- The allocations and copies tried so far, and the books. -/
structure Kernel where
  allocs : Nat := 0
  copies : Nat := 0
  books : Ledger Mem := {}

/-- Allocated memory and what was copied to it, where that is known. -/
structure Block (α : Type) where
  mem : Mem
  contents : Option α

/-- `sysbrk()` -/
def sysbrk (env : Faults) (size : Nat) (k : Kernel) : Option Mem × Kernel :=
  let mem : Mem := ⟨k.allocs, decide (memBoundary128KB < size)⟩
  if env.alloc k.allocs then
    (some mem,
      { k with allocs := k.allocs + 1, books := k.books.acquire mem })
  else (none, { k with allocs := k.allocs + 1 })

/-- `sysfree()`, which goes by the size it is given. -/
def sysfree (mem : Mem) (size : Nat) (k : Kernel) : Kernel :=
  { k with
    books := k.books.release ⟨mem.id, decide (memBoundary128KB < size)⟩ }

/-- `copy_mem`, where it is a copy from user memory. -/
def copyMem {α : Type} (env : Faults) (src : α) (k : Kernel) :
    Option α × Kernel :=
  (if env.copy k.copies then some src else none,
    { k with copies := k.copies + 1 })

/-- The start of each of the functions below: memory is allocated and, if there
is any, copied to. -/
def newBlock {α : Type} (env : Faults) (size : Nat) (src : α) (k : Kernel) :
    Option (Block α) × Kernel :=
  match sysbrk env size k with
  | (none, k) => (none, k)
  | (some mem, k) =>
    let r := copyMem env src k
    (some ⟨mem, r.1⟩, r.2)

/-! ## Copying -/

section Spaces

variable {σ α : Type}

/-- The form of the three functions that copy a list of address spaces. -/
def cloneSpaces (env : Faults) (size : Nat) :
    List σ → Kernel → List (Block σ) × Kernel
  | [], k => ([], k)
  | space :: next, k =>
    match newBlock env size space k with
    | (none, k) => ([], k)
    | (some clone, k) =>
      let r := cloneSpaces env size next k
      (clone :: r.1, r.2)

/-- The form of the three functions that copy a module address. -/
def cloneAddress (env : Faults) (size : Nat)
    (spaces : List σ → Kernel → List (Block σ) × Kernel) :
    Option (ModuleAddress User σ α) → Kernel →
      Option (ModuleAddress Block σ α) × Kernel
  | none, k => (none, k)
  | some address, k =>
    match newBlock env size address.fields k with
    | (none, k) => (none, k)
    | (some clone, k) =>
      let r := spaces address.spaces k
      (some ⟨clone, r.1⟩, r.2)

end Spaces

def insLibCloneCarSpace (env : Faults) :
    List InsLibCarAddressSpace → Kernel →
      List (Block InsLibCarAddressSpace) × Kernel :=
  cloneSpaces env (sizeof .carSpace)

def insLibCloneVmeSpace (env : Faults) :
    List InsLibVmeAddressSpace → Kernel →
      List (Block InsLibVmeAddressSpace) × Kernel :=
  cloneSpaces env (sizeof .vmeSpace)

def insLibClonePciSpace (env : Faults) :
    List InsLibPciAddressSpace → Kernel →
      List (Block InsLibPciAddressSpace) × Kernel :=
  cloneSpaces env (sizeof .pciSpace)

def insLibCloneCar (env : Faults) :
    Option (InsLibCarModuleAddress User) → Kernel →
      Option (InsLibCarModuleAddress Block) × Kernel :=
  cloneAddress env (sizeof .carAddress) (insLibCloneCarSpace env)

def insLibCloneVme (env : Faults) :
    Option (InsLibVmeModuleAddress User) → Kernel →
      Option (InsLibVmeModuleAddress Block) × Kernel :=
  cloneAddress env (sizeof .vmeAddress) (insLibCloneVmeSpace env)

def insLibClonePci (env : Faults) :
    Option (InsLibPciModuleAddress User) → Kernel →
      Option (InsLibPciModuleAddress Block) × Kernel :=
  cloneAddress env (sizeof .pciAddress) (insLibClonePciSpace env)

/-- What `InsLibCloneModule()` makes of `ModuleAddress`. -/
def cloneBusAddress (env : Faults) :
    BusAddress User → Kernel → BusAddress Block × Kernel
  | .notSet address, k => (.notSet address, k)
  | .carrier address, k => (insLibCloneCar env address k).map .carrier id
  | .vme address, k => (insLibCloneVme env address k).map .vme id
  | .pmc address, k => (insLibClonePci env address k).map .pmc id
  | .pci address, k => (insLibClonePci env address k).map .pci id

/-- `sz`, an `int`: the length of the string and its terminator. -/
def extraSize (extra : CString) : BitVec 32 := BitVec.ofNat 32 (extra.length + 1)

/-- What it makes of `Extra`. The length is that of the string the copied
pointer leads to, so the module must have been copied. A size that does not fit
an `int` is not the size of the string. -/
def cloneExtra (env : Faults) (copied : Bool) :
    Option CString → Kernel → Option (Option (Block CString) × Kernel)
  | none, k => some (none, k)
  | some extra, k =>
    if copied then
      let size := ((extraSize extra).signExtend 64).toNat
      let r := newBlock env size extra k
      if (extraSize extra).toInt = extra.length + 1 then some r
      else some (r.1.map fun clone => { clone with contents := none }, r.2)
    else none

/-- What it makes of `Isr`. -/
def cloneIsr (env : Faults) :
    Option InsLibIntrDesc → Kernel → Option (Block InsLibIntrDesc) × Kernel
  | none, k => (none, k)
  | some isr, k => newBlock env (sizeof .intrDesc) isr k

/-- `InsLibCloneModule()` -/
def insLibCloneModule (env : Faults) :
    List (InsLibModlDesc User) → Kernel →
      Option (List (InsLibModlDesc Block) × Kernel)
  | [], k => some ([], k)
  | modld :: next, k =>
    match newBlock env (sizeof .modlDesc) modld.fields k with
    | (none, k) => some ([], k)
    | (some clone, k) => do
        let (moduleAddress, k) := cloneBusAddress env modld.moduleAddress k
        let (extra, k) ← cloneExtra env clone.contents.isSome modld.extra k
        let (isr, k) := cloneIsr env modld.isr k
        let (rest, k) ← insLibCloneModule env next k
        some (⟨clone, isr, moduleAddress, extra⟩ :: rest, k)

/-- `InsLibCloneOneDriver()`; `Next` of the copy is stored as null. -/
def insLibCloneOneDriver (env : Faults) :
    Option (InsLibDrvrDesc User) → Kernel →
      Option (Option (InsLibDrvrDesc Block) × Kernel)
  | none, k => some (none, k)
  | some drvrd, k =>
    match newBlock env (sizeof .drvrDesc) drvrd.fields k with
    | (none, k) => some (none, k)
    | (some clone, k) => do
        let (modules, k) ← insLibCloneModule env drvrd.modules k
        some (some ⟨clone, modules⟩, k)

/-! ## Freeing -/

section Spaces

variable {σ α : Type}

/-- The form of the three functions that free a list of address spaces, the
last one first. -/
def freeSpaces (size : Nat) : List (Block σ) → Kernel → Kernel
  | [], k => k
  | space :: next, k => sysfree space.mem size (freeSpaces size next k)

/-- The form of the three functions that free a module address. -/
def freeAddress (size : Nat) (spaces : List (Block σ) → Kernel → Kernel) :
    Option (ModuleAddress Block σ α) → Kernel → Kernel
  | none, k => k
  | some address, k =>
    sysfree address.fields.mem size (spaces address.spaces k)

end Spaces

def insLibFreeCarSpace : List (Block InsLibCarAddressSpace) → Kernel → Kernel :=
  freeSpaces (sizeof .carSpace)

def insLibFreeVmeSpace : List (Block InsLibVmeAddressSpace) → Kernel → Kernel :=
  freeSpaces (sizeof .vmeSpace)

def insLibFreePciSpace : List (Block InsLibPciAddressSpace) → Kernel → Kernel :=
  freeSpaces (sizeof .pciSpace)

def insLibFreeCar : Option (InsLibCarModuleAddress Block) → Kernel → Kernel :=
  freeAddress (sizeof .carAddress) insLibFreeCarSpace

def insLibFreeVme : Option (InsLibVmeModuleAddress Block) → Kernel → Kernel :=
  freeAddress (sizeof .vmeAddress) insLibFreeVmeSpace

def insLibFreePci : Option (InsLibPciModuleAddress Block) → Kernel → Kernel :=
  freeAddress (sizeof .pciAddress) insLibFreePciSpace

/-- What `InsLibFreeModule()` does about `ModuleAddress`. -/
def freeBusAddress : BusAddress Block → Kernel → Kernel
  | .notSet _, k => k
  | .carrier address, k => insLibFreeCar address k
  | .vme address, k => insLibFreeVme address k
  | .pmc address, k | .pci address, k => insLibFreePci address k

/-- What it does about `Extra`: freed is the length of the string, without the
terminator. -/
def freeExtra : Option (Block CString) → Kernel → Option Kernel
  | none, k => some k
  | some extra, k => do
      let string ← extra.contents
      some (sysfree extra.mem string.length k)

/-- What it does about `Isr`. -/
def freeIsr : Option (Block InsLibIntrDesc) → Kernel → Kernel
  | none, k => k
  | some isr, k => sysfree isr.mem (sizeof .intrDesc) k

/-- `InsLibFreeModule()`, the last module first. It goes by the bus type of the
copy; the descriptor itself is not freed. -/
def insLibFreeModule : List (InsLibModlDesc Block) → Kernel → Option Kernel
  | [], k => some k
  | modld :: next, k => do
      let k ← insLibFreeModule next k
      let _ ← modld.fields.contents
      let k ← freeExtra modld.extra (freeBusAddress modld.moduleAddress k)
      some (freeIsr modld.isr k)

/-- `InsLibFreeDriver()` on a driver whose `Next` is null. -/
def insLibFreeDriver : Option (InsLibDrvrDesc Block) → Kernel → Option Kernel
  | none, k => some k
  | some drvrd, k => do
      let k ← insLibFreeModule drvrd.modules k
      some (sysfree drvrd.fields.mem (sizeof .drvrDesc) k)

end Coht.InsLib
