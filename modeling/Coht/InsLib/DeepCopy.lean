import Coht.InsLib.Clone
import Mathlib.Data.List.Nodup
import Mathlib.Algebra.GroupWithZero.Nat

/-!
# When a copy is a copy, and when it is freed whole

A copy is good (`Cloned`) if there is none, or if it is the tree of the user,
field by field, with all its pointers leading to memory of the call. It can be
undone (`Released`) if freeing what the call returned releases each of its
allocations once.

Neither holds in general. No allocation of `libinstkernel.c` but the first one
is checked by a caller: where one fails, the copy lacks a part, and where a copy
from the user fails, a part has contents nobody knows. And the descriptor of a
module is never freed. `insLibCloneOneDriver_iff` says exactly when each holds.

The proof of the first goes along the tree. `Steps` says of a piece of it that it
is copied right if and only if the next so many allocations and copies succeed,
and `Steps.seq` puts two pieces together.
-/

namespace Coht.InsLib

open Coht.Lib

/-! ## What a good copy is -/

section Same

variable {α σ : Type}

/-- A block that holds what is at a place in user memory. -/
def Holds (clone : Block α) (src : α) : Prop := clone.contents = some src

structure SameAddress (clone : ModuleAddress Block σ α)
    (src : ModuleAddress User σ α) : Prop where
  fields : Holds clone.fields src.fields
  spaces : List.Forall₂ Holds clone.spaces src.spaces

def SameBus : BusAddress Block → BusAddress User → Prop
  | .notSet clone, .notSet src => clone = src
  | .carrier clone, .carrier src => Option.Rel SameAddress clone src
  | .vme clone, .vme src => Option.Rel SameAddress clone src
  | .pmc clone, .pmc src => Option.Rel SameAddress clone src
  | .pci clone, .pci src => Option.Rel SameAddress clone src
  | _, _ => False

structure SameModule (clone : InsLibModlDesc Block)
    (src : InsLibModlDesc User) : Prop where
  fields : Holds clone.fields src.fields
  moduleAddress : SameBus clone.moduleAddress src.moduleAddress
  extra : Option.Rel Holds clone.extra src.extra
  isr : Option.Rel Holds clone.isr src.isr

structure SameDriver (clone : InsLibDrvrDesc Block)
    (src : InsLibDrvrDesc User) : Prop where
  fields : Holds clone.fields src.fields
  modules : List.Forall₂ SameModule clone.modules src.modules

end Same

/-! ## Where the pointers lead -/

section Pointers

variable {B : Type → Type} {α σ : Type}

/-- The memory of a module address. -/
def ModuleAddress.mems (a : ModuleAddress Block σ α) : List Mem :=
  a.fields.mem :: a.spaces.map Block.mem

def BusAddress.mems : BusAddress Block → List Mem
  | .notSet _ => []
  | .carrier a => a.toList.flatMap ModuleAddress.mems
  | .vme a => a.toList.flatMap ModuleAddress.mems
  | .pmc a | .pci a => a.toList.flatMap ModuleAddress.mems

/-- The memory of a module that `InsLibFreeModule()` frees. -/
def InsLibModlDesc.parts (m : InsLibModlDesc Block) : List Mem :=
  m.moduleAddress.mems ++
    (m.extra.toList.map Block.mem ++ m.isr.toList.map Block.mem)

def InsLibModlDesc.mems (m : InsLibModlDesc Block) : List Mem :=
  m.fields.mem :: m.parts

def InsLibDrvrDesc.mems (d : InsLibDrvrDesc Block) : List Mem :=
  d.fields.mem :: d.modules.flatMap InsLibModlDesc.mems

/-- The pointers of a bus address that a copy takes over as they are, where the
contents of its blocks are known by `read`. -/
def BusAddress.foreign (read : ∀ {α : Type}, B α → Option α) :
    BusAddress B → List Nat
  | .notSet address => address.toList
  | .carrier a => a.toList.flatMap fun a =>
    a.spaces.filterMap fun b => (read b).bind (·.mapped)
  | .vme a => a.toList.flatMap fun a =>
    a.spaces.filterMap fun b => (read b).bind (·.mapped)
  | .pmc a | .pci a => a.toList.flatMap fun a =>
    a.spaces.filterMap fun b => (read b).bind (·.mapped)

def InsLibDrvrDesc.foreign (read : ∀ {α : Type}, B α → Option α)
    (d : InsLibDrvrDesc B) : List Nat :=
  d.modules.flatMap fun m => m.moduleAddress.foreign read

end Pointers

/-- Every pointer of the copy leads to memory that is allocated. -/
structure Enclosed (k : Kernel) (clone : InsLibDrvrDesc Block) : Prop where
  mems : ∀ mem ∈ clone.mems, k.books.held mem = 1
  foreign : clone.foreign Block.contents = []

/-- The call returns null, or a copy of the tree that is enclosed in the memory
of the call and has as many modules as it says. -/
def Cloned (env : Faults) (drvrd : Option (InsLibDrvrDesc User)) : Prop :=
  ∃ result k, insLibCloneOneDriver env drvrd {} = some (result, k) ∧
    ∀ clone, result = some clone →
      ∃ src, drvrd = some src ∧ SameDriver clone src ∧ Enclosed k clone ∧
        clone.modules.length = src.fields.moduleCount.toNat

/-- What the call returns can be freed, and nothing is left then. -/
def Released (env : Faults) (drvrd : Option (InsLibDrvrDesc User)) : Prop :=
  ∃ result k k', insLibCloneOneDriver env drvrd {} = some (result, k) ∧
    insLibFreeDriver result k = some k' ∧ k'.books.Balanced

/-! ## The size of a tree -/

section Blocks

variable {α σ : Type}

/-- How many blocks a copy of the tree takes. -/
def ModuleAddress.blocks (a : ModuleAddress User σ α) : Nat :=
  1 + a.spaces.length

def BusAddress.blocks : BusAddress User → Nat
  | .notSet _ => 0
  | .carrier a => a.elim 0 ModuleAddress.blocks
  | .vme a => a.elim 0 ModuleAddress.blocks
  | .pmc a | .pci a => a.elim 0 ModuleAddress.blocks

def InsLibModlDesc.blocks (m : InsLibModlDesc User) : Nat :=
  1 + (m.moduleAddress.blocks + (m.extra.toList.length + m.isr.toList.length))

def InsLibDrvrDesc.blocks (d : InsLibDrvrDesc User) : Nat :=
  1 + (d.modules.map InsLibModlDesc.blocks).sum

/-- The size of a string, with its terminator, is an `int`. -/
def ExtraFits (extra : Option CString) : Prop :=
  ∀ string ∈ extra, string.length + 1 < 2 ^ 31

end Blocks

/-- The next `n` allocations and the next `n` copies succeed. -/
def AllSucceed (env : Faults) (k : Kernel) (n : Nat) : Prop :=
  ∀ i < n, env.alloc (k.allocs + i) = true ∧ env.copy (k.copies + i) = true

/-- What the copy of a piece of `n` blocks comes to: it is the same if and only
if they all succeed, provided that the strings fit. -/
structure Steps (env : Faults) (k k' : Kernel) (n : Nat) (same fits : Prop) :
    Prop where
  iff : same ↔ AllSucceed env k n ∧ fits
  next : AllSucceed env k n →
    k'.allocs = k.allocs + n ∧ k'.copies = k.copies + n

structure Entered (k k' : Kernel) (mems : List Mem) : Prop where
  books : k'.books = k.books.acquireAll mems
  fresh : ∀ mem ∈ mems, k.allocs ≤ mem.id ∧ mem.id < k'.allocs
  nodup : mems.Nodup
  le : k.allocs ≤ k'.allocs

section Pieces

variable {env : Faults} {k k₁ k₂ : Kernel} {n m size : Nat}
  {same same' fits fits' : Prop} {ms ms' : List Mem} {α σ : Type} {src : α}

theorem AllSucceed.add :
    AllSucceed env k (n + m) ↔ AllSucceed env k n ∧
      ∀ i < m, env.alloc (k.allocs + n + i) = true ∧
        env.copy (k.copies + n + i) = true := by
  unfold AllSucceed
  constructor
  · intro h
    refine ⟨fun i hi => h i (by omega), fun i hi => ?_⟩
    rw [Nat.add_assoc, Nat.add_assoc]
    exact h (n + i) (by omega)
  · rintro ⟨hfirst, hrest⟩ i hi
    by_cases hlt : i < n
    · exact hfirst i hlt
    · have hthen := hrest (i - n) (by omega)
      rwa [Nat.add_assoc, Nat.add_assoc, Nat.add_sub_cancel' (by omega)]
        at hthen

theorem Steps.refl : Steps env k k 0 True True where
  iff := by simp [AllSucceed]
  next _ := ⟨rfl, rfl⟩

theorem Steps.after (h : Steps env k k₁ n same fits)
    (hall : AllSucceed env k (n + m)) :
    AllSucceed env k n ∧ AllSucceed env k₁ m := by
  obtain ⟨hfirst, hrest⟩ := AllSucceed.add.mp hall
  obtain ⟨hallocs, hcopies⟩ := h.next hfirst
  refine ⟨hfirst, ?_⟩
  unfold AllSucceed
  rw [hallocs, hcopies]
  exact hrest

theorem Steps.seq (h : Steps env k k₁ n same fits)
    (h' : Steps env k₁ k₂ m same' fits') :
    Steps env k k₂ (n + m) (same ∧ same') (fits ∧ fits') where
  iff := by
    rw [h.iff, h'.iff]
    constructor
    · rintro ⟨⟨hfirst, hfits⟩, hrest, hfits'⟩
      obtain ⟨hallocs, hcopies⟩ := h.next hfirst
      unfold AllSucceed at hrest
      rw [hallocs, hcopies] at hrest
      exact ⟨AllSucceed.add.mpr ⟨hfirst, hrest⟩, hfits, hfits'⟩
    · rintro ⟨hall, hfits, hfits'⟩
      obtain ⟨hfirst, hrest⟩ := h.after hall
      exact ⟨⟨hfirst, hfits⟩, hrest, hfits'⟩
  next hall := by
    obtain ⟨hfirst, hrest⟩ := h.after hall
    obtain ⟨hallocs, hcopies⟩ := h.next hfirst
    obtain ⟨hallocs', hcopies'⟩ := h'.next hrest
    omega

theorem Steps.congr (h : Steps env k k₁ n same fits) (hsame : same' ↔ same)
    (hn : m = n) (hfits : fits' ↔ fits) : Steps env k k₁ m same' fits' := by
  subst hn
  rw [← propext hsame, ← propext hfits] at h
  exact h

theorem Entered.refl : Entered k k [] :=
  ⟨rfl, fun _ h => absurd h List.not_mem_nil, List.nodup_nil, Nat.le_refl _⟩

theorem Entered.trans (h : Entered k k₁ ms) (h' : Entered k₁ k₂ ms') :
    Entered k k₂ (ms ++ ms') where
  books := by rw [h'.books, h.books, Ledger.acquireAll_append]
  fresh mem hmem := by
    rcases List.mem_append.mp hmem with hmem | hmem
    · have hfresh := h.fresh mem hmem
      have hle := h'.le
      omega
    · have hfresh := h'.fresh mem hmem
      have hle := h.le
      omega
  nodup := by
    refine List.nodup_append.mpr ⟨h.nodup, h'.nodup, ?_⟩
    rintro mem hmem _ hmem' rfl
    have hfresh := h.fresh mem hmem
    have hfresh' := h'.fresh mem hmem'
    omega
  le := Nat.le_trans h.le h'.le

theorem newBlock_none (h : newBlock env size src k = (none, k₁)) :
    env.alloc k.allocs = false ∧ Entered k k₁ [] := by
  unfold newBlock sysbrk at h
  cases halloc : env.alloc k.allocs with
  | true =>
    simp only [halloc, if_true] at h
    cases h
  | false =>
    simp only [halloc, Bool.false_eq_true, if_false] at h
    obtain ⟨_, rfl⟩ := Prod.mk.inj h
    exact ⟨rfl, rfl, fun _ h => absurd h List.not_mem_nil, List.nodup_nil,
      Nat.le_succ _⟩

theorem newBlock_eq_some {clone : Block α}
    (h : newBlock env size src k = (some clone, k₁)) :
    env.alloc k.allocs = true ∧
      let mem : Mem := ⟨k.allocs, decide (memBoundary128KB < size)⟩
      let r := copyMem env src
        { k with allocs := k.allocs + 1, books := k.books.acquire mem }
      clone = ⟨mem, r.1⟩ ∧ k₁ = r.2 := by
  unfold newBlock sysbrk at h
  cases halloc : env.alloc k.allocs with
  | false =>
    simp only [halloc, Bool.false_eq_true, if_false] at h
    cases h
  | true =>
    simp only [halloc, if_true] at h
    obtain ⟨hclone, hk⟩ := Prod.mk.inj h
    exact ⟨rfl, (Option.some.inj hclone).symm, hk.symm⟩

theorem newBlock_some {clone : Block α}
    (h : newBlock env size src k = (some clone, k₁)) :
    Steps env k k₁ 1 (Holds clone src) True ∧ Entered k k₁ [clone.mem] := by
  obtain ⟨halloc, rfl, rfl⟩ := newBlock_eq_some h
  refine ⟨⟨?_, fun _ => ⟨rfl, rfl⟩⟩, rfl, ?_,
    List.nodup_cons.mpr ⟨List.not_mem_nil, List.nodup_nil⟩, Nat.le_succ _⟩
  · unfold Holds copyMem AllSucceed
    cases hcopy : env.copy k.copies <;> simp [halloc, hcopy]
  · intro mem hmem
    obtain rfl := List.mem_singleton.mp hmem
    exact ⟨Nat.le_refl _, Nat.lt_succ_self _⟩

theorem newBlock_mem {clone : Block α}
    (h : newBlock env size src k = (some clone, k₁)) :
    env.alloc k.allocs = true ∧ k₁.allocs = k.allocs + 1 ∧
      clone.mem = ⟨k.allocs, decide (memBoundary128KB < size)⟩ := by
  obtain ⟨halloc, rfl, rfl⟩ := newBlock_eq_some h
  exact ⟨halloc, rfl, rfl⟩

theorem not_allSucceed (h : env.alloc k.allocs = false) :
    ¬ AllSucceed env k (1 + n) := by
  intro hall
  have hfirst := (hall 0 (by omega)).1
  rw [Nat.add_zero, h] at hfirst
  cases hfirst

theorem Steps.fails (h : env.alloc k.allocs = false) :
    Steps env k k₁ (1 + n) False fits where
  iff := by simp [not_allSucceed h]
  next hall := absurd hall (not_allSucceed h)

end Pieces

/-! ## The pieces of a tree -/

section Tree

variable {env : Faults} {k k' : Kernel} {size : Nat} {α σ : Type}

theorem cloneSpaces_steps {spaces : List σ} :
    Steps env k (cloneSpaces env size spaces k).2 spaces.length
        (List.Forall₂ Holds (cloneSpaces env size spaces k).1 spaces) True ∧
      Entered k (cloneSpaces env size spaces k).2
        ((cloneSpaces env size spaces k).1.map Block.mem) := by
  induction spaces generalizing k with
  | nil =>
    exact ⟨Steps.refl.congr (by simp [cloneSpaces]) rfl Iff.rfl,
      Entered.refl⟩
  | cons space next ih =>
    cases hblock : newBlock env size space k with
    | mk clone k₁ =>
      cases clone with
      | none =>
        obtain ⟨hfails, hentered⟩ := newBlock_none hblock
        simp only [cloneSpaces, hblock]
        refine ⟨(Steps.fails hfails).congr ?_ (Nat.add_comm ..) Iff.rfl,
          hentered⟩
        simp
      | some clone =>
        obtain ⟨hsteps, hentered⟩ := newBlock_some hblock
        obtain ⟨hrest, hentered'⟩ := @ih k₁
        simp only [cloneSpaces, hblock]
        refine ⟨(hsteps.seq hrest).congr ?_ (Nat.add_comm ..) ?_,
          hentered.trans hentered'⟩
        · rw [List.forall₂_cons]
        · simp

theorem cloneAddress_steps {spaceSize : Nat}
    {address : Option (ModuleAddress User σ α)} :
    Steps env k
        (cloneAddress env size (cloneSpaces env spaceSize) address k).2
        (address.elim 0 ModuleAddress.blocks)
        (Option.Rel SameAddress
          (cloneAddress env size (cloneSpaces env spaceSize) address k).1
          address) True ∧
      Entered k
        (cloneAddress env size (cloneSpaces env spaceSize) address k).2
        ((cloneAddress env size (cloneSpaces env spaceSize) address
          k).1.toList.flatMap ModuleAddress.mems) := by
  cases address with
  | none =>
    exact ⟨Steps.refl.congr (by simp [cloneAddress]) rfl Iff.rfl,
      Entered.refl⟩
  | some address =>
    cases hblock : newBlock env size address.fields k with
    | mk clone k₁ =>
      cases clone with
      | none =>
        obtain ⟨hfails, hentered⟩ := newBlock_none hblock
        simp only [cloneAddress, hblock]
        refine ⟨(Steps.fails hfails).congr ?_ rfl Iff.rfl, hentered⟩
        simp
      | some clone =>
        obtain ⟨hsteps, hentered⟩ := newBlock_some hblock
        obtain ⟨hrest, hentered'⟩ := @cloneSpaces_steps env k₁ spaceSize _
          address.spaces
        simp only [cloneAddress, hblock]
        refine ⟨(hsteps.seq hrest).congr ?_ rfl (by simp), ?_⟩
        · rw [Option.rel_some_some]
          exact ⟨fun h => ⟨h.fields, h.spaces⟩, fun h => ⟨h.1, h.2⟩⟩
        · have hall := hentered.trans hentered'
          simpa [ModuleAddress.mems] using hall

theorem cloneBusAddress_steps {address : BusAddress User} :
    Steps env k (cloneBusAddress env address k).2 address.blocks
        (SameBus (cloneBusAddress env address k).1 address) True ∧
      Entered k (cloneBusAddress env address k).2
        (cloneBusAddress env address k).1.mems := by
  cases address with
  | notSet address =>
    exact ⟨Steps.refl.congr (by simp [cloneBusAddress, SameBus]) rfl Iff.rfl,
      Entered.refl⟩
  | carrier address | vme address | pmc address | pci address =>
    exact cloneAddress_steps

theorem cloneIsr_steps {isr : Option InsLibIntrDesc} :
    Steps env k (cloneIsr env isr k).2 isr.toList.length
        (Option.Rel Holds (cloneIsr env isr k).1 isr) True ∧
      Entered k (cloneIsr env isr k).2
        ((cloneIsr env isr k).1.toList.map Block.mem) := by
  cases isr with
  | none =>
    exact ⟨Steps.refl.congr (by simp [cloneIsr]) rfl Iff.rfl, Entered.refl⟩
  | some isr =>
    cases hblock : newBlock env (sizeof .intrDesc) isr k with
    | mk clone k₁ =>
      simp only [cloneIsr, hblock]
      cases clone with
      | none =>
        obtain ⟨hfails, hentered⟩ := newBlock_none hblock
        exact ⟨(@Steps.fails env k k₁ 0 True hfails).congr (by simp) rfl
          Iff.rfl, hentered⟩
      | some clone =>
        obtain ⟨hsteps, hentered⟩ := newBlock_some hblock
        exact ⟨hsteps.congr (by simp) rfl Iff.rfl, hentered⟩

theorem extraSize_toInt {string : CString} :
    (extraSize string).toInt = string.length + 1 ↔
      string.length + 1 < 2 ^ 31 := by
  unfold extraSize
  rw [BitVec.toInt_ofNat']
  constructor
  · intro h
    have hlt := @Int.bmod_lt ((string.length + 1 : Nat) : Int) (2 ^ 32)
      (by decide)
    omega
  · intro h
    rw [Int.bmod_eq_of_le] <;> omega

theorem cloneExtra_steps {copied : Bool} {extra : Option CString}
    {clone : Option (Block CString)}
    (h : cloneExtra env copied extra k = some (clone, k')) :
    Steps env k k' extra.toList.length (Option.Rel Holds clone extra)
        (ExtraFits extra) ∧
      Entered k k' (clone.toList.map Block.mem) := by
  cases extra with
  | none =>
    obtain ⟨rfl, rfl⟩ := Prod.mk.inj (Option.some.inj h)
    exact ⟨Steps.refl.congr (by simp) rfl (by simp [ExtraFits]),
      Entered.refl⟩
  | some string =>
    have hfits : ExtraFits (some string) ↔
        (extraSize string).toInt = string.length + 1 := by
      simp [ExtraFits, extraSize_toInt]
    unfold cloneExtra at h
    cases copied with
    | false => cases h
    | true =>
      cases hblock : newBlock env
          ((extraSize string).signExtend 64).toNat string k with
      | mk block k₁ =>
        simp only [if_true, hblock] at h
        by_cases hsize : (extraSize string).toInt = string.length + 1
        · rw [if_pos hsize] at h
          obtain ⟨rfl, rfl⟩ := Prod.mk.inj (Option.some.inj h)
          cases block with
          | none =>
            obtain ⟨hfails, hentered⟩ := newBlock_none hblock
            exact ⟨(@Steps.fails env k k₁ 0 _ hfails).congr (by simp)
              rfl Iff.rfl, hentered⟩
          | some block =>
            obtain ⟨hsteps, hentered⟩ := newBlock_some hblock
            exact ⟨hsteps.congr (by simp) rfl (by simp [hfits, hsize]),
              hentered⟩
        · rw [if_neg hsize] at h
          obtain ⟨rfl, rfl⟩ := Prod.mk.inj (Option.some.inj h)
          have hbad : ¬ ExtraFits (some string) :=
            fun h => hsize (hfits.mp h)
          cases block with
          | none =>
            obtain ⟨hfails, hentered⟩ := newBlock_none hblock
            exact ⟨(@Steps.fails env k k₁ 0 _ hfails).congr (by simp)
              rfl Iff.rfl, hentered⟩
          | some block =>
            obtain ⟨hsteps, hentered⟩ := newBlock_some hblock
            exact ⟨⟨by simp [hbad, Holds], hsteps.next⟩, hentered⟩

theorem cloneExtra_none {copied : Bool} {extra : Option CString}
    (h : cloneExtra env copied extra k = none) : copied = false := by
  cases extra with
  | none => cases h
  | some string =>
    cases copied with
    | false => rfl
    | true =>
      unfold cloneExtra at h
      simp only [if_true] at h
      split at h <;> cases h

theorem insLibCloneModule_cons {modld : InsLibModlDesc User}
    {next : List (InsLibModlDesc User)} {fields : Block ModlFields}
    {k₁ : Kernel}
    (hblock : newBlock env (sizeof .modlDesc) modld.fields k =
      (some fields, k₁)) :
    insLibCloneModule env (modld :: next) k = none ∧
        ¬ AllSucceed env k modld.blocks ∨
      ∃ clone k₂, Steps env k k₂ modld.blocks (SameModule clone modld)
          (ExtraFits modld.extra) ∧
        Entered k₁ k₂ clone.parts ∧ clone.fields = fields ∧
        insLibCloneModule env (modld :: next) k =
          (insLibCloneModule env next k₂).map fun r => (clone :: r.1, r.2) := by
  obtain ⟨hsteps, _⟩ := newBlock_some hblock
  obtain ⟨hbus, hbusEntered⟩ :=
    @cloneBusAddress_steps env k₁ modld.moduleAddress
  cases hextra : cloneExtra env fields.contents.isSome modld.extra
      (cloneBusAddress env modld.moduleAddress k₁).2 with
  | none =>
    refine Or.inl ⟨?_, ?_⟩
    · simp only [insLibCloneModule, hblock, hextra]
      rfl
    · intro hall
      have hsome := cloneExtra_none hextra
      have hholds := hsteps.iff.mpr ⟨(AllSucceed.add.mp hall).1, trivial⟩
      rw [hholds] at hsome
      cases hsome
  | some r =>
    obtain ⟨extra, k₃⟩ := r
    obtain ⟨hextraSteps, hextraEntered⟩ := cloneExtra_steps hextra
    obtain ⟨hisr, hisrEntered⟩ := @cloneIsr_steps env k₃ modld.isr
    refine Or.inr ⟨⟨fields, (cloneIsr env modld.isr k₃).1,
      (cloneBusAddress env modld.moduleAddress k₁).1, extra⟩, _,
      (hsteps.seq (hbus.seq (hextraSteps.seq hisr))).congr ?_ rfl (by simp),
      ?_, rfl, ?_⟩
    · exact ⟨fun h => ⟨h.fields, h.moduleAddress, h.extra, h.isr⟩,
        fun h => ⟨h.1, h.2.1, h.2.2.1, h.2.2.2⟩⟩
    · exact hbusEntered.trans (hextraEntered.trans hisrEntered)
    · simp only [insLibCloneModule, hblock, hextra, Option.bind_eq_bind,
        Option.bind_some]
      cases insLibCloneModule env next (cloneIsr env modld.isr k₃).2 <;> rfl

theorem insLibCloneModule_steps {modlds : List (InsLibModlDesc User)}
    {clones : List (InsLibModlDesc Block)}
    (h : insLibCloneModule env modlds k = some (clones, k')) :
    Steps env k k' (modlds.map InsLibModlDesc.blocks).sum
        (List.Forall₂ SameModule clones modlds)
        (∀ modld ∈ modlds, ExtraFits modld.extra) ∧
      Entered k k' (clones.flatMap InsLibModlDesc.mems) := by
  induction modlds generalizing k clones with
  | nil =>
    obtain ⟨rfl, rfl⟩ := Prod.mk.inj (Option.some.inj h)
    exact ⟨Steps.refl.congr (by simp) rfl (by simp), Entered.refl⟩
  | cons modld next ih =>
    cases hblock : newBlock env (sizeof .modlDesc) modld.fields k with
    | mk fields k₁ =>
      cases fields with
      | none =>
        obtain ⟨hfails, hentered⟩ := newBlock_none hblock
        simp only [insLibCloneModule, hblock] at h
        obtain ⟨rfl, rfl⟩ := Prod.mk.inj (Option.some.inj h)
        have hsum : ((modld :: next).map InsLibModlDesc.blocks).sum =
            1 + (modld.moduleAddress.blocks +
              (modld.extra.toList.length + modld.isr.toList.length) +
              (next.map InsLibModlDesc.blocks).sum) := by
          rw [List.map_cons, List.sum_cons, InsLibModlDesc.blocks,
            Nat.add_assoc]
        exact ⟨(Steps.fails hfails).congr (by simp) hsum Iff.rfl,
          hentered⟩
      | some fields =>
        rcases @insLibCloneModule_cons env k modld next fields k₁ hblock
          with ⟨hnone, _⟩ | ⟨clone, k₂, hsteps, hparts, rfl, hcons⟩
        · rw [hnone] at h
          cases h
        · rw [hcons] at h
          cases hrest : insLibCloneModule env next k₂ with
          | none =>
            rw [hrest] at h
            cases h
          | some r =>
            rw [hrest] at h
            obtain ⟨rfl, rfl⟩ := Prod.mk.inj (Option.some.inj h)
            obtain ⟨hsteps', hentered'⟩ := ih hrest
            refine ⟨(hsteps.seq hsteps').congr ?_ ?_ ?_, ?_⟩
            · rw [List.forall₂_cons]
            · rw [List.map_cons, List.sum_cons]
            · rw [List.forall_mem_cons]
            · exact ((newBlock_some hblock).2.trans hparts).trans
                hentered'

theorem insLibCloneModule_none {modlds : List (InsLibModlDesc User)}
    (h : insLibCloneModule env modlds k = none) :
    ¬ AllSucceed env k (modlds.map InsLibModlDesc.blocks).sum := by
  induction modlds generalizing k with
  | nil => cases h
  | cons modld next ih =>
    rw [List.map_cons, List.sum_cons]
    intro hall
    cases hblock : newBlock env (sizeof .modlDesc) modld.fields k with
    | mk fields k₁ =>
      cases fields with
      | none =>
        simp only [insLibCloneModule, hblock] at h
        cases h
      | some fields =>
        rcases @insLibCloneModule_cons env k modld next fields k₁ hblock
          with ⟨_, hnot⟩ | ⟨clone, k₂, hsteps, _, _, hcons⟩
        · exact hnot (AllSucceed.add.mp hall).1
        · rw [hcons, Option.map_eq_none_iff] at h
          exact ih h (hsteps.after hall).2

end Tree

/-! ## The pointers of a copy -/

section Pointers

variable {clone : BusAddress Block} {src : BusAddress User} {α σ : Type}

theorem forall₂_filterMap {clones : List (Block σ)} {srcs : List σ}
    {mapped : σ → Option Nat} (h : List.Forall₂ Holds clones srcs) :
    (clones.filterMap fun b => b.contents.bind mapped) =
      srcs.filterMap fun s => (some s).bind mapped := by
  induction h with
  | nil => rfl
  | cons hhead _ ih =>
    rw [List.filterMap_cons, List.filterMap_cons, hhead, ih]

theorem sameAddress_foreign {clone : Option (ModuleAddress Block σ α)}
    {src : Option (ModuleAddress User σ α)} {mapped : σ → Option Nat}
    (h : Option.Rel SameAddress clone src) :
    (clone.toList.flatMap fun a =>
        a.spaces.filterMap fun b => b.contents.bind mapped) =
      src.toList.flatMap fun a =>
        a.spaces.filterMap fun s => (some s).bind mapped := by
  cases h with
  | none => rfl
  | some h =>
    rw [Option.toList_some, Option.toList_some, List.flatMap_singleton,
      List.flatMap_singleton]
    exact forall₂_filterMap h.spaces

theorem sameBus_foreign (h : SameBus clone src) :
    clone.foreign Block.contents = src.foreign some := by
  cases clone <;> cases src <;> first
    | exact absurd h not_false
    | exact sameAddress_foreign h
    | exact congrArg Option.toList h

theorem sameModules_foreign {clones : List (InsLibModlDesc Block)}
    {srcs : List (InsLibModlDesc User)} (h : List.Forall₂ SameModule clones srcs) :
    (clones.flatMap fun m => m.moduleAddress.foreign Block.contents) =
      srcs.flatMap fun m => m.moduleAddress.foreign some := by
  induction h with
  | nil => rfl
  | cons hhead _ ih =>
    rw [List.flatMap_cons, List.flatMap_cons, ih,
      sameBus_foreign hhead.moduleAddress]

end Pointers

/-! ## What is freed -/

section Free

variable {k k' : Kernel} {mem r : Mem} {size : Nat} {α σ : Type}

theorem sysfree_held (h : mem.id ≠ r.id) :
    (sysfree mem size k).books.held r = k.books.held r := by
  refine Ledger.release_held_of_ne ?_
  rintro rfl
  exact h rfl

theorem freeSpaces_held {spaces : List (Block σ)}
    (h : ∀ mem ∈ spaces.map Block.mem, mem.id ≠ r.id) :
    (freeSpaces size spaces k).books.held r = k.books.held r := by
  induction spaces with
  | nil => rfl
  | cons space next ih =>
    rw [List.map_cons, List.forall_mem_cons] at h
    rw [freeSpaces, sysfree_held h.1, ih h.2]

theorem freeAddress_held {spaceSize : Nat}
    {address : Option (ModuleAddress Block σ α)}
    (h : ∀ mem ∈ address.toList.flatMap ModuleAddress.mems, mem.id ≠ r.id) :
    (freeAddress size (freeSpaces spaceSize) address k).books.held r =
      k.books.held r := by
  cases address with
  | none => rfl
  | some address =>
    rw [Option.toList_some, List.flatMap_singleton, ModuleAddress.mems,
      List.forall_mem_cons] at h
    rw [freeAddress, sysfree_held h.1, freeSpaces_held h.2]

theorem freeBusAddress_held {address : BusAddress Block}
    (h : ∀ mem ∈ address.mems, mem.id ≠ r.id) :
    (freeBusAddress address k).books.held r = k.books.held r := by
  cases address with
  | notSet address => rfl
  | carrier address | vme address | pmc address | pci address =>
    exact freeAddress_held h

theorem freeExtra_held {extra : Option (Block CString)}
    (hfree : freeExtra extra k = some k')
    (h : ∀ mem ∈ extra.toList.map Block.mem, mem.id ≠ r.id) :
    k'.books.held r = k.books.held r := by
  cases extra with
  | none =>
    obtain rfl := Option.some.inj hfree
    rfl
  | some extra =>
    cases hstring : extra.contents with
    | none =>
      simp only [freeExtra, hstring] at hfree
      cases hfree
    | some string =>
      simp only [freeExtra, hstring] at hfree
      obtain rfl := Option.some.inj hfree
      exact sysfree_held (h extra.mem (by simp))

theorem freeIsr_held {isr : Option (Block InsLibIntrDesc)}
    (h : ∀ mem ∈ isr.toList.map Block.mem, mem.id ≠ r.id) :
    (freeIsr isr k).books.held r = k.books.held r := by
  cases isr with
  | none => rfl
  | some isr => exact sysfree_held (h isr.mem (by simp))

theorem insLibFreeModule_held {modlds : List (InsLibModlDesc Block)}
    (hfree : insLibFreeModule modlds k = some k')
    (h : ∀ mem ∈ modlds.flatMap InsLibModlDesc.parts, mem.id ≠ r.id) :
    k'.books.held r = k.books.held r := by
  induction modlds generalizing k' with
  | nil =>
    obtain rfl := Option.some.inj hfree
    rfl
  | cons modld next ih =>
    rw [List.flatMap_cons, List.forall_mem_append, InsLibModlDesc.parts,
      List.forall_mem_append, List.forall_mem_append] at h
    obtain ⟨⟨hbus, hextra, hisr⟩, hnext⟩ := h
    unfold insLibFreeModule at hfree
    cases hrest : insLibFreeModule next k with
    | none =>
      rw [hrest] at hfree
      cases hfree
    | some k₁ =>
      simp only [hrest, Option.bind_eq_bind, Option.bind_some] at hfree
      cases hfields : modld.fields.contents with
      | none =>
        rw [hfields] at hfree
        cases hfree
      | some fields =>
        simp only [hfields, Option.bind_some] at hfree
        cases hstring : freeExtra modld.extra
            (freeBusAddress modld.moduleAddress k₁) with
        | none =>
          rw [hstring] at hfree
          cases hfree
        | some k₂ =>
          rw [hstring] at hfree
          obtain rfl := Option.some.inj hfree
          rw [freeIsr_held hisr, freeExtra_held hstring hextra,
            freeBusAddress_held hbus, ih hrest hnext]

end Free

/-! ## When it goes well -/

/-- The driver itself is copied to no avail, or all of it is, and has nothing
that a copy cannot follow. -/
def CopiedWhole (env : Faults) (drvrd : Option (InsLibDrvrDesc User)) : Prop :=
  ∀ src, drvrd = some src → env.alloc 0 = true →
    AllSucceed env {} src.blocks ∧
      (∀ modld ∈ src.modules, ExtraFits modld.extra) ∧
      src.foreign some = [] ∧
      src.modules.length = src.fields.moduleCount.toNat

/-- No memory is allocated for a module. -/
def NoModuleCopied (env : Faults) (drvrd : Option (InsLibDrvrDesc User)) :
    Prop :=
  ∀ src, drvrd = some src → env.alloc 0 = true →
    src.modules = [] ∨ env.alloc 1 = false

section Driver

variable {env : Faults} {drvrd : Option (InsLibDrvrDesc User)}

theorem insLibCloneOneDriver_some {src : InsLibDrvrDesc User}
    {fields : Block DrvrFields} {k₁ : Kernel}
    (hblock : newBlock env (sizeof .drvrDesc) src.fields {} =
      (some fields, k₁)) :
    insLibCloneOneDriver env (some src) {} =
      (insLibCloneModule env src.modules k₁).map fun r =>
        (some ⟨fields, r.1⟩, r.2) := by
  simp only [insLibCloneOneDriver, hblock]
  cases insLibCloneModule env src.modules k₁ <;> rfl

theorem enclosed_mems {k : Kernel} {mems : List Mem}
    (h : Entered {} k mems) : ∀ mem ∈ mems, k.books.held mem = 1 := by
  intro mem hmem
  rw [h.books, Ledger.acquireAll_held,
    List.count_eq_one_of_mem h.nodup hmem]
  rfl

theorem cloned_iff : Cloned env drvrd ↔ CopiedWhole env drvrd := by
  cases drvrd with
  | none =>
    exact ⟨(fun _ src hsrc => by cases hsrc),
      fun _ => ⟨none, {}, rfl, fun clone hclone => by cases hclone⟩⟩
  | some src =>
    cases hblock : newBlock env (sizeof .drvrDesc) src.fields {} with
    | mk fields k₁ =>
      cases fields with
      | none =>
        obtain ⟨hfails, _⟩ := newBlock_none hblock
        refine ⟨fun _ _ _ halloc => ?_, fun _ => ⟨none, k₁, ?_, ?_⟩⟩
        · exact absurd (hfails.symm.trans halloc) (by decide)
        · simp only [insLibCloneOneDriver, hblock]
        · exact fun clone hclone => by cases hclone
      | some fields =>
        obtain ⟨hsteps, hentered⟩ := newBlock_some hblock
        have hcall := insLibCloneOneDriver_some hblock
        cases hmodules : insLibCloneModule env src.modules k₁ with
        | none =>
          rw [hmodules] at hcall
          refine ⟨fun h => ?_, fun h => ?_⟩
          · obtain ⟨result, k, hres, _⟩ := h
            rw [hcall] at hres
            cases hres
          · obtain ⟨hall, _⟩ := h src rfl (newBlock_mem hblock).1
            exact absurd (hsteps.after hall).2
              (insLibCloneModule_none hmodules)
        | some r =>
          obtain ⟨clones, k₂⟩ := r
          rw [hmodules] at hcall
          obtain ⟨hmods, hmodsEntered⟩ :=
            insLibCloneModule_steps hmodules
          have hwhole := hsteps.seq hmods
          refine ⟨fun h => ?_, fun h => ?_⟩
          · obtain ⟨result, k, hres, hgood⟩ := h
            rw [hcall] at hres
            obtain ⟨rfl, rfl⟩ := Prod.mk.inj (Option.some.inj hres)
            obtain ⟨src', hsrc, hsame, hclosed, hlen⟩ := hgood _ rfl
            obtain rfl := Option.some.inj hsrc
            obtain ⟨hall, _, hfits⟩ :=
              hwhole.iff.mp ⟨hsame.fields, hsame.modules⟩
            rintro _ hsrc _
            obtain rfl := Option.some.inj hsrc
            refine ⟨hall, hfits, ?_, ?_⟩
            · exact (sameModules_foreign hsame.modules).symm.trans
                hclosed.foreign
            · exact hsame.modules.length_eq.symm.trans hlen
          · obtain ⟨hall, hfits, hforeign, hlen⟩ :=
              h src rfl (newBlock_mem hblock).1
            obtain ⟨hfields, hsame⟩ :=
              hwhole.iff.mpr ⟨hall, trivial, hfits⟩
            refine ⟨_, _, hcall, ?_⟩
            intro clone hclone
            obtain rfl := Option.some.inj hclone
            refine ⟨src, rfl, ⟨hfields, hsame⟩, ⟨?_, ?_⟩, ?_⟩
            · exact enclosed_mems (hentered.trans hmodsEntered)
            · exact (sameModules_foreign hsame).trans hforeign
            · exact hsame.length_eq.trans hlen

theorem insLibFreeDriver_alone {src : InsLibDrvrDesc User}
    {fields : Block DrvrFields} {k₁ k₂ : Kernel}
    (hblock : newBlock env (sizeof .drvrDesc) src.fields {} =
      (some fields, k₁))
    (hentered : Entered k₁ k₂ []) :
    ∃ k', insLibFreeDriver (some ⟨fields, []⟩) k₂ = some k' ∧
      k'.books.Balanced := by
  refine ⟨_, rfl, ?_⟩
  show (k₂.books.release _).Balanced
  obtain ⟨_, _, hmem⟩ := newBlock_mem hblock
  rw [hentered.books, (newBlock_some hblock).2.books]
  show ((({} : Ledger Mem).acquire fields.mem).release _).Balanced
  rw [hmem, Ledger.release_acquire]
  exact ⟨fun _ => rfl, rfl⟩

theorem insLibFreeDriver_leaks {fields : Block DrvrFields}
    {modld : InsLibModlDesc Block} {next : List (InsLibModlDesc Block)}
    {k k' : Kernel} (hheld : k.books.held modld.fields.mem ≠ 0)
    (hne : fields.mem.id ≠ modld.fields.mem.id)
    (hparts : ∀ mem ∈ (modld :: next).flatMap InsLibModlDesc.parts,
      mem.id ≠ modld.fields.mem.id)
    (hfree : insLibFreeDriver (some ⟨fields, modld :: next⟩) k = some k') :
    ¬ k'.books.Balanced := by
  unfold insLibFreeDriver at hfree
  cases hmods : insLibFreeModule (modld :: next) k with
  | none =>
    simp only [hmods] at hfree
    cases hfree
  | some k₁ =>
    simp only [hmods] at hfree
    obtain rfl := Option.some.inj hfree
    refine Ledger.not_balanced_of_held (r := modld.fields.mem) ?_
    rwa [sysfree_held hne, insLibFreeModule_held hmods hparts]

theorem not_released {src : InsLibDrvrDesc User} {modld : InsLibModlDesc User}
    {next : List (InsLibModlDesc User)} {fields : Block DrvrFields}
    {descriptor : Block ModlFields} {k₁ k₂ : Kernel}
    (hblock : newBlock env (sizeof .drvrDesc) src.fields {} =
      (some fields, k₁))
    (hmodules : src.modules = modld :: next)
    (hfirst : newBlock env (sizeof .modlDesc) modld.fields k₁ =
      (some descriptor, k₂)) : ¬ Released env (some src) := by
  have hcall := insLibCloneOneDriver_some hblock
  rw [hmodules] at hcall
  rintro ⟨result, k, k', hres, hfree, hbalanced⟩
  rw [hcall] at hres
  rcases @insLibCloneModule_cons env k₁ modld next descriptor k₂ hfirst with
    ⟨hnone, _⟩ | ⟨clone, k₃, _, hparts, hfields, hcons⟩
  · rw [hnone] at hres
    cases hres
  · rw [hcons] at hres
    cases hrest : insLibCloneModule env next k₃ with
    | none =>
      rw [hrest] at hres
      cases hres
    | some r =>
      rw [hrest] at hres
      obtain ⟨rfl, rfl⟩ := Prod.mk.inj (Option.some.inj hres)
      obtain ⟨_, hallocs, hmem⟩ := newBlock_mem hblock
      obtain ⟨_, hallocs', hmem'⟩ := newBlock_mem hfirst
      have hnext := (insLibCloneModule_steps hrest).2
      have hentered := (newBlock_some hblock).2.trans
        ((newBlock_some hfirst).2.trans (hparts.trans hnext))
      have hid : clone.fields.mem.id = 1 := by
        rw [hfields, hmem', hallocs]
      -- The parts of the modules come after the first descriptor.
      refine insLibFreeDriver_leaks ?_ ?_ ?_ hfree hbalanced
      · rw [enclosed_mems hentered clone.fields.mem (by simp [hfields])]
        exact Nat.one_ne_zero
      · rw [hid, hmem]
        exact Nat.zero_ne_one
      · intro mem hpart
        rw [List.flatMap_cons, List.mem_append] at hpart
        have hlate : k₂.allocs ≤ mem.id := by
          rcases hpart with hpart | hpart
          · exact (hparts.fresh mem hpart).1
          · obtain ⟨m, hm, hmp⟩ := List.mem_flatMap.mp hpart
            have hmem : mem ∈ r.1.flatMap InsLibModlDesc.mems :=
              List.mem_flatMap.mpr ⟨m, hm, List.mem_cons_of_mem _ hmp⟩
            exact Nat.le_trans hparts.le (hnext.fresh mem hmem).1
        have hone : k₁.allocs = 1 := hallocs
        omega

theorem released_iff : Released env drvrd ↔ NoModuleCopied env drvrd := by
  cases drvrd with
  | none =>
    exact ⟨(fun _ src hsrc => by cases hsrc),
      fun _ => ⟨none, {}, {}, rfl, rfl, fun _ => rfl, rfl⟩⟩
  | some src =>
    cases hblock : newBlock env (sizeof .drvrDesc) src.fields {} with
    | mk fields k₁ =>
      cases fields with
      | none =>
        obtain ⟨hfails, hentered⟩ := newBlock_none hblock
        refine ⟨fun _ _ _ halloc => ?_, fun _ => ⟨none, k₁, k₁, ?_, rfl, ?_⟩⟩
        · exact absurd (hfails.symm.trans halloc) (by decide)
        · simp only [insLibCloneOneDriver, hblock]
        · rw [hentered.books]
          exact ⟨fun _ => rfl, rfl⟩
      | some fields =>
        have hcall := insLibCloneOneDriver_some hblock
        obtain ⟨halloc, hallocs, hmem⟩ := newBlock_mem hblock
        cases hmodules : src.modules with
        | nil =>
          rw [hmodules] at hcall
          refine iff_of_true ?_ ?_
          · obtain ⟨k', hfree, hbalanced⟩ :=
              insLibFreeDriver_alone hblock Entered.refl
            exact ⟨_, _, k', hcall, hfree, hbalanced⟩
          · rintro _ hsrc _
            obtain rfl := Option.some.inj hsrc
            exact Or.inl hmodules
        | cons modld next =>
          rw [hmodules] at hcall
          cases hfirst : newBlock env (sizeof .modlDesc) modld.fields
              k₁ with
          | mk descriptor k₂ =>
            cases descriptor with
            | none =>
              obtain ⟨hfails, hentered⟩ := newBlock_none hfirst
              have hnone : insLibCloneModule env (modld :: next)
                  k₁ = some ([], k₂) := by
                simp only [insLibCloneModule, hfirst]
              rw [hnone] at hcall
              rw [hallocs] at hfails
              refine iff_of_true ?_ ?_
              · obtain ⟨k', hfree, hbalanced⟩ :=
                  insLibFreeDriver_alone hblock hentered
                exact ⟨_, _, k', hcall, hfree, hbalanced⟩
              · exact fun _ _ _ => Or.inr hfails
            | some descriptor =>
              refine iff_of_false
                (not_released hblock hmodules hfirst) ?_
              intro h
              rcases h src rfl halloc with hnil | hfails
              · rw [hmodules] at hnil
                cases hnil
              · have hgot := (newBlock_mem hfirst).1
                rw [hallocs] at hgot
                exact absurd (hfails.symm.trans hgot) (by decide)

end Driver

/-- When the copy of a driver is a copy, and when it can be freed whole. -/
theorem insLibCloneOneDriver_iff (env : Faults)
    (drvrd : Option (InsLibDrvrDesc User)) :
    (Cloned env drvrd ↔ CopiedWhole env drvrd) ∧
      (Released env drvrd ↔ NoModuleCopied env drvrd) :=
  ⟨cloned_iff, released_iff⟩

/-- A driver with one VME module that has one address space. -/
def oneModule : InsLibDrvrDesc User where
  fields := { moduleCount := 1 }
  modules := [{ fields := {}, moduleAddress := .vme (some ⟨{}, [{}]⟩) }]

/-- Its copy cannot be freed whole; and where there is no memory for the address
space, the copy has none. -/
theorem oneModule_leaks :
    ¬ Released ⟨fun _ => true, fun _ => true⟩ (some oneModule) ∧
      ¬ Cloned ⟨fun k => k != 3, fun _ => true⟩ (some oneModule) := by
  constructor
  · intro h
    rcases released_iff.mp h oneModule rfl rfl with hnil | hfails
    · cases hnil
    · cases hfails
  · intro h
    obtain ⟨hall, _⟩ := cloned_iff.mp h oneModule rfl rfl
    exact absurd (hall 3 (by decide)).1 (by decide)

end Coht.InsLib
