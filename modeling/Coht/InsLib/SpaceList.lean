import Coht.InsLib.InstallFile
import Coht.Lib.Pointers
import Mathlib.Data.List.Perm.Basic

/-!
# The list of VME address spaces in memory (`libinst.c`)

`add_vme_addr_space()` puts the CR/CSR spaces before the others, because they must be mapped
first. A space that is no CR/CSR space goes to the end of the list, and to get there the loop
goes from a block of memory to what follows it in memory. `calloc()` gives each space a block
of its own, so what follows is not a space.

Here a space is a block, a pointer is a place in a block, and a list is what is reached through
`Next` from the head. `addVmeAddrSpace` of the model of the parser says the same of the list.
-/

namespace Coht.InsLib

open Coht.Lib

/-- A pointer to an address space, some elements up from the beginning of its block. -/
structure SpacePtr where
  block : Nat
  index : Nat := 0
  deriving DecidableEq

structure SpaceBlock where
  space : InsLibVmeAddressSpace
  next : Option SpacePtr := none

/-- `vmema->VmeAddressSpace` and the blocks that have been allocated. -/
structure SpaceHeap where
  head : Option SpacePtr := none
  blocks : Nat → Option SpaceBlock := fun _ => none
  count : Nat := 0

namespace SpaceHeap

variable (v : SpaceHeap)

def load (ptr : SpacePtr) : Option SpaceBlock :=
  if ptr.index = 0 then v.blocks ptr.block else none

def setNext (ptr : SpacePtr) (next : Option SpacePtr) : SpaceHeap :=
  { v with
    blocks := Function.update v.blocks ptr.block
      ((v.blocks ptr.block).map fun block => { block with next := next }) }

/-- `while (ptr->Next) ++ptr;`, for so many rounds. -/
def toLast : Nat → SpacePtr → Option SpacePtr
  | 0, _ => none
  | rounds + 1, ptr =>
    (v.load ptr).bind fun block =>
      if block.next = none then some ptr
      else toLast rounds { ptr with index := ptr.index + 1 }

/-- `add_vme_addr_space()`. The second round of the loop is its last one: it reads behind the
block. -/
def addVmeAddrSpace (nvmeas : SpacePtr) : Option SpaceHeap :=
  match v.head with
  | none => some { v with head := some nvmeas }
  | some first =>
    (v.load nvmeas).bind fun new =>
      if new.space.addressModifier ≠ AM_A24_CR_CSR then
        (v.toLast 2 first).map fun last => v.setNext last (some nvmeas)
      else some { v.setNext nvmeas (some first) with head := some nvmeas }

/-- A new space, as `handle_vme_space_node()` has filled it in. -/
def alloc (space : InsLibVmeAddressSpace) : SpaceHeap :=
  { v with blocks := Function.update v.blocks v.count (some { space }), count := v.count + 1 }

def insert (space : InsLibVmeAddressSpace) : Option SpaceHeap :=
  (v.alloc space).addVmeAddrSpace { block := v.count }

/-- What `Next` leads to. -/
def links : Pointers SpacePtr Nat where
  node ptr := (v.load ptr).map fun _ => ptr.block
  next block := (v.blocks block).bind (·.next)

/-- The blocks of the list, which ends. -/
def Lists (order : List Nat) : Prop :=
  match v.head with
  | none => order = []
  | some first => v.links.Walk first order

variable {v} {block : Nat}

theorem load_block : v.load { block } = v.blocks block := if_pos rfl

theorem toLast_behind (rounds index : Nat) :
    v.toLast rounds { block, index := index + 1 } = none := by
  cases rounds with
  | zero => rfl
  | succ rounds =>
    have hload : v.load { block, index := index + 1 } = none := if_neg (Nat.succ_ne_zero index)
    rw [toLast, hload]
    rfl

theorem toLast_eq (rounds : Nat) :
    v.toLast (rounds + 1) { block } =
      (v.blocks block).bind fun b => if b.next = none then some { block } else none := by
  rw [toLast, load_block]
  congr 1
  funext b
  rw [toLast_behind]

theorem setNext_self {cell : SpaceBlock} {next : Option SpacePtr}
    (h : v.blocks block = some cell) :
    (v.setNext { block } next).blocks block = some { cell with next := next } := by
  show Function.update v.blocks block _ block = _
  rw [Function.update_self, h]
  rfl

theorem setNext_of_ne {i : Nat} {next : Option SpacePtr} (h : i ≠ block) :
    (v.setNext { block } next).blocks i = v.blocks i := Function.update_of_ne h ..

theorem links_node {ptr : SpacePtr} {b : Nat} (h : v.links.node ptr = some b) :
    ptr = { block := b } ∧ ∃ cell, v.blocks b = some cell := by
  obtain ⟨cell, hload, rfl⟩ := Option.map_eq_some_iff.mp h
  unfold load at hload
  split at hload
  · next hindex =>
    refine ⟨?_, cell, hload⟩
    cases ptr
    cases hindex
    rfl
  · cases hload

theorem links_of_block {cell : SpaceBlock} (h : v.blocks block = some cell) :
    v.links.node { block } = some block := by
  show (v.load { block }).map _ = some block
  rw [load_block, h]
  rfl

theorem links_next {cell : SpaceBlock} (h : v.blocks block = some cell) :
    v.links.next block = cell.next := by
  show (v.blocks block).bind _ = cell.next
  rw [h]
  rfl

end SpaceHeap

/-- The spaces of a VME description, one after the other. -/
def insertAll (spaces : List InsLibVmeAddressSpace) : Option SpaceHeap :=
  spaces.foldlM SpaceHeap.insert {}

def isCrCsr (spaces : List InsLibVmeAddressSpace) (i : Nat) : Bool :=
  spaces[i]?.any fun space => space.addressModifier = AM_A24_CR_CSR

/-- Each space is in the list once, the CR/CSR spaces before all others, which are in the
order of their insertion. -/
def ListBuilt (spaces : List InsLibVmeAddressSpace) (v : SpaceHeap) : Prop :=
  ∃ order, v.Lists order ∧ order.Perm (List.range spaces.length) ∧
    (∀ i ∈ order, (v.blocks i).map (·.space) = spaces[i]?) ∧
    order = order.filter (isCrCsr spaces) ++
      (List.range spaces.length).filter fun i => !isCrCsr spaces i


/-! ## One insertion -/

section

variable {spaces : List InsLibVmeAddressSpace} {space : InsLibVmeAddressSpace}
  {v v' : SpaceHeap} {order : List Nat} {i : Nat}

theorem isCrCsr_append (h : i < spaces.length) :
    isCrCsr (spaces ++ [space]) i = isCrCsr spaces i := by
  rw [isCrCsr, List.getElem?_append_left h, isCrCsr]

theorem isCrCsr_last :
    isCrCsr (spaces ++ [space]) spaces.length =
      decide (space.addressModifier = AM_A24_CR_CSR) := by
  rw [isCrCsr, List.getElem?_append_right (Nat.le_refl _), Nat.sub_self]
  rfl

theorem filter_append (hmem : ∀ i ∈ order, i < spaces.length) :
    order.filter (isCrCsr (spaces ++ [space])) = order.filter (isCrCsr spaces) := by
  apply List.filter_congr
  exact fun i hi => isCrCsr_append (hmem i hi)

theorem filter_range_append :
    (List.range (spaces ++ [space]).length).filter (fun i => !isCrCsr (spaces ++ [space]) i) =
      (List.range spaces.length).filter (fun i => !isCrCsr spaces i) ++
        if space.addressModifier = AM_A24_CR_CSR then [] else [spaces.length] := by
  rw [List.length_append, List.length_singleton, List.range_succ, List.filter_append]
  congr 1
  · apply List.filter_congr
    intro i hi
    rw [isCrCsr_append (List.mem_range.mp hi)]
  · rw [List.filter_singleton, isCrCsr_last]
    by_cases h : space.addressModifier = AM_A24_CR_CSR
    · simp [h]
    · simp [h]

theorem alloc_self : (v.alloc space).blocks v.count = some { space } := Function.update_self ..

theorem alloc_of_lt (h : i < v.count) : (v.alloc space).blocks i = v.blocks i :=
  Function.update_of_ne (Nat.ne_of_lt h) ..

theorem insert_of_none (hhead : v.head = none) :
    v.insert space = some { v.alloc space with head := some { block := v.count } } := by
  have hhead' : (v.alloc space).head = none := hhead
  rw [SpaceHeap.insert, SpaceHeap.addVmeAddrSpace, hhead']

theorem insert_crCsr {first : SpacePtr} (hhead : v.head = some first)
    (ham : space.addressModifier = AM_A24_CR_CSR) :
    v.insert space = some
      { (v.alloc space).setNext { block := v.count } (some first) with
        head := some { block := v.count } } := by
  have hhead' : (v.alloc space).head = some first := hhead
  rw [SpaceHeap.insert, SpaceHeap.addVmeAddrSpace, hhead', SpaceHeap.load_block, alloc_self]
  exact if_neg fun h => h ham

theorem insert_other {block : Nat} {cell : SpaceBlock} (hhead : v.head = some { block })
    (hlt : block < v.count) (hcell : v.blocks block = some cell)
    (ham : space.addressModifier ≠ AM_A24_CR_CSR) :
    v.insert space =
      if cell.next = none then
        some ((v.alloc space).setNext { block } (some { block := v.count }))
      else none := by
  have hhead' : (v.alloc space).head = some { block } := hhead
  have hcell' : (v.alloc space).blocks block = some cell := (alloc_of_lt hlt).trans hcell
  rw [SpaceHeap.insert, SpaceHeap.addVmeAddrSpace, hhead', SpaceHeap.load_block, alloc_self]
  show (if space.addressModifier ≠ AM_A24_CR_CSR then _ else _) = _
  rw [if_pos ham, SpaceHeap.toLast_eq, hcell']
  show Option.map _ (if cell.next = none then _ else _) = _
  split <;> rfl

/-! ## Runs -/

structure SpaceInv (spaces : List InsLibVmeAddressSpace) (order : List Nat) (v : SpaceHeap) :
    Prop where
  count : v.count = spaces.length
  lists : v.Lists order
  perm : order.Perm (List.range spaces.length)
  blocks : ∀ i ∈ order, (v.blocks i).map (·.space) = spaces[i]?
  sorted : order = order.filter (isCrCsr spaces) ++
    (List.range spaces.length).filter fun i => !isCrCsr spaces i
  parsed : spaces.foldlM addVmeAddrSpace [] = some (order.filterMap (spaces[·]?))

theorem SpaceInv.built (h : SpaceInv spaces order v) : ListBuilt spaces v :=
  ⟨order, h.lists, h.perm, h.blocks, h.sorted⟩

theorem SpaceInv.length (h : SpaceInv spaces order v) : order.length = spaces.length := by
  rw [h.perm.length_eq, List.length_range]

theorem SpaceInv.lt (h : SpaceInv spaces order v) (hi : i ∈ order) : i < spaces.length :=
  List.mem_range.mp (h.perm.subset hi)

theorem SpaceInv.length_parsed (h : SpaceInv spaces order v) :
    (order.filterMap (spaces[·]?)).length = spaces.length := by
  rw [← h.length, List.length_filterMap_eq_countP, List.countP_eq_length]
  intro i hi
  rw [List.getElem?_eq_getElem (h.lt hi)]
  rfl

theorem walk_ne_nil {ptr : SpacePtr} : ¬ v.links.Walk ptr [] := nofun

theorem walk_cons {ptr : SpacePtr} {block : Nat} {rest : List Nat}
    (h : v.links.Walk ptr (block :: rest)) :
    ptr = { block } ∧ ∃ cell, v.blocks block = some cell ∧ (cell.next = none ↔ rest = []) := by
  cases h with
  | last hnode hnext =>
    obtain ⟨hptr, cell, hcell⟩ := SpaceHeap.links_node hnode
    rw [SpaceHeap.links_next hcell] at hnext
    exact ⟨hptr, cell, hcell, iff_of_true hnext rfl⟩
  | step hnode hnext hrest =>
    obtain ⟨hptr, cell, hcell⟩ := SpaceHeap.links_node hnode
    rw [SpaceHeap.links_next hcell] at hnext
    refine ⟨hptr, cell, hcell, iff_of_false ?_ ?_⟩
    · rw [hnext]
      nofun
    · rintro rfl
      exact walk_ne_nil hrest

theorem foldlM_snoc : (spaces ++ [space]).foldlM addVmeAddrSpace [] =
    (spaces.foldlM addVmeAddrSpace []).bind (addVmeAddrSpace · space) := by
  rw [List.foldlM_append]
  congr 1
  funext l
  exact List.foldlM_cons.trans (Option.bind_fun_some _)

theorem filterMap_append (hmem : ∀ i ∈ order, i < spaces.length) :
    order.filterMap ((spaces ++ [space])[·]?) = order.filterMap (spaces[·]?) :=
  List.filterMap_congr fun i hi => List.getElem?_append_left (hmem i hi)

theorem SpaceInv.head_none (h : SpaceInv [] order v) : v.head = none := by
  have hlists := h.lists
  rw [List.length_eq_zero_iff.mp h.length] at hlists
  cases hhead : v.head with
  | none => rfl
  | some first =>
    rw [SpaceHeap.Lists, hhead] at hlists
    exact absurd hlists walk_ne_nil

theorem inv_first (h : SpaceInv [] order v) :
    ∃ v', v.insert space = some v' ∧ SpaceInv [space] [0] v' := by
  have hcount : v.count = 0 := h.count
  have hblock : (v.alloc space).blocks 0 = some { space } := hcount ▸ alloc_self
  refine ⟨_, insert_of_none h.head_none, congrArg (· + 1) hcount, ?_, .refl _, ?_, ?_, rfl⟩
  · rw [hcount]
    exact .last (SpaceHeap.links_of_block hblock) (SpaceHeap.links_next hblock)
  · intro i hi
    obtain rfl := List.mem_singleton.mp hi
    show ((v.alloc space).blocks 0).map _ = _
    rw [hblock]
    rfl
  · show [0] = [0].filter _ ++ [0].filter _
    cases hcr : isCrCsr [space] 0 <;> simp [hcr]

theorem inv_crCsr (hne : spaces ≠ []) (h : SpaceInv spaces order v)
    (ham : space.addressModifier = AM_A24_CR_CSR) :
    ∃ v', v.insert space = some v' ∧ SpaceInv (spaces ++ [space]) (v.count :: order) v' := by
  have hlists := h.lists
  cases hhead : v.head with
  | none =>
    rw [SpaceHeap.Lists, hhead] at hlists
    have hlen := h.length
    rw [hlists] at hlen
    exact absurd (List.length_eq_zero_iff.mp hlen.symm) hne
  | some first =>
    rw [SpaceHeap.Lists, hhead] at hlists
    have hold (i : Nat) (hi : i ∈ order) :
        ((v.alloc space).setNext { block := v.count } (some first)).blocks i = v.blocks i := by
      have hlt : i < v.count := h.count ▸ h.lt hi
      rw [SpaceHeap.setNext_of_ne (Nat.ne_of_lt hlt), alloc_of_lt hlt]
    have hnew : ((v.alloc space).setNext { block := v.count } (some first)).blocks v.count =
        some { space, next := some first } := SpaceHeap.setNext_self alloc_self
    have hget : (spaces ++ [space])[v.count]? = some space := by
      rw [h.count, List.getElem?_append_right (Nat.le_refl _), Nat.sub_self]
      rfl
    refine ⟨_, insert_crCsr hhead ham, ?_, ?_, ?_, ?_, ?_, ?_⟩
    · show v.count + 1 = _
      rw [h.count, List.length_append, List.length_singleton]
    · refine .step (SpaceHeap.links_of_block hnew) (SpaceHeap.links_next hnew) ?_
      refine hlists.congr (fun ptr i hi hnode => ?_) fun i hi => ?_
      · obtain ⟨rfl, cell, hcell⟩ := SpaceHeap.links_node hnode
        exact SpaceHeap.links_of_block ((hold i hi).trans hcell)
      · exact congrArg (Option.bind · _) (hold i hi)
    · rw [List.length_append, List.length_singleton, List.range_succ, h.count]
      exact (h.perm.cons _).trans (List.perm_append_singleton ..).symm
    · intro i hi
      rcases List.mem_cons.mp hi with rfl | hi
      · rw [hget]
        exact congrArg (Option.map _) hnew
      · rw [List.getElem?_append_left (h.lt hi), ← h.blocks i hi]
        exact congrArg (Option.map _) (hold i hi)
    · have hcr : isCrCsr (spaces ++ [space]) v.count = true := by
        rw [h.count, isCrCsr_last, decide_eq_true ham]
      rw [List.filter_cons_of_pos hcr, filter_append fun i hi => h.lt hi,
        filter_range_append, if_pos ham, List.append_nil, List.cons_append]
      exact congrArg (v.count :: ·) h.sorted
    · rw [foldlM_snoc, h.parsed, List.filterMap_cons, hget,
        filterMap_append fun i hi => h.lt hi]
      have hlen := h.length_parsed
      show addVmeAddrSpace _ space = _
      cases hparsed : order.filterMap (spaces[·]?) with
      | nil =>
        rw [hparsed] at hlen
        exact absurd (List.length_eq_zero_iff.mp hlen.symm) hne
      | cons first rest => exact if_neg fun h => h ham

theorem inv_second {first : InsLibVmeAddressSpace} (h : SpaceInv [first] order v)
    (ham : space.addressModifier ≠ AM_A24_CR_CSR) :
    ∃ v', v.insert space = some v' ∧ SpaceInv [first, space] [0, 1] v' := by
  have hcount : v.count = 1 := h.count
  obtain rfl : order = [0] := List.perm_singleton.mp h.perm
  have hlists := h.lists
  cases hhead : v.head with
  | none =>
    rw [SpaceHeap.Lists, hhead] at hlists
    cases hlists
  | some ptr =>
    rw [SpaceHeap.Lists, hhead] at hlists
    obtain ⟨rfl, cell, hcell, hend⟩ := walk_cons hlists
    have hinsert := insert_other hhead (by omega) hcell ham
    rw [if_pos (hend.mpr rfl), hcount] at hinsert
    have hzero : ((v.alloc space).setNext { block := 0 } (some { block := 1 })).blocks 0 =
        some { cell with next := some { block := 1 } } :=
      SpaceHeap.setNext_self ((alloc_of_lt (by omega)).trans hcell)
    have hone : ((v.alloc space).setNext { block := 0 } (some { block := 1 })).blocks 1 =
        some { space } := by
      rw [SpaceHeap.setNext_of_ne (by decide)]
      exact hcount ▸ alloc_self
    refine ⟨_, hinsert, congrArg (· + 1) hcount, ?_, .refl _, ?_, ?_, ?_⟩
    · rw [SpaceHeap.Lists]
      show (match v.head with | none => _ | some first => _)
      rw [hhead]
      exact .step (SpaceHeap.links_of_block hzero) (SpaceHeap.links_next hzero)
        (.last (SpaceHeap.links_of_block hone) (SpaceHeap.links_next hone))
    · intro i hi
      rcases List.mem_cons.mp hi with rfl | hi
      · have hfirst := h.blocks 0 List.mem_cons_self
        rw [hcell] at hfirst
        rw [hzero]
        exact hfirst
      · obtain rfl := List.mem_singleton.mp hi
        rw [hone]
        rfl
    · have hlast : isCrCsr ([first] ++ [space]) [first].length = false :=
        isCrCsr_last.trans (decide_eq_false ham)
      change isCrCsr [first, space] 1 = false at hlast
      show [0, 1] = [0, 1].filter _ ++ [0, 1].filter _
      cases hcr : isCrCsr [first, space] 0 <;> simp [hcr, hlast]
    · rw [show [first, space] = [first] ++ [space] from rfl, foldlM_snoc]
      exact if_pos ham

theorem insert_behind (hlen : 2 ≤ spaces.length) (h : SpaceInv spaces order v)
    (ham : space.addressModifier ≠ AM_A24_CR_CSR) :
    v.insert space = none ∧ (spaces ++ [space]).foldlM addVmeAddrSpace [] = none := by
  have hlists := h.lists
  have hlength := h.length
  constructor
  · cases hhead : v.head with
    | none =>
      rw [SpaceHeap.Lists, hhead] at hlists
      rw [hlists] at hlength
      simp at hlength
      omega
    | some first =>
      rw [SpaceHeap.Lists, hhead] at hlists
      cases order with
      | nil => exact absurd hlists walk_ne_nil
      | cons block rest =>
        obtain ⟨rfl, cell, hcell, hend⟩ := walk_cons hlists
        have hlt : block < v.count := h.count ▸ h.lt List.mem_cons_self
        rw [insert_other hhead hlt hcell ham, if_neg]
        rw [hend]
        rintro rfl
        simp at hlength
        omega
  · rw [foldlM_snoc, h.parsed]
    have hparsed := h.length_parsed
    show addVmeAddrSpace _ space = none
    match hlist : order.filterMap (spaces[·]?) with
    | [] =>
      rw [hlist] at hparsed
      simp at hparsed
      omega
    | [_] =>
      rw [hlist] at hparsed
      simp at hparsed
      omega
    | _ :: _ :: _ => exact if_pos ham

end

theorem insertAll_snoc (spaces : List InsLibVmeAddressSpace) (space : InsLibVmeAddressSpace) :
    insertAll (spaces ++ [space]) = (insertAll spaces).bind (·.insert space) := by
  rw [insertAll, List.foldlM_append]
  congr 1
  funext v
  exact List.foldlM_cons.trans (Option.bind_fun_some _)

def InFront (spaces : List InsLibVmeAddressSpace) : Prop :=
  ∀ i space, 2 ≤ i → spaces[i]? = some space → space.addressModifier = AM_A24_CR_CSR

theorem inFront_snoc {spaces : List InsLibVmeAddressSpace} {space : InsLibVmeAddressSpace} :
    InFront (spaces ++ [space]) ↔
      InFront spaces ∧ (2 ≤ spaces.length → space.addressModifier = AM_A24_CR_CSR) := by
  constructor
  · intro h
    refine ⟨fun i s hi hs => h i s hi ?_, fun hlen => h spaces.length space hlen ?_⟩
    · rw [List.getElem?_append_left (List.getElem?_eq_some_iff.mp hs).1, hs]
    · rw [List.getElem?_append_right (Nat.le_refl _), Nat.sub_self]
      rfl
  · intro ⟨hspaces, hlast⟩ i s hi hs
    by_cases hlt : i < spaces.length
    · rw [List.getElem?_append_left hlt] at hs
      exact hspaces i s hi hs
    · obtain ⟨hbound, heq⟩ := List.getElem?_eq_some_iff.mp hs
      rw [List.length_append, List.length_singleton] at hbound
      obtain rfl : i = spaces.length := by omega
      rw [List.getElem_append_right (Nat.le_refl _)] at heq
      rw [← heq]
      simpa using hlast hi

theorem inv_insert {spaces : List InsLibVmeAddressSpace} {space : InsLibVmeAddressSpace}
    {v : SpaceHeap} {order : List Nat} (h : SpaceInv spaces order v)
    (hlast : 2 ≤ spaces.length → space.addressModifier = AM_A24_CR_CSR) :
    ∃ v' order', v.insert space = some v' ∧ SpaceInv (spaces ++ [space]) order' v' := by
  match spaces, h with
  | [], h =>
    obtain ⟨v', hv', hinv⟩ := inv_first h
    exact ⟨v', _, hv', hinv⟩
  | first :: rest, h =>
    by_cases ham : space.addressModifier = AM_A24_CR_CSR
    · obtain ⟨v', hv', hinv⟩ := inv_crCsr (List.cons_ne_nil first rest) h ham
      exact ⟨v', _, hv', hinv⟩
    · cases rest with
      | nil =>
        obtain ⟨v', hv', hinv⟩ := inv_second h ham
        exact ⟨v', _, hv', hinv⟩
      | cons second rest => exact absurd (hlast (Nat.le_add_left 2 rest.length)) ham

theorem insertAll_cases (spaces : List InsLibVmeAddressSpace) :
    (InFront spaces ∧ ∃ v order, insertAll spaces = some v ∧ SpaceInv spaces order v) ∨
      (¬ InFront spaces ∧ insertAll spaces = none ∧ spaces.foldlM addVmeAddrSpace [] = none) := by
  induction spaces using List.reverseRecOn with
  | nil =>
    refine .inl ⟨?_, {}, [], rfl, rfl, rfl, .refl _, nofun, rfl, rfl⟩
    intro i space _ hs
    cases hs
  | append_singleton spaces space ih =>
    rw [inFront_snoc, insertAll_snoc, foldlM_snoc]
    rcases ih with ⟨hfront, v, order, hv, hinv⟩ | ⟨hnot, hnone, hparsed⟩
    · rw [hv]
      by_cases hlast : 2 ≤ spaces.length → space.addressModifier = AM_A24_CR_CSR
      · obtain ⟨v', order', hv', hinv'⟩ := inv_insert hinv hlast
        exact .inl ⟨⟨hfront, hlast⟩, v', order', hv', hinv'⟩
      · refine .inr ⟨fun h => hlast h.2, ?_⟩
        obtain ⟨hlen, ham⟩ := Classical.not_imp.mp hlast
        rw [← foldlM_snoc]
        exact insert_behind hlen hinv ham
    · rw [hnone, hparsed]
      exact .inr ⟨fun h => hnot h.1, rfl, rfl⟩

/-- The list is as it should be if and only if every space from the third one on is a CR/CSR
space. -/
theorem insertAll_built_iff (spaces : List InsLibVmeAddressSpace) :
    (∃ v, insertAll spaces = some v ∧ ListBuilt spaces v) ↔
      ∀ i space, 2 ≤ i → spaces[i]? = some space → space.addressModifier = AM_A24_CR_CSR := by
  rcases insertAll_cases spaces with ⟨hfront, v, order, hv, hinv⟩ | ⟨hnot, hnone, -⟩
  · exact iff_of_true ⟨v, hv, hinv.built⟩ hfront
  · refine iff_of_false ?_ hnot
    rintro ⟨v, hv, -⟩
    cases hnone.symm.trans hv

/-- Three spaces that are not CR/CSR. -/
theorem insertAll_not_built : ¬ ∀ spaces, ∃ v, insertAll spaces = some v ∧ ListBuilt spaces v := by
  intro h
  obtain ⟨v, hv, -⟩ := h [{ addressModifier := 0x39 }, { addressModifier := 0x39 },
    { addressModifier := 0x29 }]
  cases hv

theorem insertAll_parsed (spaces : List InsLibVmeAddressSpace) :
    match insertAll spaces with
    | none => spaces.foldlM addVmeAddrSpace [] = none
    | some v => ∃ order, v.Lists order ∧
        spaces.foldlM addVmeAddrSpace [] = some (order.filterMap fun i =>
          (v.blocks i).map (·.space)) := by
  rcases insertAll_cases spaces with ⟨-, v, order, hv, hinv⟩ | ⟨-, hnone, hparsed⟩
  · rw [hv]
    refine ⟨order, hinv.lists, hinv.parsed.trans ?_⟩
    exact congrArg some (List.filterMap_congr fun i hi => (hinv.blocks i hi).symm)
  · rw [hnone]
    exact hparsed

end Coht.InsLib
