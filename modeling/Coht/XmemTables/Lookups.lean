import Coht.Lib.KeyedList
import Coht.Lib.Word
import Coht.Xmem.Markers
import Coht.XmemTables.Entries
import Mathlib.Data.List.GetD
import Mathlib.Data.List.Perm.Subperm

/-!
# Finding nodes and segments (`libxmem.c`)

An entry is found if the bit of its position is set in `used`, but what reading
a file sets there are the bits of the identifiers. A table answers for its
entries just if their identifiers are the lowest bits, in any order (`Dense`):
if one of them is missing, an entry is behind a bit that nothing sets.
-/

namespace Coht.XmemTables

open Coht.Lib
open Coht.Xmem (XmemMarkersENABLE XMEM_HF_ELEMS)

/-- The loop of all lookups, and the descriptor at which it ends. -/
def Table.find {δ : Type} (t : Table δ) (p : δ → Bool) : Option δ :=
  ((List.range tableSize).find? fun i =>
    decide (t.used &&& 1#32 <<< i ≠ 0) && p (t.descriptors i)).map t.descriptors

def privToPubElems (markersMask : U32) (privElems : Int) : Int :=
  if markersMask &&& XmemMarkersENABLE ≠ 0 then privElems - XMEM_HF_ELEMS
  else privElems

section Lookups

variable (xmem : Bool) (nodeTab : Table NodeDesc) (segTab : Table SegDesc)

def xmemGetNodeName (node : U32) : Option (List Char) :=
  if xmem then (nodeTab.find fun d => d.id = node).map NodeDesc.name else none

def xmemGetNodeId (name : List Char) : U32 :=
  if xmem then
    match nodeTab.find fun d => d.name = name with
    | some d => d.id
    | none => 0
  else 0

def xmemGetTableName (table : U32) : Option (List Char) :=
  if xmem then (segTab.find fun d => d.id = table).map SegDesc.name else none

def xmemGetTableId (name : List Char) : U32 :=
  if xmem then
    match segTab.find fun d => d.name = name with
    | some d => d.id
    | none => 0
  else 0

structure TableDesc where
  elems : Int
  nodes : U32
  user : U32
  deriving DecidableEq

/-- What is stored through the pointers, if anything is. -/
def xmemGetTableDesc (markersMask : U32) (table : U32) : Except XmemError TableDesc :=
  if xmem then
    match segTab.find fun d => d.id = table with
    | some d =>
      .ok { elems := privToPubElems markersMask (d.size.toNat / 4 : Nat)
            nodes := d.nodes
            user := d.user }
    | none => .error .noSuchTable
  else .error .notInitialized

end Lookups

/-! ## Tables that are well formed -/

section Entries

variable {δ : Type} (F : TableFormat δ)

/-- Each identifier is a bit of its own, and each name another one. -/
structure Sound (es : List δ) : Prop where
  fits : es.length ≤ tableSize
  single : ∀ e ∈ es, ∃ k < tableSize, F.id e = 1#32 <<< k
  ids : Keyed F.id es
  names : Keyed F.name es

/-- The identifiers are the lowest bits, in any order. -/
def Dense (es : List δ) : Prop := ∀ j < es.length, 1#32 <<< j ∈ es.map F.id

structure Loaded (l : Loading δ) (es : List δ) : Prop where
  count : l.count = es.length
  overflow : l.overflow = true ↔ ∃ e ∈ es, F.nameSize ≤ (F.name e).length
  used : ∀ j, l.table.used.getLsbD j = true ↔ ∃ e ∈ es, (F.id e).getLsbD j = true
  descriptors : ∀ k, l.table.descriptors k = es.getD k F.bzero

end Entries

section Holding

variable {δ : Type} {F : TableFormat δ} {l : Loading δ} {es : List δ} {e d : δ}
  {i j : Nat}

theorem loaded_nil : Loaded F { table := F.bzeroTable } [] where
  count := rfl
  overflow := by simp
  used j := by simp [TableFormat.bzeroTable]
  descriptors _ := rfl

theorem Loaded.push (h : Loaded F l es) : Loaded F (l.push F e) (es ++ [e]) where
  count := by
    show l.count + 1 = _
    rw [h.count, List.length_append, List.length_singleton]
  overflow := by
    show (l.overflow || decide (F.nameSize ≤ (F.name e).length)) = true ↔ _
    rw [Bool.or_eq_true, decide_eq_true_eq, h.overflow]
    simp only [List.mem_append, List.mem_singleton, or_and_right, exists_or,
      exists_eq_left]
  used j := by
    show (l.table.used ||| F.id e).getLsbD j = true ↔ _
    rw [BitVec.getLsbD_or, Bool.or_eq_true, h.used]
    simp only [List.mem_append, List.mem_singleton, or_and_right, exists_or,
      exists_eq_left]
  descriptors k := by
    show Function.update l.table.descriptors l.count e k = _
    rw [h.count]
    by_cases hk : k = es.length
    · subst hk
      simp
    · rw [Function.update_of_ne hk, h.descriptors]
      rcases Nat.lt_or_gt_of_ne hk with hlt | hgt
      · rw [List.getD_append _ _ _ _ hlt]
      · rw [List.getD_eq_default _ _ (Nat.le_of_lt hgt), List.getD_eq_default]
        rw [List.length_append, List.length_singleton]
        exact hgt

theorem Loaded.foldl (h : Loaded F l es) (es' : List δ) :
    Loaded F (es'.foldl (Loading.push F) l) (es ++ es') := by
  induction es' generalizing l es with
  | nil =>
    rw [List.append_nil]
    exact h
  | cons e es' ih =>
    rw [List.append_cons]
    exact ih h.push

/-! ## What is found -/

theorem Table.find_some {t : Table δ} {p : δ → Bool} (h : t.find p = some d) :
    ∃ i, t.used.getLsbD i = true ∧ t.descriptors i = d ∧ p d = true := by
  obtain ⟨i, hi, hd⟩ := Option.map_eq_some_iff.mp h
  have hfound := List.find?_some hi
  rw [Bool.and_eq_true, decide_eq_true_eq] at hfound
  obtain ⟨hbit, hp⟩ := hfound
  refine ⟨i, ?_, hd, hd ▸ hp⟩
  rw [Ne, and_one_shiftLeft_eq_zero] at hbit
  exact (Bool.not_eq_false _).mp hbit

theorem Table.find_isSome {t : Table δ} {p : δ → Bool}
    (hbit : t.used.getLsbD i = true) (hp : p (t.descriptors i) = true) :
    ∃ d, t.find p = some d := by
  have hi : i ∈ List.range tableSize := List.mem_range.mpr (BitVec.lt_of_getLsbD hbit)
  have hne : t.used &&& 1#32 <<< i ≠ 0 := by
    rw [Ne, and_one_shiftLeft_eq_zero, hbit]
    exact Bool.noConfusion
  cases hfind : (List.range tableSize).find? fun i =>
      decide (t.used &&& 1#32 <<< i ≠ 0) && p (t.descriptors i) with
  | none =>
    have hnone := List.find?_eq_none.mp hfind i hi
    rw [decide_eq_true hne, hp] at hnone
    exact absurd rfl hnone
  | some k =>
    refine ⟨t.descriptors k, ?_⟩
    unfold Table.find
    rw [hfind]
    rfl

theorem shiftLeft_inj (hi : i < tableSize) (hj : j < tableSize)
    (h : 1#32 <<< i = 1#32 <<< j) : i = j := by
  have hbit := getLsbD_one_shiftLeft_of_lt (w := 32) (j := i) hi
  rw [h, getLsbD_one_shiftLeft_of_lt hj, decide_eq_true rfl] at hbit
  exact of_decide_eq_true hbit

theorem Dense.lt (h : Dense F es) (hsound : Sound F es) (hj : j < tableSize)
    (hmem : 1#32 <<< j ∈ es.map F.id) : j < es.length := by
  have hlow : ((List.range es.length).map (1#32 <<< ·)).Nodup := by
    refine List.Nodup.map_on ?_ List.nodup_range
    intro i hi k hk heq
    have hfits := hsound.fits
    have hi := List.mem_range.mp hi
    have hk := List.mem_range.mp hk
    exact shiftLeft_inj (by omega) (by omega) heq
  have hsubset : (List.range es.length).map (1#32 <<< ·) ⊆ es.map F.id := by
    intro x hx
    obtain ⟨i, hi, rfl⟩ := List.mem_map.mp hx
    exact h i (List.mem_range.mp hi)
  have hperm := (List.subperm_of_subset hlow hsubset).perm_of_length_le (by simp)
  obtain ⟨i, hi, heq⟩ := List.mem_map.mp (hperm.mem_iff.mpr hmem)
  have hi := List.mem_range.mp hi
  have hfits := hsound.fits
  rw [← shiftLeft_inj (by omega) hj heq]
  exact hi

theorem Loaded.used_iff (h : Loaded F l es) (hsound : Sound F es) :
    l.table.used.getLsbD j = true ↔ j < tableSize ∧ 1#32 <<< j ∈ es.map F.id := by
  rw [h.used]
  constructor
  · rintro ⟨e, he, hbit⟩
    obtain ⟨k, hk, hid⟩ := hsound.single e he
    rw [hid, getLsbD_one_shiftLeft_of_lt hk, decide_eq_true_eq] at hbit
    subst hbit
    exact ⟨hk, hid ▸ List.mem_map_of_mem he⟩
  · rintro ⟨hj, hmem⟩
    obtain ⟨e, he, hid⟩ := List.mem_map.mp hmem
    refine ⟨e, he, ?_⟩
    rw [hid, getLsbD_one_shiftLeft_of_lt hj]
    exact decide_eq_true rfl

theorem Loaded.used_dense (h : Loaded F l es) (hsound : Sound F es)
    (hdense : Dense F es) : l.table.used.getLsbD j = true ↔ j < es.length := by
  rw [h.used_iff hsound]
  constructor
  · rintro ⟨hj, hmem⟩
    exact hdense.lt hsound hj hmem
  · intro hj
    exact ⟨Nat.lt_of_lt_of_le hj hsound.fits, hdense j hj⟩

theorem Loaded.find_eq {κ : Type} [DecidableEq κ] {key : δ → κ} (h : Loaded F l es)
    (hsound : Sound F es) (hdense : Dense F es) (hkey : Keyed key es) (k : κ) :
    (l.table.find fun d => key d = k) = lookup key k es := by
  have hentry : ∀ i d, l.table.used.getLsbD i = true → l.table.descriptors i = d →
      d ∈ es := by
    intro i d hbit hd
    have hi := (h.used_dense hsound hdense).mp hbit
    rw [h.descriptors, List.getD_eq_getElem _ _ hi] at hd
    exact hd ▸ List.getElem_mem hi
  refine Option.ext fun d => ?_
  rw [hkey.lookup_iff]
  constructor
  · intro hfind
    obtain ⟨i, hbit, hd, hp⟩ := Table.find_some hfind
    exact ⟨hentry i d hbit hd, of_decide_eq_true hp⟩
  · rintro ⟨hmem, hd⟩
    obtain ⟨i, hi, hget⟩ := List.mem_iff_getElem.mp hmem
    have hbit := (h.used_dense hsound hdense).mpr hi
    have hdesc : l.table.descriptors i = d := by
      rw [h.descriptors, List.getD_eq_getElem _ _ hi, hget]
    obtain ⟨d', hfind⟩ := Table.find_isSome (p := fun d => key d = k) hbit
      (decide_eq_true (hdesc ▸ hd))
    obtain ⟨i', hbit', hd', hp⟩ := Table.find_some hfind
    rw [hfind, hkey.eq (hentry i' d' hbit' hd') hmem ((of_decide_eq_true hp).trans hd.symm)]

theorem Loaded.dense (h : Loaded F l es) (hsound : Sound F es)
    (hfound : ∀ e ∈ es, ∃ d, (l.table.find fun d => F.id d = F.id e) = some d) :
    Dense F es := by
  intro j hj
  obtain ⟨d, hfind⟩ := hfound es[j] (List.getElem_mem hj)
  obtain ⟨i, hbit, hd, hid⟩ := Table.find_some hfind
  have hid := of_decide_eq_true hid
  have hi : i < es.length := by
    by_contra hge
    rw [h.descriptors, List.getD_eq_default _ _ (Nat.not_lt.mp hge)] at hd
    obtain ⟨k, hk, hsingle⟩ := hsound.single es[j] (List.getElem_mem hj)
    have hone := getLsbD_one_shiftLeft_of_lt (w := 32) (j := k) hk
    rw [← hsingle, ← hid, ← hd, F.id_bzero] at hone
    simp at hone
  rw [h.descriptors, List.getD_eq_getElem _ _ hi] at hd
  have heq : es[i] = es[j] :=
    hsound.ids.eq (List.getElem_mem hi) (List.getElem_mem hj) (hd ▸ hid)
  have hij : i = j := (List.Nodup.of_map F.id hsound.ids).getElem_inj_iff.mp heq
  exact ((h.used_iff hsound).mp (hij ▸ hbit)).2

end Holding

/-! ## Tables that are read -/

/-- With a device open, each node is found as its line has it, and no other. -/
structure NodesFound (t : Table NodeDesc) (es : List NodeDesc) : Prop where
  name : ∀ e ∈ es, xmemGetNodeName true t e.id = some e.name
  id : ∀ e ∈ es, xmemGetNodeId true t e.name = e.id
  noName : ∀ node, node ∉ es.map NodeDesc.id → xmemGetNodeName true t node = none
  noId : ∀ name, name ∉ es.map NodeDesc.name → xmemGetNodeId true t name = 0

/-- With a device open, each segment is found as its line has it, and no
other. -/
structure SegsFound (t : Table SegDesc) (es : List SegDesc) : Prop where
  name : ∀ e ∈ es, xmemGetTableName true t e.id = some e.name
  id : ∀ e ∈ es, xmemGetTableId true t e.name = e.id
  desc : ∀ e ∈ es, ∀ markersMask, xmemGetTableDesc true t markersMask e.id =
    .ok { elems := privToPubElems markersMask (e.size.toNat / 4 : Nat)
          nodes := e.nodes
          user := e.user }
  noName : ∀ table, table ∉ es.map SegDesc.id → xmemGetTableName true t table = none
  noId : ∀ name, name ∉ es.map SegDesc.name → xmemGetTableId true t name = 0
  noDesc : ∀ table, table ∉ es.map SegDesc.id → ∀ markersMask,
    xmemGetTableDesc true t markersMask table = .error .noSuchTable

section Read

variable {δ : Type}

/-- What reading a file is to do: the entries of a well-formed table are found,
and a file that is no table is a syntax error. -/
def Reads (F : TableFormat δ) (Found : Table δ → List δ → Prop)
    (syntaxError : XmemError) (file : List Char) (r : XmemError × Loading δ) : Prop :=
  (∀ es, TableText F file es → Sound F es →
    r.1 = .success ∧ r.2.overflow = false ∧ Found r.2.table es) ∧
  ((∀ es, ¬ TableText F file es) → r.1 = syntaxError)

/-- The files that are read so: the identifiers of a well-formed table are the
lowest bits and its names are shorter than their fields, and a file that is no
table has nothing that lets it pass. -/
def Suits (F : TableFormat δ) (file : List Char) : Prop :=
  (∀ es, TableText F file es → Sound F es →
    Dense F es ∧ ∀ e ∈ es, (F.name e).length < F.nameSize) ∧
  ((∀ es, ¬ TableText F file es) → ¬ Passes F 0 file)

variable {F : TableFormat δ} {es : List δ} {file : List Char}

theorem load_table (h : TableText F file es) (hfit : es.length ≤ tableSize) :
    ∃ l, load F file { table := F.bzeroTable } = (true, l) ∧ Loaded F l es := by
  refine ⟨es.foldl (Loading.push F) { table := F.bzeroTable }, ?_, ?_⟩
  · exact load_text h ((Nat.zero_add es.length).symm ▸ hfit)
  · have hloaded := loaded_nil.foldl (F := F) es
    rwa [List.nil_append] at hloaded

theorem Loaded.overflow_iff {l : Loading δ} (h : Loaded F l es) :
    l.overflow = false ↔ ∀ e ∈ es, (F.name e).length < F.nameSize := by
  rw [← Bool.not_eq_true, h.overflow]
  simp only [not_exists, not_and, Nat.not_le]

theorem reads_iff {Found : Table δ → List δ → Prop} {read syntaxError : XmemError}
    (herror : syntaxError ≠ .success)
    (hfound : ∀ l es, Loaded F l es → Sound F es → (Found l.table es ↔ Dense F es)) :
    Reads F Found syntaxError file
        (readTableFile F read syntaxError (some file) F.bzeroTable) ↔
      Suits F file := by
  have hread : readTableFile F read syntaxError (some file) F.bzeroTable =
      (if (load F file { table := F.bzeroTable }).1 then .success else syntaxError,
        (load F file { table := F.bzeroTable }).2) := rfl
  refine and_congr ?_ ?_
  · refine forall_congr' fun es => forall_congr' fun htext => forall_congr' fun hsound => ?_
    obtain ⟨l, hload, hloaded⟩ := load_table htext hsound.fits
    rw [hread, hload, hloaded.overflow_iff, hfound l es hloaded hsound]
    simp only [if_true, true_and]
    exact and_comm
  · refine forall_congr' fun _ => ?_
    have hpasses := load_passes (F := F) (s := file) (l := { table := F.bzeroTable })
    rw [hread, ← hpasses]
    split
    case isTrue hsuccess =>
      exact ⟨fun h => absurd h.symm herror, fun h => absurd hsuccess h⟩
    case isFalse hfails => exact ⟨fun _ => hfails, fun _ => rfl⟩

end Read

theorem nodesFound_iff {l : Loading NodeDesc} {es : List NodeDesc}
    (h : Loaded nodeFormat l es) (hsound : Sound nodeFormat es) :
    NodesFound l.table es ↔ Dense nodeFormat es := by
  constructor
  · intro hfound
    refine h.dense hsound fun e he => ?_
    obtain ⟨d, hd, -⟩ := Option.map_eq_some_iff.mp (hfound.name e he)
    exact ⟨d, hd⟩
  · intro hdense
    have hid : ∀ k, (l.table.find fun d => d.id = k) = lookup NodeDesc.id k es :=
      h.find_eq hsound hdense hsound.ids
    have hname : ∀ k, (l.table.find fun d => d.name = k) = lookup NodeDesc.name k es :=
      h.find_eq hsound hdense hsound.names
    have hentry : ∀ e ∈ es, lookup NodeDesc.id e.id es = some e :=
      fun _ he => hsound.ids.lookup_self he
    have hnamed : ∀ e ∈ es, lookup NodeDesc.name e.name es = some e :=
      fun _ he => hsound.names.lookup_self he
    constructor
    case name =>
      intro e he
      rw [xmemGetNodeName, if_pos rfl, hid, hentry e he]
      rfl
    case id =>
      intro e he
      rw [xmemGetNodeId, if_pos rfl, hname, hnamed e he]
    case noName =>
      intro node hnode
      rw [xmemGetNodeName, if_pos rfl, hid, lookup_of_notMem hnode]
      rfl
    case noId =>
      intro name hno
      rw [xmemGetNodeId, if_pos rfl, hname, lookup_of_notMem hno]

theorem segsFound_iff {l : Loading SegDesc} {es : List SegDesc}
    (h : Loaded segFormat l es) (hsound : Sound segFormat es) :
    SegsFound l.table es ↔ Dense segFormat es := by
  constructor
  · intro hfound
    refine h.dense hsound fun e he => ?_
    obtain ⟨d, hd, -⟩ := Option.map_eq_some_iff.mp (hfound.name e he)
    exact ⟨d, hd⟩
  · intro hdense
    have hid : ∀ k, (l.table.find fun d => d.id = k) = lookup SegDesc.id k es :=
      h.find_eq hsound hdense hsound.ids
    have hname : ∀ k, (l.table.find fun d => d.name = k) = lookup SegDesc.name k es :=
      h.find_eq hsound hdense hsound.names
    have hentry : ∀ e ∈ es, lookup SegDesc.id e.id es = some e :=
      fun _ he => hsound.ids.lookup_self he
    have hnamed : ∀ e ∈ es, lookup SegDesc.name e.name es = some e :=
      fun _ he => hsound.names.lookup_self he
    constructor
    case name =>
      intro e he
      rw [xmemGetTableName, if_pos rfl, hid, hentry e he]
      rfl
    case id =>
      intro e he
      rw [xmemGetTableId, if_pos rfl, hname, hnamed e he]
    case desc =>
      intro e he markersMask
      rw [xmemGetTableDesc, if_pos rfl, hid, hentry e he]
    case noName =>
      intro table htable
      rw [xmemGetTableName, if_pos rfl, hid, lookup_of_notMem htable]
      rfl
    case noId =>
      intro name hno
      rw [xmemGetTableId, if_pos rfl, hname, lookup_of_notMem hno]
    case noDesc =>
      intro table htable markersMask
      rw [xmemGetTableDesc, if_pos rfl, hid, lookup_of_notMem htable]

end Coht.XmemTables
