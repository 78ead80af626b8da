import Coht.InsLib.ConfigData
import Coht.Lib.Numeral
import Mathlib.Algebra.Group.Nat.Defs
import Mathlib.Data.List.Nodup

/-!
# The attributes of an element (`libinst.c`)

Each element of the install file is read by a loop over its attributes. The
loop looks the name of an attribute up and has a branch for each of the key
words that the element knows; at any other it ends. All these loops are one
here, `attrLoop`, over a table with a `Row` for each branch.

A row says what the branch does with the text, and next to it what the
attribute means: the field the text belongs to and the texts that the field can
hold. `attrLoop_described` is what comes of it: where every attribute has a row
and fits it, the record says what the attributes do, in whatever order they
were.

The value of an attribute without text is not there at all. The loop then takes
up the value it had before.
-/

namespace Coht.InsLib

open Coht.Lib

/-! ## Key words -/

/-- XML Entity Key words -/
inductive KeyWord
  | empty
  | install
  | host
  | driver
  | name
  | drivergen
  | installDebugLevel
  | emulationFlag
  | comment
  | module
  | busType
  | logicalModuleNumber
  | extra
  | pci
  | busNumber
  | slotNumber
  | vendorId
  | deviceId
  | subvendorId
  | subdeviceId
  | carrier
  | drvrName
  | motherboardNumber
  | interrupt
  | vector
  | level
  | pciSpace
  | bar
  | endian
  | vmeSpace
  | modifier
  | dataWidth
  | windowSize
  | address
  | freeFlag
  | carrierSpace
  | vme
  | ignoreInstallErrors
  deriving DecidableEq, Repr

/-- The bytes of an ASCII text. -/
def ascii (s : String) : CString := s.toList.map fun c => c.toNat.toUInt8

def keywords : List (CString × KeyWord) :=
  [(ascii "empty", .empty),
   (ascii "install", .install),
   (ascii "host", .host),
   (ascii "driver", .driver),
   (ascii "name", .name),
   (ascii "drivergen", .drivergen),
   (ascii "install_debug_level", .installDebugLevel),
   (ascii "emulation_flag", .emulationFlag),
   (ascii "comment", .comment),
   (ascii "module", .module),
   (ascii "bus_type", .busType),
   (ascii "logical_module_number", .logicalModuleNumber),
   (ascii "extra", .extra),
   (ascii "pci", .pci),
   (ascii "bus_number", .busNumber),
   (ascii "slot_number", .slotNumber),
   (ascii "vendor_id", .vendorId),
   (ascii "device_id", .deviceId),
   (ascii "subvendor_id", .subvendorId),
   (ascii "subdevice_id", .subdeviceId),
   (ascii "carrier", .carrier),
   (ascii "driver_name", .drvrName),
   (ascii "motherboard_number", .motherboardNumber),
   (ascii "interrupt", .interrupt),
   (ascii "vector", .vector),
   (ascii "level", .level),
   (ascii "pci_space", .pciSpace),
   (ascii "bar", .bar),
   (ascii "endian", .endian),
   (ascii "vme_space", .vmeSpace),
   (ascii "modifier", .modifier),
   (ascii "data_width", .dataWidth),
   (ascii "window_size", .windowSize),
   (ascii "address", .address),
   (ascii "free_flag", .freeFlag),
   (ascii "carrier_space", .carrierSpace),
   (ascii "vme", .vme),
   (ascii "ignore_install_errors", .ignoreInstallErrors)]

def lookUp (name : CString) : KeyWord := (keywords.lookup name).getD .empty

theorem lookUp_mem {name : CString} (hne : lookUp name ≠ .empty) :
    (name, lookUp name) ∈ keywords := by
  unfold lookUp at hne ⊢
  cases hk : keywords.lookup name with
  | none => exact absurd (by rw [hk]; rfl) hne
  | some k =>
    rw [hk] at hne
    obtain ⟨l, r, hl, -⟩ := List.lookup_eq_some_iff.mp hk
    rw [hl]
    exact List.mem_append_right _ List.mem_cons_self

theorem lookUp_inj {name name' : CString} (h : lookUp name = lookUp name')
    (hne : lookUp name ≠ .empty) : name = name' := by
  have hnodup : (keywords.map (·.2)).Nodup := by decide +kernel
  exact congrArg Prod.fst
    (List.inj_on_of_nodup_map hnodup (lookUp_mem hne) (lookUp_mem (h ▸ hne)) h)

/-! ## Attributes -/

/-- An attribute with the content of its first child, if there is one. -/
structure XmlAttr where
  name : CString
  children : Option CString
  deriving DecidableEq, Repr

/-- The text that was written. -/
def XmlAttr.value (a : XmlAttr) : CString := a.children.getD []

/-- What `GetNextProp()` leaves in `pvalu`. -/
def XmlAttr.given (a : XmlAttr) (pvalu : Option CString) : Option CString :=
  a.children <|> pvalu

theorem XmlAttr.given_eq {a : XmlAttr} (h : a.value ≠ []) (pvalu : Option CString) :
    a.given pvalu = some a.value := by
  cases hc : a.children with
  | none => exact absurd (by rw [XmlAttr.value, hc]; rfl) h
  | some text => simp [XmlAttr.given, XmlAttr.value, hc]

def chars (txt : CString) : List Char := txt.map fun b => Char.ofNat b.toNat

/-- The number and the errors that were counted. -/
def getNumber (txt : CString) : BitVec 32 × Nat :=
  let r := strtoul (chars txt)
  (r.1, if r.2.length = txt.length then 1 else 0)

/-! ## Rows -/

/-- What a branch of a loop over attributes comes to. -/
inductive Taken (V : Type)
  | value (v : V) (errors : Nat)
  | nothing (errors : Nat)
  /-- The record is freed and the function returns null. -/
  | failed (errors : Nat)
  /-- The text is read where there is none, or memory is written that is not
  allocated. -/
  | fault

/-- A field of a record. -/
structure Field (R V : Type) where
  get : R → V
  set : R → V → R
  get_set : ∀ r v, get (set r v) = v

/-- A branch of a loop over attributes, and what its attribute means: the text
`s` is to be in the field, as `holds` says, and this can be if `fits s`. -/
structure Row (R : Type) where
  key : KeyWord
  V : Type
  take : Option CString → Taken V
  set : R → V → R
  get : R → V
  holds : V → CString → Prop
  fits : CString → Prop
  get_set : ∀ {s}, fits s → ∀ r v, get (set r v) = v
  taken : ∀ {a : XmlAttr} {p}, fits a.value →
    (∃ v n, take (a.given p) = .value v n ∧ holds v a.value) ∨
      ∃ n, take (a.given p) = .failed n
  failed_errors : ∀ {p n}, take p = .failed n → 0 < n

section Rows

variable {R V : Type}

/-- What a branch does with a text. Without one it reads from wherever `pvalu`
points to. -/
def reading (f : CString → Taken V) : Option CString → Taken V
  | none => .fault
  | some s => f s

/-- `strncpy()` into an array of so many bytes, all zero. -/
def textRow (key : KeyWord) (size : Nat) (f : Field R CString) : Row R where
  key := key
  V := CString
  take := reading fun s => .value (s.take size) 0
  set := f.set
  get := f.get
  holds v s := v = s ∧ s ≠ [] ∧ s.length < size
  fits s := s ≠ [] ∧ s.length < size
  get_set _ := f.get_set
  taken := by
    intro a p hfits
    rw [XmlAttr.given_eq hfits.1]
    refine .inl ⟨_, 0, rfl, ?_, hfits⟩
    exact List.take_of_length_le (Nat.le_of_lt hfits.2)
  failed_errors := by
    intro p n h
    cases p <;> cases h

/-- A number that is in a field as it was written. -/
def HoldsNumber (v : BitVec 32) (s : CString) : Prop :=
  numeral (chars s) = some (v.toNat : Int)

theorem HoldsNumber.ne_nil {v : BitVec 32} {s : CString} (h : HoldsNumber v s) :
    s ≠ [] := by
  rintro rfl
  cases h

theorem HoldsNumber.getNumber {v : BitVec 32} {s : CString}
    (h : HoldsNumber v s) : (getNumber s).1 = v := strtoul_numeral h

/-- `GetNumber()` and a check of the number, which counts an error, or gives up
on the record. -/
def checkedRow (key : KeyWord) (f : Field R (BitVec 32)) (bad : BitVec 32 → Bool)
    (givesUp : Bool) : Row R where
  key := key
  V := BitVec 32
  take := reading fun s =>
    let n := getNumber s
    if bad n.1 then
      if givesUp then .failed (n.2 + 1) else .value n.1 (n.2 + 1)
    else .value n.1 n.2
  set := f.set
  get := f.get
  holds := HoldsNumber
  fits s := ∃ v, HoldsNumber v s
  get_set _ := f.get_set
  taken := by
    rintro a p ⟨v, hv⟩
    rw [XmlAttr.given_eq hv.ne_nil]
    simp only [reading, hv.getNumber]
    cases bad v <;> cases givesUp
    · exact .inl ⟨v, _, rfl, hv⟩
    · exact .inl ⟨v, _, rfl, hv⟩
    · exact .inl ⟨v, _, rfl, hv⟩
    · exact .inr ⟨_, rfl⟩
  failed_errors := by
    intro p n h
    cases p with
    | none => cases h
    | some s =>
      simp only [reading] at h
      split at h
      · split at h
        · injection h with h
          omega
        · cases h
      · cases h

def numberRow (key : KeyWord) (f : Field R (BitVec 32)) : Row R :=
  checkedRow key f (fun _ => false) false

/-- A text that is one of some words; any other counts an error. -/
def wordRow (key : KeyWord) (f : Field R V) (word : CString → Option V)
    (hword : word [] = none) : Row R where
  key := key
  V := V
  take := reading fun s => (word s).elim (.nothing 1) (.value · 0)
  set := f.set
  get := f.get
  holds v s := word s = some v
  fits s := ∃ v, word s = some v
  get_set _ := f.get_set
  taken := by
    rintro a p ⟨v, hv⟩
    have hne : a.value ≠ [] := by
      intro hnil
      rw [hnil, hword] at hv
      cases hv
    rw [XmlAttr.given_eq hne]
    refine .inl ⟨v, 0, ?_, hv⟩
    simp only [reading, hv]
    rfl
  failed_errors := by
    intro p n h
    cases p with
    | none => cases h
    | some s =>
      simp only [reading] at h
      cases hs : word s <;> rw [hs] at h <;> cases h

def Row.Exact (row : Row R) : Prop := ∀ v s, row.holds v s → row.fits s

@[simp] theorem textRow_exact {key : KeyWord} {size : Nat} {f : Field R CString} :
    (textRow key size f).Exact := fun _ _ h => h.2

@[simp] theorem checkedRow_exact {key : KeyWord} {f : Field R (BitVec 32)}
    {bad : BitVec 32 → Bool} {givesUp : Bool} :
    (checkedRow key f bad givesUp).Exact := fun v _ h => ⟨v, h⟩

@[simp] theorem numberRow_exact {key : KeyWord} {f : Field R (BitVec 32)} :
    (numberRow key f).Exact := checkedRow_exact

@[simp] theorem wordRow_exact {key : KeyWord} {f : Field R V}
    {word : CString → Option V} {hword : word [] = none} :
    (wordRow key f word hword).Exact := fun v _ h => ⟨v, h⟩

end Rows

/-! ## The loop -/

section Loop

variable {R : Type}

/-- What a loop over attributes ends with: the record and the errors, and where
the loop was not `done` but met a key word it does not know, it was `left`. -/
inductive Looped (R : Type)
  | done (r : R) (errors : Nat)
  | left (r : R) (errors : Nat)
  | failed (errors : Nat)
  | fault (errors : Nat)

def rowOf (table : List (Row R)) (a : XmlAttr) : Option (Row R) :=
  table.find? fun row => row.key = lookUp a.name

def attrLoop (table : List (Row R)) :
    List XmlAttr → Option CString → R → Nat → Looped R
  | [], _, r, errors => .done r errors
  | a :: prop, pvalu, r, errors =>
    match rowOf table a with
    | none => .left r errors
    | some row =>
      match row.take (a.given pvalu) with
      | .value v n =>
        attrLoop table prop (a.given pvalu) (row.set r v) (errors + n)
      | .nothing n => attrLoop table prop (a.given pvalu) r (errors + n)
      | .failed n => .failed (errors + n)
      | .fault => .fault errors

/-- What `pvalu` is after the loop. -/
def pvaluAfter (table : List (Row R)) :
    List XmlAttr → Option CString → Option CString
  | [], pvalu => pvalu
  | a :: prop, pvalu =>
    if (rowOf table a).isSome then pvaluAfter table prop (a.given pvalu)
    else a.given pvalu

/-- Each attribute is what the record has in the field it belongs to. -/
def Described (table : List (Row R)) (attrs : List XmlAttr) (r : R) : Prop :=
  ∀ a ∈ attrs, ∃ row ∈ table, row.key = lookUp a.name ∧
    row.holds (row.get r) a.value

/-- Each attribute is one of the element's, with a text that its field can
hold. -/
def Fit (table : List (Row R)) (attrs : List XmlAttr) : Prop :=
  ∀ a ∈ attrs, ∃ row ∈ table, row.key = lookUp a.name ∧ row.fits a.value

/-- The branches of a loop: each has a key word of its own, and a branch leaves
the fields of the others alone. -/
structure Table (R : Type) where
  rows : List (Row R)
  keys : (rows.map Row.key).Nodup
  known : ∀ row ∈ rows, row.key ≠ .empty
  apart : ∀ row ∈ rows, ∀ row' ∈ rows, row.key ≠ row'.key →
    ∀ r v, row'.get (row.set r v) = row'.get r

def Looped.record : Looped R → Option R
  | .done r _ | .left r _ => some r
  | .failed _ | .fault _ => none

def Looped.errors : Looped R → Nat
  | .done _ errors | .left _ errors | .failed errors | .fault errors => errors

variable {rows : List (Row R)} {t : Table R} {row : Row R} {a : XmlAttr}
  {attrs : List XmlAttr} {pvalu : Option CString} {r r' : R} {errors : Nat}

theorem rowOf_some (h : rowOf rows a = some row) :
    row ∈ rows ∧ row.key = lookUp a.name :=
  ⟨List.mem_of_find?_eq_some h, by simpa using List.find?_some h⟩

theorem Table.rowOf_eq (hrow : row ∈ t.rows) (hkey : row.key = lookUp a.name) :
    rowOf t.rows a = some row := by
  have hsome : (rowOf t.rows a).isSome :=
    List.find?_isSome.mpr ⟨row, hrow, by simpa using hkey⟩
  obtain ⟨found, hfound⟩ := Option.isSome_iff_exists.mp hsome
  obtain ⟨hmem, hkey'⟩ := rowOf_some hfound
  rw [hfound, List.inj_on_of_nodup_map t.keys hmem hrow (hkey'.trans hkey.symm)]

theorem attrLoop_errors :
    errors ≤ (attrLoop rows attrs pvalu r errors).errors := by
  induction attrs generalizing pvalu r errors with
  | nil => exact Nat.le_refl _
  | cons a attrs ih =>
    rw [attrLoop]
    split
    · exact Nat.le_refl _
    · split
      · exact Nat.le_trans (Nat.le_add_right _ _) ih
      · exact Nat.le_trans (Nat.le_add_right _ _) ih
      · exact Nat.le_add_right _ _
      · exact Nat.le_refl _

theorem attrLoop_failed {errors' : Nat}
    (h : attrLoop rows attrs pvalu r errors = .failed errors') :
    errors < errors' := by
  induction attrs generalizing pvalu r errors with
  | nil => cases h
  | cons a attrs ih =>
    rw [attrLoop] at h
    split at h
    · cases h
    · rename_i row _
      split at h
      · exact Nat.lt_of_le_of_lt (Nat.le_add_right _ _) (ih h)
      · exact Nat.lt_of_le_of_lt (Nat.le_add_right _ _) (ih h)
      · rename_i n hn
        have hpos := row.failed_errors hn
        injection h with h
        omega
      · cases h

theorem attrLoop_keeps {P : R → Prop}
    (hset : ∀ row ∈ rows, (∃ a ∈ attrs, row.key = lookUp a.name) →
      ∀ r p v n, row.take p = .value v n → P r → P (row.set r v))
    (hr : P r) (h : (attrLoop rows attrs pvalu r errors).record = some r') :
    P r' := by
  induction attrs generalizing pvalu r errors with
  | nil =>
    cases h
    exact hr
  | cons a attrs ih =>
    have hset' : ∀ row ∈ rows, (∃ a ∈ attrs, row.key = lookUp a.name) →
        ∀ r p v n, row.take p = .value v n → P r → P (row.set r v) := by
      rintro row hrow ⟨b, hb, hkey⟩
      exact hset row hrow ⟨b, List.mem_cons_of_mem _ hb, hkey⟩
    rw [attrLoop] at h
    split at h
    · cases h
      exact hr
    · rename_i row hfound
      obtain ⟨hrow, hkey⟩ := rowOf_some hfound
      split at h
      · rename_i v n hv
        exact ih hset'
          (hset row hrow ⟨a, List.mem_cons_self, hkey⟩ r _ v n hv hr) h
      · exact ih hset' hr h
      · cases h
      · cases h

theorem Table.attrLoop_get (hrow : row ∈ t.rows)
    (hnone : ∀ a ∈ attrs, lookUp a.name ≠ row.key)
    (h : (attrLoop t.rows attrs pvalu r errors).record = some r') :
    row.get r' = row.get r := by
  refine attrLoop_keeps (P := fun r' => row.get r' = row.get r) ?_ rfl h
  rintro other hother ⟨a, ha, hkey⟩ r₁ p v n - hr₁
  have hne : other.key ≠ row.key := fun heq => hnone a ha (hkey ▸ heq)
  exact (t.apart other hother row hrow hne r₁ v).trans hr₁

theorem Table.attrLoop_described (hnames : (attrs.map XmlAttr.name).Nodup)
    (hfit : Fit t.rows attrs) :
    (∃ r' errors', attrLoop t.rows attrs pvalu r errors = .done r' errors' ∧
      Described t.rows attrs r') ∨
    ∃ errors', attrLoop t.rows attrs pvalu r errors = .failed errors' := by
  induction attrs generalizing pvalu r errors with
  | nil => exact .inl ⟨r, errors, rfl, fun a ha => by cases ha⟩
  | cons a attrs ih =>
    obtain ⟨row, hrow, hkey, hfits⟩ := hfit a List.mem_cons_self
    rw [List.map_cons, List.nodup_cons] at hnames
    have hnone : ∀ b ∈ attrs, lookUp b.name ≠ row.key := by
      intro b hb heq
      refine hnames.1 (List.mem_map.mpr ⟨b, hb, ?_⟩)
      exact lookUp_inj (heq.trans hkey) (heq ▸ t.known row hrow)
    have hfit' : Fit t.rows attrs := fun b hb =>
      hfit b (List.mem_cons_of_mem _ hb)
    simp only [attrLoop, t.rowOf_eq hrow hkey]
    rcases row.taken (p := pvalu) hfits with ⟨v, n, hv, hholds⟩ | ⟨n, hn⟩
    · rw [hv]
      dsimp only
      rcases ih hnames.2 hfit' with ⟨r', errors', hdone, hdesc⟩ | hfailed
      · refine .inl ⟨r', errors', hdone, ?_⟩
        intro b hb
        rcases List.mem_cons.mp hb with rfl | hb
        · refine ⟨row, hrow, hkey, ?_⟩
          rw [t.attrLoop_get hrow hnone (by rw [hdone]; rfl),
            row.get_set hfits]
          exact hholds
        · exact hdesc b hb
      · exact .inr hfailed
    · exact .inr ⟨_, by rw [hn]⟩

theorem Described.fit (h : Described rows attrs r)
    (hexact : ∀ row ∈ rows, row.Exact ∨ ∀ s, ¬ row.holds (row.get r) s) :
    Fit rows attrs := by
  intro a ha
  obtain ⟨row, hrow, hkey, hholds⟩ := h a ha
  refine ⟨row, hrow, hkey, ?_⟩
  rcases hexact row hrow with hrow | hno
  · exact hrow _ _ hholds
  · exact absurd hholds (hno _)

end Loop

end Coht.InsLib
