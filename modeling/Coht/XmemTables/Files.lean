import Coht.Lib.Scanf
import Mathlib.Logic.Function.Basic

/-!
# The files of the nodes and the segments (`libxmem.c`, `xmemDrvr.h`)

The library reads its two tables from files, one line for each entry, and keeps
the entries by position. `fscanf()` reads an entry, and what it does not read
is looked at character by character: a line that is empty, blank, or begins
with a hash is skipped, and any other text is a syntax error. What `fscanf()`
has converted before it fails stays in the descriptor of the position, and what
it has read is not read again.

Both files are read by the same loop. A `TableFormat` says what a line of a
file has, and where `fscanf()` puts it: a name, an identifier, and more numbers
for a segment. A file that cannot be opened is `none`, and a name that its
field does not hold is noted as an overflow, behind which the state of the
memory is no longer known.
-/

namespace Coht.XmemTables

open Coht.Lib

abbrev U32 := BitVec 32

inductive XmemError
  | success
  | notInitialized
  | segTableRead
  | segTableSyntax
  | nodeTableRead
  | nodeTableSyntax
  | noSuchTable
  deriving DecidableEq

/-- `XmemDrvrNODES`, `XmemDrvrSEGMENTS`, `XmemMAX_NODES` and
`XmemMAX_TABLES`. -/
abbrev tableSize : Nat := 32

def XmemDrvrSEG_NAME_SIZE : Nat := 16
def XmemDrvrNODE_NAME_SIZE : Nat := 32

structure NodeDesc where
  name : List Char := []
  id : U32 := 0
  deriving DecidableEq

structure SegDesc where
  name : List Char := []
  id : U32 := 0
  size : U32 := 0
  address : U32 := 0
  nodes : U32 := 0
  user : U32 := 0
  deriving DecidableEq

/-- The string in a buffer. -/
def cString (text : List Char) : List Char := text.takeWhile (· ≠ '\x00')

section Formats

variable {δ : Type}

/-- `fscanf()` stores the numbers one after the other. -/
def assignNumbers : List (U32 → δ → δ) → List Converted → δ → δ
  | set :: sets, .number v :: cs, d => assignNumbers sets cs (set v d)
  | _, _, d => d

/-- What a line has, and the fields that `fscanf()` stores it in. -/
structure TableFormat (δ : Type) where
  nameSize : Nat
  bzero : δ
  name : δ → List Char
  id : δ → U32
  others : δ → List U32
  setName : List Char → δ → δ
  setId : U32 → δ → δ
  setOthers : List (U32 → δ → δ)
  id_bzero : id bzero = 0
  others_length : ∀ d, (others d).length = setOthers.length
  set_all : ∀ d e, assignNumbers (setId :: setOthers)
    ((id e :: others e).map Converted.number) (setName (name e) d) = e

/-- `" 0x%lx"` for each number, and the end of the line. -/
def numbersFormat : Nat → List Directive
  | 0 => [.space, .char '}', .space]
  | k + 1 => .space :: .char '0' :: .char 'x' :: .hex :: numbersFormat k

variable (F : TableFormat δ)

/-- `"{ %s 0x%lx ... }\n"`. -/
def TableFormat.format : List Directive :=
  .char '{' :: .space :: .word :: numbersFormat (F.setOthers.length + 1)

/-- What `fscanf()` returns for a whole line. -/
def TableFormat.conversions : Nat := F.setOthers.length + 2

def TableFormat.assign : List Converted → δ → δ
  | .word text :: cs, d =>
    assignNumbers (F.setId :: F.setOthers) cs (F.setName (cString text) d)
  | _, d => d

/-- `%s` stores a null behind the name. -/
def TableFormat.overruns : List Converted → Bool
  | .word text :: _ => F.nameSize ≤ text.length
  | _ => false

end Formats

def nodeFormat : TableFormat NodeDesc where
  nameSize := XmemDrvrNODE_NAME_SIZE
  bzero := {}
  name := NodeDesc.name
  id := NodeDesc.id
  others _ := []
  setName name d := { d with name }
  setId id d := { d with id }
  setOthers := []
  id_bzero := rfl
  others_length _ := rfl
  set_all _ _ := rfl

def segFormat : TableFormat SegDesc where
  nameSize := XmemDrvrSEG_NAME_SIZE
  bzero := {}
  name := SegDesc.name
  id := SegDesc.id
  others d := [d.size, d.address, d.nodes, d.user]
  setName name d := { d with name }
  setId id d := { d with id }
  setOthers :=
    [fun size d => { d with size }, fun address d => { d with address },
      fun nodes d => { d with nodes }, fun user d => { d with user }]
  id_bzero := rfl
  others_length _ := rfl
  set_all _ _ := rfl

/-- `XmemDrvrNodeTable` and `XmemDrvrSegTable`. -/
structure Table (δ : Type) where
  used : U32 := 0
  descriptors : Nat → δ

def TableFormat.bzeroTable {δ : Type} (F : TableFormat δ) : Table δ :=
  { descriptors := fun _ => F.bzero }

/-! ## The loop -/

/-- The table, with the counter of its entries, which is also the position that
the loop has come to. -/
structure Loading (δ : Type) where
  table : Table δ
  count : Nat := 0
  overflow : Bool := false

def skipComment : List Char → List Char
  | [] => []
  | c :: t => if c = '\n' then t else skipComment t

def skipBlank : List Char → Option (List Char)
  | [] => some []
  | c :: t =>
    if c = '\n' then some t
    else if isSpace c then skipBlank t
    else none

/-- What is no entry, from its first character. -/
def skipLine (c : Char) (t : List Char) : Option (List Char) :=
  if c = '\n' then some t
  else if c = '#' then some (skipComment t)
  else if isSpace c then skipBlank t
  else none

section Loop

variable {δ : Type} (F : TableFormat δ)

/-- What `fscanf()` has converted is stored at the position. -/
def Loading.store (l : Loading δ) (cs : List Converted) : Loading δ :=
  { l with
    table := { l.table with
      descriptors := Function.update l.table.descriptors l.count
        (F.assign cs (l.table.descriptors l.count)) }
    overflow := l.overflow || F.overruns cs }

def Loading.enter (l : Loading δ) : Loading δ :=
  { l with
    table := { l.table with
      used := l.table.used ||| F.id (l.table.descriptors l.count) }
    count := l.count + 1 }

/-- The loop of a file, and whether it ends without a syntax error. Each round
reads at least one character, and the first argument bounds the rounds. -/
def readLoop : Nat → List Char → Loading δ → Bool × Loading δ
  | 0, _, l => (true, l)
  | fuel + 1, s, l =>
    if l.count < tableSize then
      let r := scanf F.format s
      let l := l.store F r.1
      if r.1.length = F.conversions then readLoop fuel r.2 (l.enter F)
      else
        match r.2 with
        | [] => (true, l)
        | c :: t =>
          match skipLine c t with
          | some u => readLoop fuel u l
          | none => (false, l)
    else (true, l)

def load (s : List Char) (l : Loading δ) : Bool × Loading δ :=
  readLoop F (s.length + 1) s l

def readTableFile (read syntaxError : XmemError) (file : Option (List Char))
    (t : Table δ) : XmemError × Loading δ :=
  match file with
  | none => (read, { table := t })
  | some s =>
    let r := load F s { table := { t with used := 0 } }
    (if r.1 then .success else syntaxError, r.2)

end Loop

def xmemReadNodeTableFile (file : Option (List Char)) (nodeTab : Table NodeDesc) :
    XmemError × Loading NodeDesc :=
  readTableFile nodeFormat .nodeTableRead .nodeTableSyntax file nodeTab

def xmemReadSegTableFile (file : Option (List Char)) (segTab : Table SegDesc) :
    XmemError × Loading SegDesc :=
  readTableFile segFormat .segTableRead .segTableSyntax file segTab

/-! ## The lines that are skipped -/

/-- A comment, or a line that is empty or blank. -/
structure Ignored (line : List Char) : Prop where
  oneLine : '\n' ∉ line
  kind : (∃ body, line = '#' :: body) ∨ ∀ c ∈ line, isSpace c

section Skipped

variable {c : Char} {s t line : List Char}

theorem ignored_nil : Ignored [] :=
  ⟨List.not_mem_nil, .inr fun _ hc => by cases hc⟩

def Splits (s line t : List Char) : Prop :=
  '\n' ∉ line ∧ (s = line ++ '\n' :: t ∨ s = line ∧ t = [])

theorem Splits.cons (hc : c ≠ '\n') (h : Splits s line t) :
    Splits (c :: s) (c :: line) t := by
  obtain ⟨hline, hs⟩ := h
  refine ⟨?_, hs.imp ?_ ?_⟩
  · intro hmem
    rcases List.mem_cons.mp hmem with heq | hmem
    · exact hc heq.symm
    · exact hline hmem
  · rintro rfl
    rfl
  · rintro ⟨rfl, rfl⟩
    exact ⟨rfl, rfl⟩

theorem Splits.of_cons (h : Splits s (c :: line) t) :
    ∃ u, s = c :: u ∧ c ≠ '\n' ∧ Splits u line t := by
  obtain ⟨hmem, hs⟩ := h
  have hc : c ≠ '\n' := fun heq => hmem (heq ▸ List.mem_cons_self)
  have hline : '\n' ∉ line := fun h => hmem (List.mem_cons_of_mem _ h)
  rcases hs with rfl | ⟨rfl, ht⟩
  · exact ⟨line ++ '\n' :: t, rfl, hc, hline, .inl rfl⟩
  · exact ⟨line, rfl, hc, hline, .inr ⟨rfl, ht⟩⟩

theorem splits_newline : Splits ('\n' :: t) [] t :=
  ⟨List.not_mem_nil, .inl rfl⟩

theorem splits_nil : Splits [] [] [] :=
  ⟨List.not_mem_nil, .inr ⟨rfl, rfl⟩⟩

theorem Splits.length_lt (h : Splits (c :: s) line t) : t.length ≤ s.length := by
  obtain ⟨-, heq | ⟨-, rfl⟩⟩ := h
  · have hlength := congrArg List.length heq
    simp only [List.length_cons, List.length_append] at hlength
    omega
  · exact Nat.zero_le _

theorem skipComment_splits (s : List Char) : ∃ line, Splits s line (skipComment s) := by
  induction s with
  | nil => exact ⟨[], splits_nil⟩
  | cons c s ih =>
    rw [skipComment]
    split
    case isTrue hc =>
      subst hc
      exact ⟨[], splits_newline⟩
    case isFalse hc =>
      obtain ⟨line, hline⟩ := ih
      exact ⟨c :: line, hline.cons hc⟩

theorem skipComment_eq (h : Splits s line t) : skipComment s = t := by
  induction line generalizing s with
  | nil =>
    obtain ⟨-, rfl | ⟨rfl, rfl⟩⟩ := h
    · rfl
    · rfl
  | cons c line ih =>
    obtain ⟨u, rfl, hc, hu⟩ := h.of_cons
    rw [skipComment, if_neg hc]
    exact ih hu

theorem skipBlank_splits (h : skipBlank s = some t) :
    ∃ line, Splits s line t ∧ ∀ c ∈ line, isSpace c := by
  induction s with
  | nil =>
    cases h
    exact ⟨[], splits_nil, fun _ hc => by cases hc⟩
  | cons c s ih =>
    rw [skipBlank] at h
    split at h
    case isTrue hc =>
      subst hc
      cases h
      exact ⟨[], splits_newline, fun _ hc => by cases hc⟩
    case isFalse hc =>
      split at h
      case isTrue hspace =>
        obtain ⟨line, hline, hblank⟩ := ih h
        exact ⟨c :: line, hline.cons hc, List.forall_mem_cons.mpr ⟨hspace, hblank⟩⟩
      case isFalse => cases h

theorem skipBlank_eq (h : Splits s line t) (hblank : ∀ c ∈ line, isSpace c) :
    skipBlank s = some t := by
  induction line generalizing s with
  | nil =>
    obtain ⟨-, rfl | ⟨rfl, rfl⟩⟩ := h
    · rfl
    · rfl
  | cons c line ih =>
    obtain ⟨u, rfl, hc, hu⟩ := h.of_cons
    obtain ⟨hspace, hblank⟩ := List.forall_mem_cons.mp hblank
    rw [skipBlank, if_neg hc, if_pos hspace]
    exact ih hu hblank

theorem skipLine_iff :
    skipLine c s = some t ↔ ∃ line, Splits (c :: s) line t ∧ Ignored line := by
  constructor
  · intro h
    unfold skipLine at h
    split at h
    case isTrue hc =>
      subst hc
      cases h
      exact ⟨[], splits_newline, ignored_nil⟩
    case isFalse hc =>
      split at h
      case isTrue hhash =>
        subst hhash
        cases h
        obtain ⟨line, hline⟩ := skipComment_splits s
        have hcons := hline.cons hc
        exact ⟨'#' :: line, hcons, hcons.1, .inl ⟨line, rfl⟩⟩
      case isFalse =>
        split at h
        case isTrue hspace =>
          obtain ⟨line, hline, hblank⟩ := skipBlank_splits h
          have hcons := hline.cons hc
          exact ⟨c :: line, hcons, hcons.1,
            .inr (List.forall_mem_cons.mpr ⟨hspace, hblank⟩)⟩
        case isFalse => cases h
  · rintro ⟨line, hsplit, -, hkind⟩
    unfold skipLine
    rcases hkind with ⟨body, rfl⟩ | hblank
    · obtain ⟨u, heq, hc, hbody⟩ := hsplit.of_cons
      obtain ⟨rfl, rfl⟩ := List.cons.inj heq
      rw [if_neg hc, if_pos rfl, skipComment_eq hbody]
    · have hskip := skipBlank_eq hsplit hblank
      rw [skipBlank] at hskip
      split
      case isTrue hc => rwa [if_pos hc] at hskip
      case isFalse hc =>
        rw [if_neg hc] at hskip
        split
        case isTrue hhash =>
          rw [hhash] at hskip
          cases hskip
        case isFalse => exact hskip

end Skipped

end Coht.XmemTables
