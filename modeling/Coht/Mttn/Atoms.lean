import Coht.Lib.Numeral
import Coht.Mttn.Opcodes

/-!
# The assembler's atoms (`asm.c`, `asmP.h`)

`GetAtoms()` chops a source text up into atoms. Spaces make no atom, a newline
makes a separator, and so does a comment that runs into one; the closing mark
of a comment opens the next. An at sign ends the source like the zero at its
end. The list always ends with one more atom, still as `NewAtom()` left it,
which is a separator.

Positions, line numbers and the texts of separators serve the listing and the
error reports only. A name, an operator or a comment that overflows its
buffer of `TEXT` characters is undefined, and so is the whole list here. Plain
`char` is unsigned. `getAtomsLoop` runs on fuel, one unit for a character;
`getAtomsLoop_fuel` says that more makes no difference.
-/

namespace Coht.Mttn

open Coht.Lib

inductive AtomType
  | seperator | operator | open | close | comment | numeric | alpha
  | openIndex | closeIndex | illegalChar | terminator | bit
  | opCode | register | expression | notSet
deriving DecidableEq

structure Atom where
  type : AtomType := .seperator
  text : List Char := []
  value : BitVec 32 := 0
deriving DecidableEq

/-- `NewAtom()`: all zeros. -/
def newAtom : Atom := {}

def atomhash (c : Char) : AtomType :=
  if '0' ≤ c ∧ c ≤ '9' then .numeric
  else if 'A' ≤ c ∧ c ≤ 'Z' ∨ 'a' ≤ c ∧ c ≤ 'z' ∨ c = '_' then .alpha
  else match c with
    | '\x00' | '@' => .terminator
    | '\t' | '\n' | '\x0d' | ' ' | ',' => .seperator
    | '!' | '&' | '*' | '+' | '-' | '/' | ':' | ';' | '<' | '=' | '>' | '?'
    | '~' => .operator
    | '(' => .open
    | ')' => .close
    | '[' => .openIndex
    | ']' => .closeIndex
    | '#' | '%' => .comment
    | '.' => .bit
    | _ => .illegalChar

inductive OprId
  | noop
  | ne | eq | gt | ge | lt | le | as
  | pl | mi | ti | di | and | or | xor
  | not | neg | lsh | rsh | inc | decr | pop
  | stm | lbl
deriving DecidableEq

/-- `OprNames`, in the order of the enumeration. -/
def oprNames : List (OprId × String) := [
  (.noop, "?"), (.ne, "!="), (.eq, "="), (.gt, ">"), (.ge, ">="), (.lt, "<"),
  (.le, "<="), (.as, ":="), (.pl, "+"), (.mi, "-"), (.ti, "*"), (.di, "/"),
  (.and, "&"), (.or, "!"), (.xor, "!!"), (.not, "~"), (.neg, "-~"),
  (.lsh, "<<"), (.rsh, ">>"), (.inc, "++"), (.decr, "--"), (.pop, ";"),
  (.stm, "->"), (.lbl, ":")]

/-! ## Names that are special -/

/-- `StrToUpper()`. -/
def strToUpper (text : List Char) : List Char :=
  text.map fun c =>
    if atomhash c = .alpha ∧ 'a' ≤ c then Char.ofNat (c.toNat - 32) else c

def lookUpOpCode (text : List Char) : Option Nat :=
  if text.length ≤ 8 then
    instructionSet.findIdx? fun o => o.name.toList = strToUpper text
  else none

/-- A register by the name of its row and a number, or by a name that begins
with the name of a single register. -/
def lookUpRange (text : List Char) (r : RegisterDsc) : Option Nat :=
  let name := r.name.toList
  if name.isPrefixOf (strToUpper text) then
    if r.start < r.last then
      if name.length < text.length then
        let rn := strtoul (text.drop name.length)
        if rn.2 ≠ text.drop name.length ∧ r.offset ≤ rn.1.toNat ∧
            rn.1.toNat ≤ r.last - r.start + r.offset then
          some (r.start + rn.1.toNat - r.offset)
        else none
      else none
    else some r.start
  else none

def lookUpRegister (text : List Char) : Option Nat :=
  if text.length ≤ 8 then
    match regs.find? fun r => r.name.toList = strToUpper text with
    | some r => some r.start
    | none => regs.findSome? (lookUpRange text)
  else none

def alphaAtom (text : List Char) : Atom :=
  match lookUpOpCode text with
  | some i => { type := .opCode, text, value := BitVec.ofNat 32 i }
  | none =>
    match lookUpRegister text with
    | some r => { type := .register, text, value := BitVec.ofNat 32 r }
    | none => { type := .alpha, text }

def operatorAtom (text : List Char) : Atom where
  type := .operator
  text := text
  value := match oprNames.findIdx? fun o => o.2.toList = text with
    | some i => BitVec.ofNat 32 i
    | none => 0

/-- The operator of an atom: `oprId = atom->Value`. -/
def Atom.oprId (a : Atom) : OprId :=
  match oprNames[a.value.toNat]? with
  | some o => o.1
  | none => .noop

/-! ## The scanner -/

def TEXT : Nat := 128

inductive Scan
  | stop (illegal : Bool)
  | skip (rest : List Char)
  | atom (a : Atom) (rest : List Char)
  | overflow

def inComment (c : Char) : Bool := atomhash c ≠ .comment ∧ c ≠ '\n'

def inWord (c : Char) : Bool := atomhash c = .alpha ∨ atomhash c = .numeric

def inOperator (c : Char) : Bool := atomhash c = .operator

/-- A comment from behind its mark. -/
def scanComment (s : List Char) : Scan :=
  let text := s.takeWhile inComment
  if TEXT ≤ text.length then .overflow
  else match s.dropWhile inComment with
    | [] => .atom { text } []
    | c :: rest =>
      if c = '\n' then .atom { text } rest
      else .atom { type := .comment, text } (c :: rest)

/-- One round of the loop of `GetAtoms()`. -/
def scan (s : List Char) : Scan :=
  match s with
  | [] => .stop false
  | c :: cs =>
    match atomhash c with
    | .numeric =>
      .atom { type := .numeric, value := (strtoul (c :: cs)).1 }
        (strtoul (c :: cs)).2
    | .alpha =>
      let text := c :: cs.takeWhile inWord
      if TEXT ≤ text.length then .overflow
      else .atom (alphaAtom text) (cs.dropWhile inWord)
    | .seperator => if c = '\n' then .atom {} cs else .skip cs
    | .comment => scanComment cs
    | .operator =>
      let text := c :: cs.takeWhile inOperator
      if TEXT ≤ text.length then .overflow
      else .atom (operatorAtom text) (cs.dropWhile inOperator)
    | .open => .atom { type := .open } cs
    | .close => .atom { type := .close } cs
    | .openIndex => .atom { type := .openIndex } cs
    | .closeIndex => .atom { type := .closeIndex } cs
    | .bit => .atom { type := .bit } cs
    | .illegalChar => .stop true
    | _ => .stop false

/-- The atoms, and whether an illegal character ended them. -/
def getAtomsLoop : Nat → List Char → Option (List Atom × Bool)
  | 0, _ => some ([newAtom], false)
  | fuel + 1, s =>
    match scan s with
    | .stop illegal => some ([newAtom], illegal)
    | .skip rest => getAtomsLoop fuel rest
    | .atom a rest =>
      (getAtomsLoop fuel rest).map fun r => (a :: r.1, r.2)
    | .overflow => none

/-- `GetAtoms()` of a buffer that does not begin with a full stop. -/
def getAtoms (buf : List Char) : Option (List Atom × Bool) :=
  getAtomsLoop (buf.length + 1) buf

/-! ## What every list of atoms has -/

section Lists

variable {s rest : List Char} {a : Atom} {l : List Atom} {illegal : Bool}
  {fuel fuel' : Nat}

theorem getAtomsLoop_rec {P : List Atom → Prop} (hend : P [newAtom])
    (hcons : ∀ s rest a l, scan s = .atom a rest → P l → P (a :: l))
    (h : getAtomsLoop fuel s = some (l, illegal)) : P l := by
  induction fuel generalizing s l illegal with
  | zero =>
    injection h with h
    injection h with hl
    rw [← hl]
    exact hend
  | succ fuel ih =>
    rw [getAtomsLoop] at h
    cases hscan : scan s with
    | stop illegal' =>
      rw [hscan] at h
      injection h with h
      injection h with hl
      rw [← hl]
      exact hend
    | skip rest =>
      rw [hscan] at h
      exact ih h
    | atom a rest =>
      rw [hscan] at h
      obtain ⟨r, hr, heq⟩ := Option.map_eq_some_iff.mp h
      injection heq with hl
      rw [← hl]
      exact hcons s rest a r.1 hscan (ih hr)
    | overflow =>
      rw [hscan] at h
      cases h

theorem getAtomsLoop_last (h : getAtomsLoop fuel s = some (l, illegal)) :
    ∃ init, l = init ++ [newAtom] := by
  refine getAtomsLoop_rec (P := fun l => ∃ init, l = init ++ [newAtom])
    ⟨[], rfl⟩ ?_ h
  intro s rest a l _ hl
  obtain ⟨init, hinit⟩ := hl
  exact ⟨a :: init, congrArg (a :: ·) hinit⟩

theorem scanComment_length (h : scanComment s = .atom a rest) :
    rest.length ≤ s.length := by
  have hdrop := (List.dropWhile_sublist inComment (l := s)).length_le
  unfold scanComment at h
  simp only [] at h
  split at h
  · cases h
  · split at h
    · injection h with _ hrest
      rw [← hrest]
      exact Nat.zero_le _
    · rename_i c t heq
      rw [heq, List.length_cons] at hdrop
      split at h
      · injection h with _ hrest
        rw [← hrest]
        omega
      · injection h with _ hrest
        rw [← hrest]
        exact hdrop

theorem atomhash_numeric {c : Char} (h : atomhash c = .numeric) :
    '0' ≤ c ∧ c ≤ '9' := by
  unfold atomhash at h
  split at h
  · assumption
  · split at h
    · cases h
    · split at h <;> cases h

theorem length_dropWhile (p : Char → Bool) (c : Char) (cs : List Char) :
    (cs.dropWhile p).length < (c :: cs).length :=
  Nat.lt_succ_of_le (List.dropWhile_sublist p).length_le

theorem scan_atom_length (h : scan s = .atom a rest) :
    rest.length < s.length := by
  cases s with
  | nil => cases h
  | cons c cs =>
    cases hc : atomhash c with
    | numeric =>
      simp only [scan, hc] at h
      injection h with _ hrest
      rw [← hrest]
      exact strtoul_length_lt (atomhash_numeric hc)
    | alpha =>
      simp only [scan, hc] at h
      split at h
      · cases h
      · injection h with _ hrest
        rw [← hrest]
        exact length_dropWhile inWord c cs
    | seperator =>
      simp only [scan, hc] at h
      split at h
      · injection h with _ hrest
        rw [← hrest]
        exact Nat.lt_succ_self _
      · cases h
    | comment =>
      simp only [scan, hc] at h
      exact Nat.lt_succ_of_le (scanComment_length h)
    | operator =>
      simp only [scan, hc] at h
      split at h
      · cases h
      · injection h with _ hrest
        rw [← hrest]
        exact length_dropWhile inOperator c cs
    | «open» | close | openIndex | closeIndex | bit =>
      simp only [scan, hc] at h
      injection h with _ hrest
      rw [← hrest]
      exact Nat.lt_succ_self _
    | terminator | illegalChar | opCode | register | expression | notSet =>
      simp [scan, hc] at h

theorem scan_skip_length (h : scan s = .skip rest) :
    rest.length < s.length := by
  cases s with
  | nil => cases h
  | cons c cs =>
    cases hc : atomhash c with
    | seperator =>
      simp only [scan, hc] at h
      split at h
      · cases h
      · injection h with hrest
        rw [← hrest]
        exact Nat.lt_succ_self _
    | alpha | operator =>
      simp only [scan, hc] at h
      split at h <;> cases h
    | comment =>
      simp only [scan, hc, scanComment] at h
      split at h
      · cases h
      · split at h
        · cases h
        · split at h <;> cases h
    | numeric | «open» | close | openIndex | closeIndex | bit | terminator
    | illegalChar | opCode | register | expression | notSet =>
      simp [scan, hc] at h

theorem getAtomsLoop_fuel (h : s.length < fuel) (h' : s.length < fuel') :
    getAtomsLoop fuel s = getAtomsLoop fuel' s := by
  induction fuel generalizing s fuel' with
  | zero => omega
  | succ fuel ih =>
    obtain ⟨fuel', rfl⟩ : ∃ n, fuel' = n + 1 := ⟨fuel' - 1, by omega⟩
    rw [getAtomsLoop, getAtomsLoop]
    cases hscan : scan s with
    | stop illegal => rfl
    | overflow => rfl
    | skip rest =>
      have hlt := scan_skip_length hscan
      exact ih (by omega) (by omega)
    | atom a rest =>
      have hlt := scan_atom_length hscan
      simp only []
      rw [ih (by omega) (by omega : rest.length < fuel')]

def Atom.scanned (a : Atom) : Prop :=
  a.type ≠ .expression ∧ a.type ≠ .notSet

theorem alphaAtom_scanned (text : List Char) : (alphaAtom text).scanned := by
  unfold alphaAtom
  split
  · exact ⟨by simp, by simp⟩
  · split <;> exact ⟨by simp, by simp⟩

theorem scan_scanned (h : scan s = .atom a rest) : a.scanned := by
  cases s with
  | nil => cases h
  | cons c cs =>
    cases hc : atomhash c with
    | alpha =>
      simp only [scan, hc] at h
      split at h
      · cases h
      · injection h with ha
        rw [← ha]
        exact alphaAtom_scanned _
    | seperator =>
      simp only [scan, hc] at h
      split at h
      · injection h with ha
        rw [← ha]
        exact ⟨by simp, by simp⟩
      · cases h
    | comment =>
      simp only [scan, hc, scanComment] at h
      split at h
      · cases h
      · split at h
        · injection h with ha
          rw [← ha]
          exact ⟨by simp, by simp⟩
        · split at h <;>
            (injection h with ha; rw [← ha]; exact ⟨by simp, by simp⟩)
    | operator =>
      simp only [scan, hc] at h
      split at h
      · cases h
      · injection h with ha
        rw [← ha]
        exact ⟨by simp [operatorAtom], by simp [operatorAtom]⟩
    | numeric | «open» | close | openIndex | closeIndex | bit =>
      simp only [scan, hc] at h
      injection h with ha
      rw [← ha]
      exact ⟨by simp, by simp⟩
    | terminator | illegalChar | opCode | register | expression | notSet =>
      simp [scan, hc] at h

theorem getAtomsLoop_scanned (h : getAtomsLoop fuel s = some (l, illegal)) :
    ∀ a ∈ l, a.scanned := by
  refine getAtomsLoop_rec (P := fun l => ∀ a ∈ l, a.scanned) ?_ ?_ h
  · intro a ha
    rw [List.mem_singleton.mp ha]
    exact ⟨by simp [newAtom], by simp [newAtom]⟩
  · intro s rest a l hscan hl b hb
    rcases List.mem_cons.mp hb with hhead | hmem
    · rw [hhead]
      exact scan_scanned hscan
    · exact hl b hmem

end Lists

end Coht.Mttn
