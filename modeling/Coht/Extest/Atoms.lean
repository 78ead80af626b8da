import Coht.Lib.Numeral
import Mathlib.Data.List.TakeWhile

/-!
# The atoms of a command line (`extest.c`, `extest_common.h`)

`get_atoms()` chops a line up into atoms, in an array of `MAX_ARG_COUNT` that
it clears first. The last one it fills says what the line ended with. A line
that begins with a full stop leaves the array as `atoms_init()` made it.

`scan` is a round of the loop. Behind a round `buf` may be past the zero that
ends the line; a round that begins there reads it, and is no result here. Nor
is a text of `MAX_ARG_LENGTH` characters, whose zero goes behind `text[]`. The
loop runs on fuel; `getAtomsLoop_fuel` says that more makes no difference.

An atom is listed with the place in the line where its round began, which
`pos` only says for some of them.
-/

namespace Coht.Extest

open Coht.Lib

def MAX_ARG_COUNT : Nat := 256
def MAX_ARG_LENGTH : Nat := 128

inductive AtomType
  | separator | operator | open | close | comment | numeric | alpha
  | openIndex | closeIndex | illegalChar | terminator | bit | string
  deriving DecidableEq

inductive OprId
  | noop
  | ne | eq | gt | ge | lt | le | as
  | pl | mi | ti | di | and | or | xor
  | not | neg | lsh | rsh | inc | decr | pop
  | stm
  deriving DecidableEq

def CmdNOCM : Nat := 0
def CmdHELP : Nat := 3
def CmdATOMS : Nat := 4

structure Atom where
  pos : Nat := 0
  val : Int := 0
  type : AtomType := .separator
  text : List Char := []
  cmdId : Nat := CmdNOCM
  oid : OprId := .noop
  deriving DecidableEq

/-- The identifier and the spelling of a command. -/
structure CmdDesc where
  id : Nat
  name : List Char

def oprs : List (OprId × String) := [
  (.noop, "?"), (.ne, "#"), (.eq, "="), (.gt, ">"), (.ge, ">="), (.lt, "<"),
  (.le, "<="), (.as, ":="), (.pl, "+"), (.mi, "-"), (.ti, "*"), (.di, "/"),
  (.and, "&"), (.or, "!"), (.xor, "!!"), (.not, "##"), (.neg, "#-"),
  (.lsh, "<<"), (.rsh, ">>"), (.inc, "++"), (.decr, "--"), (.pop, ";"),
  (.stm, "->")]

def atomhash (c : Char) : AtomType :=
  if '0' ≤ c ∧ c ≤ '9' then .numeric
  else if 'A' ≤ c ∧ c ≤ 'Z' ∨ 'a' ≤ c ∧ c ≤ 'z' ∨ c = '_' then .alpha
  else match c with
    | '\x00' | '@' => .terminator
    | '\t' | '\n' | '\x0d' | ' ' | ',' => .separator
    | '!' | '#' | '&' | '*' | '+' | '-' | '/' | ':' | ';' | '<' | '=' | '>'
    | '?' => .operator
    | '(' => .open
    | ')' => .close
    | '[' => .openIndex
    | ']' => .closeIndex
    | '%' => .comment
    | '.' => .bit
    | '"' => .string
    | _ => .illegalChar

/-- The loop over `tcmd_glob_list`, which does not stop at the first one. -/
def lookUpCmd (cmds : List CmdDesc) (text : List Char) : Nat :=
  cmds.foldl (fun id cmd => if cmd.name = text then cmd.id else id) CmdNOCM

def lookUpOpr (text : List Char) : OprId :=
  match oprs.find? fun o => o.2.toList = text with
  | some o => o.1
  | none => .noop

/-! ## A round of the loop -/

/-- `type` is where the list ends, `leave` the return from a comment that is
not closed, and no `rest` is `buf` behind the zero. -/
inductive Scan
  | stop (type : AtomType)
  | leave
  | skip (rest : List Char)
  | atom (a : Atom) (rest : Option (List Char))
  | overflow

/-- The loops that copy to `text`, with room for `room` characters. -/
def copyRun (inside : Char → Bool) : Nat → List Char → List Char × List Char
  | 0, s => ([], s)
  | _ + 1, [] => ([], [])
  | room + 1, c :: cs =>
    if inside c then
      let run := copyRun inside room cs
      (c :: run.1, run.2)
    else ([], c :: cs)

/-- A text that is copied, which takes a zero behind it. -/
def copied (inside : Char → Bool) (s : List Char)
    (f : List Char → List Char → Scan) : Scan :=
  let run := copyRun inside MAX_ARG_LENGTH s
  if run.1.length < MAX_ARG_LENGTH then f run.1 run.2 else .overflow

/-- The loop of a comment. -/
def skipComment : List Char → Option (List Char)
  | [] => none
  | c :: cs =>
    if atomhash c = .terminator then none
    else if atomhash c = .comment then some cs
    else skipComment cs

def inSeparator (c : Char) : Bool := atomhash c = .separator
def inAlpha (c : Char) : Bool := atomhash c = .alpha
def inOperator (c : Char) : Bool := atomhash c = .operator

def inString (c : Char) : Bool :=
  atomhash c ≠ .string ∧ atomhash c ≠ .terminator

/-- `case Numeric` -/
def number (s : List Char) : Atom × List Char :=
  ({ val := (strtol s).1, type := .numeric
     text := (toString (strtol s).1).toList }, (strtol s).2)

def isMinus (c : Char) (cs : List Char) : Bool :=
  c = '-' && cs.head?.any fun d => '0' ≤ d ∧ d ≤ '9'

def scan (cmds : List CmdDesc) (pos : Nat) (s : List Char) : Scan :=
  match s with
  | [] => .stop .terminator
  | c :: cs =>
    match atomhash c with
    | .numeric => .atom (number (c :: cs)).1 (some (number (c :: cs)).2)
    | .alpha =>
      copied inAlpha (c :: cs) fun text rest =>
        .atom { pos, type := .alpha, text, cmdId := lookUpCmd cmds text } (some rest)
    | .string =>
      copied inString cs fun text rest =>
        .atom { pos, type := .string, text }
          (match rest with
          | [] => none
          | _ :: rest => some rest)
    | .separator => .skip (cs.dropWhile inSeparator)
    | .comment =>
      if cs.head?.map atomhash = some .comment then .skip cs
      else
        match skipComment cs with
        | some rest => .skip rest
        | none => .leave
    | .operator =>
      if isMinus c cs then
        .atom (number (c :: cs)).1 (some (number (c :: cs)).2)
      else
        copied inOperator (c :: cs) fun text rest =>
          .atom { pos, type := .operator, text, oid := lookUpOpr text } (some rest)
    | .open => .atom { type := .open } (some cs)
    | .close => .atom { type := .close } (some cs)
    | .openIndex => .atom { type := .openIndex } (some cs)
    | .closeIndex => .atom { type := .closeIndex } (some cs)
    | .bit => .atom { type := .bit } (some cs)
    | .illegalChar => .stop .illegalChar
    | .terminator => .stop .terminator

/-! ## The loop -/

/-- The atoms with where they begin, the type of the one behind them, and where
that one stands if a character of the line has put it there. -/
structure Split where
  atoms : List (Nat × Atom) := []
  last : AtomType
  lastAt : Option Nat := none
  deriving DecidableEq

def Split.cons (pos : Nat) (a : Atom) (split : Split) : Split :=
  { split with atoms := (pos, a) :: split.atoms }

/-- `free` is how many of the `MAX_ARG_COUNT` atoms are left but one, and no
text is `buf` behind the zero. -/
def getAtomsLoop (cmds : List CmdDesc) (size : Nat) :
    Nat → Nat → Option (List Char) → Option Split
  | 0, _, _ => none
  | _ + 1, 0, _ => some { last := .terminator }
  | _ + 1, _ + 1, none => none
  | fuel + 1, free + 1, some s =>
    let pos := size - s.length
    match scan cmds pos s with
    | .stop type => some { last := type, lastAt := some pos }
    -- the atom is still as `bzero()` left it
    | .leave => some { last := .separator }
    | .skip rest => getAtomsLoop cmds size fuel (free + 1) (some rest)
    | .atom a rest =>
      (getAtomsLoop cmds size fuel free rest).map (Split.cons pos a)
    | .overflow => none

def getAtoms (cmds : List CmdDesc) (input : List Char) : Option Split :=
  if input.head? = some '.' then some { last := .terminator }
  else
    getAtomsLoop cmds input.length (input.length + 2) (MAX_ARG_COUNT - 1) (some input)

/-- The array. -/
def Split.array (split : Split) : List Atom :=
  split.atoms.map Prod.snd ++ { type := split.last } ::
    List.replicate (MAX_ARG_COUNT - 1 - split.atoms.length) ({} : Atom)

/-! ## Every round takes up text -/

section Progress

variable {cmds : List CmdDesc} {size pos free fuel fuel' room : Nat} {c : Char}
  {cs s rest : List Char} {a : Atom} {inside : Char → Bool}

theorem atomhash_numeric (h : atomhash c = .numeric) : '0' ≤ c ∧ c ≤ '9' := by
  unfold atomhash at h
  split at h
  · assumption
  · split at h
    · cases h
    · split at h <;> cases h

theorem copyRun_length (inside : Char → Bool) (room : Nat) (s : List Char) :
    (copyRun inside room s).2.length ≤ s.length := by
  fun_induction copyRun inside room s with
  | case1 s => exact Nat.le_refl _
  | case2 room => exact Nat.le_refl _
  | case3 room c cs h run ih => exact Nat.le_succ_of_le ih
  | case4 room c cs h => exact Nat.le_refl _

theorem copyRun_length_lt (h : inside c = true) :
    (copyRun inside (room + 1) (c :: cs)).2.length < (c :: cs).length := by
  rw [copyRun, if_pos h]
  exact Nat.lt_succ_of_le (copyRun_length inside room cs)

theorem skipComment_length (h : skipComment s = some rest) :
    rest.length < s.length := by
  fun_induction skipComment s with
  | case1 => cases h
  | case2 c cs hend => cases h
  | case3 c cs hend hmark =>
    cases h
    exact Nat.lt_succ_self _
  | case4 c cs hend hmark ih => exact Nat.lt_succ_of_lt (ih h)

theorem number_length (h : atomhash c = .numeric) :
    (number (c :: cs)).2.length < (c :: cs).length :=
  strtol_length_lt (atomhash_numeric h)

theorem number_minus_length (h : isMinus c cs = true) :
    (number (c :: cs)).2.length < (c :: cs).length := by
  obtain ⟨hminus, hdigit⟩ := Bool.and_eq_true_iff.mp h
  obtain rfl := of_decide_eq_true hminus
  cases cs with
  | nil => cases hdigit
  | cons e cs => exact strtol_minus_length_lt (of_decide_eq_true hdigit)

def left : Option (List Char) → Nat
  | none => 0
  | some s => s.length + 1

def Scan.TakesUp (s : List Char) : Scan → Prop
  | .skip rest => rest.length < s.length
  | .atom _ r => left r < left (some s)
  | .stop _ | .leave | .overflow => True

theorem scan_takesUp (cmds : List CmdDesc) (pos : Nat) (s : List Char) :
    (scan cmds pos s).TakesUp s := by
  cases s with
  | nil => trivial
  | cons c cs =>
    unfold scan
    dsimp only
    cases hclass : atomhash c
    case numeric => exact Nat.succ_lt_succ (number_length hclass)
    case alpha =>
      dsimp only [copied]
      split
      · exact Nat.succ_lt_succ (copyRun_length_lt (decide_eq_true hclass))
      · trivial
    case operator =>
      dsimp only [copied]
      split
      · rename_i hminus
        exact Nat.succ_lt_succ (number_minus_length hminus)
      · split
        · exact Nat.succ_lt_succ (copyRun_length_lt (decide_eq_true hclass))
        · trivial
    case string =>
      dsimp only [copied]
      split
      · have hle := copyRun_length inString MAX_ARG_LENGTH cs
        split
        · exact Nat.succ_pos _
        · rename_i hrun
          rw [hrun] at hle
          simp only [Scan.TakesUp, left, List.length_cons] at hle ⊢
          omega
      · trivial
    case separator => exact Nat.lt_succ_of_le (List.dropWhile_suffix _).length_le
    case comment =>
      dsimp only
      split
      · exact Nat.lt_succ_self _
      · split
        · rename_i hskip
          exact Nat.lt_succ_of_lt (skipComment_length hskip)
        · trivial
    case illegalChar => trivial
    case terminator => trivial
    all_goals exact Nat.lt_succ_self _

theorem scan_skip_length (h : scan cmds pos s = .skip rest) :
    rest.length < s.length := by
  have htakes := scan_takesUp cmds pos s
  rwa [h] at htakes

theorem scan_atom_length {r : Option (List Char)} (h : scan cmds pos s = .atom a r) :
    left r < left (some s) := by
  have htakes := scan_takesUp cmds pos s
  rwa [h] at htakes

theorem getAtomsLoop_fuel {r : Option (List Char)} (h : left r < fuel)
    (h' : left r < fuel') :
    getAtomsLoop cmds size fuel free r = getAtomsLoop cmds size fuel' free r := by
  induction fuel generalizing fuel' free r with
  | zero => cases h
  | succ fuel ih =>
    cases fuel' with
    | zero => cases h'
    | succ fuel' =>
      cases free with
      | zero => rw [getAtomsLoop, getAtomsLoop]
      | succ free =>
        cases r with
        | none => rw [getAtomsLoop, getAtomsLoop]
        | some s =>
          rw [getAtomsLoop, getAtomsLoop]
          cases hscan : scan cmds (size - s.length) s with
          | stop type => rfl
          | leave => rfl
          | overflow => rfl
          | skip rest =>
            have hlt := scan_skip_length hscan
            simp only [left] at h h'
            refine ih ?_ ?_ <;> simp only [left] <;> omega
          | atom a r =>
            have hlt := scan_atom_length hscan
            dsimp only
            rw [ih (by omega : left r < fuel) (by omega : left r < fuel')]

def splitFrom (cmds : List CmdDesc) (size free : Nat) (r : Option (List Char)) :
    Option Split :=
  getAtomsLoop cmds size (left r + 1) free r

theorem splitFrom_zero (r : Option (List Char)) :
    splitFrom cmds size 0 r = some { last := .terminator } := rfl

theorem splitFrom_succ :
    splitFrom cmds size (free + 1) (some s) =
      match scan cmds (size - s.length) s with
      | .stop type => some { last := type, lastAt := some (size - s.length) }
      | .leave => some { last := .separator }
      | .skip rest => splitFrom cmds size (free + 1) (some rest)
      | .atom a r => (splitFrom cmds size free r).map (Split.cons (size - s.length) a)
      | .overflow => none := by
  unfold splitFrom
  rw [getAtomsLoop]
  cases hscan : scan cmds (size - s.length) s with
  | stop type => rfl
  | leave => rfl
  | overflow => rfl
  | skip rest =>
    have hlt := scan_skip_length hscan
    exact getAtomsLoop_fuel (by simp only [left]; omega) (Nat.lt_succ_self _)
  | atom a r =>
    have hlt := scan_atom_length hscan
    dsimp only
    rw [getAtomsLoop_fuel hlt (Nat.lt_succ_self _)]

end Progress

/-! ## The parameters of a command -/

/-- The atoms up to the one that ends the list, if it is in the array. -/
def listAmount : List Atom → Option Nat
  | [] => none
  | a :: as =>
    if a.type ≠ .terminator ∧ a.type ≠ .illegalChar then (listAmount as).map (· + 1)
    else some 0

def argAmount : List Atom → Option Nat
  | [] => none
  | a :: as =>
    if a.type = .numeric ∨ a.type = .operator ∨ a.type = .string then
      if a.type = .numeric ∧ (as.head?.map Atom.type) = some .open then some 0
      else (argAmount as).map (· + 1)
    else some 0

/-- The array from the atom of the command on; there is no result if it is read
behind its end. -/
def paramAmount : List Atom → Option Nat
  | [] => none
  | a :: as =>
    if a.cmdId = CmdHELP ∧ as = [] then none
    else if a.cmdId = CmdHELP ∧
        ∃ b ∈ as.head?, b.type = .alpha ∧ b.cmdId ≠ CmdNOCM then some 1
    else if a.cmdId = CmdATOMS then listAmount as
    else argAmount as

end Coht.Extest
