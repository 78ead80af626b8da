import Coht.Mttn.Atoms

/-!
# Line numbers and comments of the atoms (`asm.c`)

`GetAtoms()` counts characters in `pos` and newlines in `line`. The loop runs
while `pos` is inside the file; `pos` starts again at a newline and is never
ahead of the text, so the loop does not end early. `newline` belongs to the
separators, which clear it, but a comment adds it to `line` too, as the last
separator or comment left it. Before the first of them it is not initialised.

A comment stops in front of its closing mark, which then opens the next one.
So a line has no atoms behind its first mark, other than those of comments.
-/

namespace Coht.Mttn

open Coht.Lib

/-! ## The scanner with its counters -/

structure Reader where
  rest : List Char
  pos : Nat := 1
  line : Int := 1
  newline : Int

namespace Reader

/-- Behind a blank. -/
def skip (r : Reader) (rest : List Char) : Reader :=
  { r with rest, pos := r.pos + 1, newline := 0 }

/-- Behind an atom. A comment that runs into a newline has become a
separator. -/
def take (r : Reader) (a : Atom) (rest : List Char) : Reader :=
  if a.type = .seperator then
    { rest
      pos := if r.rest.head? = some '\n' then 0 else r.pos + a.text.length
      line := r.line + 1
      newline := 1 }
  else if a.type = .comment then
    { r with rest, pos := r.pos + a.text.length, line := r.line + r.newline }
  else { r with rest, pos := r.pos + (r.rest.length - rest.length) }

end Reader

/-- An atom and its `LineNumber`. -/
abbrev LineAtom := Atom × Int

/-- The loop of `GetAtoms()`; `size` is `assStat.st_size`. -/
def getLinesLoop (size : Nat) :
    Nat → Reader → Option (List LineAtom × Bool)
  | 0, _ => some ([(newAtom, 0)], false)
  | fuel + 1, r =>
    if size < r.pos then some ([(newAtom, 0)], false)
    else match scan r.rest with
      | .stop illegal => some ([(newAtom, 0)], illegal)
      | .skip rest => getLinesLoop size fuel (r.skip rest)
      | .atom a rest =>
        (getLinesLoop size fuel (r.take a rest)).map fun x =>
          ((a, r.line) :: x.1, x.2)
      | .overflow => none

/-- `GetAtoms()`, when `newline` happens to hold `newline`. -/
def getLineAtoms (size : Nat) (newline : Int) (buf : List Char) :
    Option (List LineAtom × Bool) :=
  if buf.head? = some '.' then none
  else getLinesLoop size (buf.length + 1) { rest := buf, newline }

/-! ## The position never ends the loop -/

theorem Reader.take_rest (r : Reader) (a : Atom) (rest : List Char) :
    (r.take a rest).rest = rest := by
  unfold Reader.take
  split
  · rfl
  · split <;> rfl

def Reader.Placed (size : Nat) (r : Reader) : Prop :=
  r.pos + r.rest.length ≤ size + 1

section Position

variable {size fuel fuel' : Nat} {r : Reader} {a : Atom} {rest : List Char}

theorem Reader.Placed.skip (h : r.Placed size) (hscan : scan r.rest = .skip rest) :
    (r.skip rest).Placed size := by
  have hlt := scan_skip_length hscan
  unfold Reader.Placed at *
  simp only [Reader.skip]
  omega

theorem alphaAtom_text (text : List Char) : (alphaAtom text).text = text := by
  unfold alphaAtom
  split
  · rfl
  · split <;> rfl

theorem length_takeWhile_dropWhile (f : Char → Bool) (s : List Char) :
    (s.dropWhile f).length + (s.takeWhile f).length = s.length := by
  rw [Nat.add_comm, ← List.length_append, List.takeWhile_append_dropWhile]

theorem scanComment_text_length {s : List Char}
    (h : scanComment s = .atom a rest) :
    rest.length + a.text.length ≤ s.length := by
  have hlength := length_takeWhile_dropWhile inComment s
  unfold scanComment at h
  dsimp only at h
  split at h
  · cases h
  · split at h
    · rename_i hdrop
      injection h with ha hrest
      rw [← ha, ← hrest]
      rw [hdrop] at hlength
      dsimp only
      omega
    · rename_i c t hdrop
      rw [hdrop, List.length_cons] at hlength
      split at h
      · injection h with ha hrest
        rw [← ha, ← hrest]
        dsimp only
        omega
      · injection h with ha hrest
        rw [← ha, ← hrest, List.length_cons]
        dsimp only
        omega

theorem scan_text_length {s : List Char} (h : scan s = .atom a rest) :
    rest.length + a.text.length ≤ s.length := by
  have hlt := scan_atom_length h
  have hnone : a.text = [] → rest.length + a.text.length ≤ s.length := by
    intro htext
    rw [htext, List.length_nil]
    omega
  cases s with
  | nil => cases h
  | cons c cs =>
    cases hc : atomhash c with
    | numeric | «open» | close | openIndex | closeIndex | bit =>
      simp only [scan, hc] at h
      injection h with ha
      exact hnone (by rw [← ha])
    | alpha =>
      simp only [scan, hc] at h
      split at h
      · cases h
      · injection h with ha hrest
        have hlength := length_takeWhile_dropWhile inWord cs
        rw [← ha, ← hrest, alphaAtom_text, List.length_cons,
          List.length_cons]
        omega
    | operator =>
      simp only [scan, hc] at h
      split at h
      · cases h
      · injection h with ha hrest
        have hlength := length_takeWhile_dropWhile inOperator cs
        rw [← ha, ← hrest, operatorAtom, List.length_cons,
          List.length_cons]
        omega
    | seperator =>
      simp only [scan, hc] at h
      split at h
      · injection h with ha
        exact hnone (by rw [← ha])
      · cases h
    | comment =>
      simp only [scan, hc] at h
      have hlength := scanComment_text_length h
      rw [List.length_cons]
      omega
    | terminator | illegalChar | opCode | register | expression | notSet =>
      simp [scan, hc] at h

theorem Reader.Placed.take (h : r.Placed size)
    (hscan : scan r.rest = .atom a rest) : (r.take a rest).Placed size := by
  have hlt := scan_atom_length hscan
  have htext := scan_text_length hscan
  unfold Reader.Placed Reader.take at *
  split
  · dsimp only
    split <;> omega
  · split <;> (dsimp only; omega)

theorem Reader.Placed.end (h : r.Placed size) (hpos : size < r.pos) :
    scan r.rest = .stop false := by
  unfold Reader.Placed at h
  have hnil : r.rest = [] := List.eq_nil_of_length_eq_zero (by omega)
  rw [hnil]
  rfl

theorem getLinesLoop_placed (h : r.Placed size) :
    getLinesLoop size (fuel + 1) r =
      match scan r.rest with
      | .stop illegal => some ([(newAtom, 0)], illegal)
      | .skip rest => getLinesLoop size fuel (r.skip rest)
      | .atom a rest =>
        (getLinesLoop size fuel (r.take a rest)).map fun x =>
          ((a, r.line) :: x.1, x.2)
      | .overflow => none := by
  rw [getLinesLoop]
  split
  · rename_i hpos
    rw [h.end hpos]
  · rfl

theorem getLinesLoop_atoms (h : r.Placed size) :
    (getLinesLoop size fuel r).map (fun x => (x.1.map Prod.fst, x.2)) =
      getAtomsLoop fuel r.rest := by
  induction fuel generalizing r with
  | zero => rfl
  | succ fuel ih =>
    rw [getLinesLoop_placed h, getAtomsLoop]
    cases hscan : scan r.rest with
    | stop illegal => rfl
    | skip rest => exact ih (h.skip hscan)
    | atom a rest =>
      have htail := ih (h.take hscan)
      rw [r.take_rest] at htail
      dsimp only
      rw [← htail, Option.map_map, Option.map_map]
      rfl
    | overflow => rfl

theorem getLineAtoms_atoms {newline : Int} {buf : List Char}
    (hsize : buf.length ≤ size) (hbuf : buf.head? ≠ some '.') :
    (getLineAtoms size newline buf).map
      (fun x => (x.1.map Prod.fst, x.2)) = getAtoms buf := by
  have hplaced : Reader.Placed size { rest := buf, newline } := by
    unfold Reader.Placed
    dsimp only
    omega
  rw [getLineAtoms, if_neg hbuf, getLinesLoop_atoms hplaced]
  rfl

theorem getLinesLoop_fuel (hr : r.Placed size) (h : r.rest.length < fuel)
    (h' : r.rest.length < fuel') :
    getLinesLoop size fuel r = getLinesLoop size fuel' r := by
  induction fuel generalizing r fuel' with
  | zero => omega
  | succ fuel ih =>
    obtain ⟨fuel', rfl⟩ : ∃ n, fuel' = n + 1 := ⟨fuel' - 1, by omega⟩
    rw [getLinesLoop_placed hr, getLinesLoop_placed hr]
    cases hscan : scan r.rest with
    | stop illegal => rfl
    | skip rest =>
      have hlt := scan_skip_length hscan
      have hrest : (r.skip rest).rest.length = rest.length := rfl
      exact ih (hr.skip hscan) (by omega) (by omega)
    | atom a rest =>
      have hlt := scan_atom_length hscan
      have hrest := r.take_rest a rest
      dsimp only
      rw [ih (hr.take hscan) (by rw [hrest]; omega)
        (by rw [hrest]; omega : _ < fuel')]
    | overflow => rfl

theorem getLinesLoop_ne_nil {x : List LineAtom × Bool}
    (h : getLinesLoop size fuel r = some x) : x.1 ≠ [] := by
  induction fuel generalizing r x with
  | zero =>
    injection h with h
    rw [← h]
    exact List.cons_ne_nil _ _
  | succ fuel ih =>
    rw [getLinesLoop] at h
    split at h
    · injection h with h
      rw [← h]
      exact List.cons_ne_nil _ _
    · split at h
      · injection h with h
        rw [← h]
        exact List.cons_ne_nil _ _
      · exact ih h
      · obtain ⟨y, _, hy⟩ := Option.map_eq_some_iff.mp h
        rw [← hy]
        exact List.cons_ne_nil _ _
      · cases h

end Position

/-! ## What the atoms should be -/

/-- The run that a text begins with, if it begins with one, and the text
behind it. A number is what C reads as one. -/
def firstRun (c : Char) (cs : List Char) : Option Atom × List Char :=
  match atomhash c with
  | .numeric =>
    (some { type := .numeric, value := (strtoul (c :: cs)).1 },
      (strtoul (c :: cs)).2)
  | .alpha =>
    (some (alphaAtom (c :: cs.takeWhile inWord)), cs.dropWhile inWord)
  | .operator =>
    (some (operatorAtom (c :: cs.takeWhile inOperator)),
      cs.dropWhile inOperator)
  | .open => (some { type := .open }, cs)
  | .close => (some { type := .close }, cs)
  | .openIndex => (some { type := .openIndex }, cs)
  | .closeIndex => (some { type := .closeIndex }, cs)
  | _ => (none, cs)

def runsLoop : Nat → List Char → List Atom
  | _, [] => []
  | 0, _ => []
  | fuel + 1, c :: cs =>
    match firstRun c cs with
    | (some a, rest) => a :: runsLoop fuel rest
    | (none, rest) => runsLoop fuel rest

/-- The runs and brackets of a line. -/
def runs (line : List Char) : List Atom := runsLoop line.length line

/-- A line with blanks for its comments, each from a percent sign to the next
one. -/
def outsideComments : Bool → List Char → List Char
  | _, [] => []
  | inside, c :: cs =>
    if c = '%' then ' ' :: outsideComments (!inside) cs
    else (if inside then ' ' else c) :: outsideComments inside cs

/-- The atoms of the lines from line `n` on. -/
def wantedLines : Int → List (List Char) → List LineAtom
  | _, [] => []
  | n, [last] => (runs (outsideComments false last)).map (·, n)
  | n, line :: rest =>
    (runs (outsideComments false line)).map (·, n) ++
      ({}, n) :: wantedLines (n + 1) rest

def wanted (text : List Char) : List LineAtom :=
  wantedLines 1 (text.splitOn '\n')

/-- A separator without the comment that it carries along. -/
def plain (a : LineAtom) : LineAtom :=
  if a.1.type = .seperator then ({}, a.2) else a

/-- Without the atom that ends a list and those of comments. -/
def countedAtoms (atoms : List LineAtom) : List LineAtom :=
  (atoms.dropLast.filter fun a => a.1.type ≠ .comment).map plain

def Legal (c : Char) : Prop :=
  atomhash c ≠ .illegalChar ∧ atomhash c ≠ .terminator

instance (c : Char) : Decidable (Legal c) :=
  inferInstanceAs (Decidable (_ ∧ _))

def AtomsRight (size : Nat) (newline : Int) (text : List Char) : Prop :=
  ∃ atoms illegal, getLineAtoms size newline text = some (atoms, illegal) ∧
    countedAtoms atoms = wanted text

/-! ## Where they are right -/

def isMark (c : Char) : Bool := atomhash c = .comment

/-- A line in front of its first comment mark, and from there on. -/
def visible (line : List Char) : List Char := line.takeWhile fun c => !isMark c

def hidden (line : List Char) : List Char := line.dropWhile fun c => !isMark c

def beginsRun (c : Char) : Bool := (firstRun c []).1.isSome

structure LineClear (line : List Char) : Prop where
  noStop : '.' ∉ visible line
  short : ∀ a ∈ runs (visible line), a.text.length < TEXT
  narrow : ∀ part ∈ (hidden line).splitOnP isMark, part.length < TEXT
  covered : ∀ c ∈ outsideComments false (hidden line), beginsRun c = false

/-- No comment is closed that adds to the line number. -/
def CountsRight (newline : Int) (line : List Char) : Prop :=
  (hidden line).countP isMark ≤ 1 ∨ newline = 0 ∨
    ∃ c ∈ visible line, atomhash c = .seperator

def ClearLines : Int → List (List Char) → Prop
  | _, [] => True
  | _, [last] => LineClear last ∧ hidden last = []
  | newline, line :: rest =>
    LineClear line ∧ CountsRight newline line ∧ ClearLines 1 rest

end Coht.Mttn
