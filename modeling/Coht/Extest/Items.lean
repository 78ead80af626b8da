import Coht.Extest.Atoms

/-!
# The items of a command line (`extest.c`)

`item` is what stands at the beginning of a text, and `wanted` the list of what
stands in a line outside comments, up to the end of the line, to a character
that ends it, or to the last atom but one of the array. A comment goes up to the
next mark, which may be the next character, or to the end of the line. Each atom
is listed with its place.

A round of `get_atoms()` takes the same tokens as long as it can copy their
texts, and steps over the same separators.
-/

namespace Coht.Extest

open Coht.Lib

/-! ## The items of a line -/

/-- A token has the rest behind it, and whether it is closed if it is a
string. -/
inductive Item
  | ends (type : AtomType)
  | blank (rest : List Char)
  | mark (rest : List Char)
  | token (a : Atom) (rest : List Char) (closed : Bool)

def inQuotes (c : Char) : Bool := atomhash c ≠ .string
def inComment (c : Char) : Bool := atomhash c ≠ .comment

def item (s : List Char) : Item :=
  match s with
  | [] => .ends .terminator
  | c :: cs =>
    match atomhash c with
    | .separator => .blank cs
    | .comment => .mark cs
    | .numeric => .token (number (c :: cs)).1 (number (c :: cs)).2 true
    | .alpha =>
      .token { type := .alpha, text := (c :: cs).takeWhile inAlpha }
        ((c :: cs).dropWhile inAlpha) true
    | .operator =>
      if isMinus c cs then .token (number (c :: cs)).1 (number (c :: cs)).2 true
      else
        .token { type := .operator, text := (c :: cs).takeWhile inOperator }
          ((c :: cs).dropWhile inOperator) true
    | .string =>
      .token { type := .string, text := cs.takeWhile inQuotes }
        (cs.dropWhile inQuotes).tail !(cs.dropWhile inQuotes).isEmpty
    | .open => .token { type := .open } cs true
    | .close => .token { type := .close } cs true
    | .openIndex => .token { type := .openIndex } cs true
    | .closeIndex => .token { type := .closeIndex } cs true
    | .bit => .token { type := .bit } cs true
    | .illegalChar => .ends .illegalChar
    | .terminator => .ends .terminator

/-- The atom of a token at `pos`, with the command or the operator that its text
names. -/
def Atom.placed (cmds : List CmdDesc) (pos : Nat) (a : Atom) : Atom :=
  match a.type with
  | .alpha => { a with pos, cmdId := lookUpCmd cmds a.text }
  | .operator => { a with pos, oid := lookUpOpr a.text }
  | .string => { a with pos }
  | _ => a

/-- Behind the next mark, or the end of the line. -/
def behindComment (s : List Char) : List Char :=
  (s.dropWhile inComment).tail

section Items

variable {s rest : List Char} {a : Atom} {closed : Bool}

theorem length_dropWhile_le (p : Char → Bool) (s : List Char) :
    (s.dropWhile p).length ≤ s.length :=
  (List.dropWhile_suffix p).length_le

theorem length_dropWhile_lt {p : Char → Bool} {c : Char} {cs : List Char}
    (h : p c = true) : ((c :: cs).dropWhile p).length < (c :: cs).length := by
  rw [List.dropWhile_cons_of_pos h]
  exact Nat.lt_succ_of_le (length_dropWhile_le p cs)

theorem behindComment_length (s : List Char) : (behindComment s).length ≤ s.length := by
  have hle := length_dropWhile_le inComment s
  unfold behindComment
  rw [List.length_tail]
  omega

def Item.At (c : Char) (cs : List Char) : Item → Prop
  | .ends type => atomhash c = type ∧ (type = .terminator ∨ type = .illegalChar)
  | .blank rest => atomhash c = .separator ∧ rest = cs
  | .mark rest => atomhash c = .comment ∧ rest = cs
  | .token _ rest _ => rest.length < (c :: cs).length

theorem item_at (c : Char) (cs : List Char) : (item (c :: cs)).At c cs := by
  unfold item
  dsimp only
  cases hclass : atomhash c
  case separator => exact ⟨hclass, rfl⟩
  case comment => exact ⟨hclass, rfl⟩
  case illegalChar => exact ⟨hclass, .inr rfl⟩
  case terminator => exact ⟨hclass, .inl rfl⟩
  case numeric => exact number_length hclass
  case alpha => exact length_dropWhile_lt (decide_eq_true hclass)
  case operator =>
    dsimp only
    split
    · rename_i hminus
      exact number_minus_length hminus
    · exact length_dropWhile_lt (decide_eq_true hclass)
  case string =>
    have hle := length_dropWhile_le inQuotes cs
    show ((cs.dropWhile inQuotes).tail).length < (c :: cs).length
    rw [List.length_tail, List.length_cons]
    omega
  all_goals exact Nat.lt_succ_self _

theorem item_blank (h : item s = .blank rest) :
    ∃ c, s = c :: rest ∧ atomhash c = .separator := by
  cases s with
  | nil => cases h
  | cons c cs =>
    obtain ⟨hclass, rfl⟩ := h ▸ item_at c cs
    exact ⟨c, rfl, hclass⟩

theorem item_mark (h : item s = .mark rest) :
    ∃ c, s = c :: rest ∧ atomhash c = .comment := by
  cases s with
  | nil => cases h
  | cons c cs =>
    obtain ⟨hclass, rfl⟩ := h ▸ item_at c cs
    exact ⟨c, rfl, hclass⟩

theorem item_token_length (h : item s = .token a rest closed) :
    rest.length < s.length := by
  cases s with
  | nil => cases h
  | cons c cs =>
    have hat := item_at c cs
    rwa [h] at hat

end Items

/-! ## The list -/

/-- The items of a text outside comments, at most `free` of them. -/
def wanted (cmds : List CmdDesc) (size free : Nat) (s : List Char) : Split :=
  match free with
  | 0 => { last := .terminator }
  | free + 1 =>
    match h : item s with
    | .ends type => { last := type, lastAt := some (size - s.length) }
    | .blank rest => wanted cmds size (free + 1) rest
    | .mark rest => wanted cmds size (free + 1) (behindComment rest)
    | .token a rest _ => (wanted cmds size free rest).cons (size - s.length)
        (a.placed cmds (size - s.length))
termination_by s.length
decreasing_by
  · obtain ⟨c, hs, -⟩ := item_blank h
    rw [hs]
    exact Nat.lt_succ_self _
  · obtain ⟨c, hs, -⟩ := item_mark h
    rw [hs]
    exact Nat.lt_succ_of_le (behindComment_length rest)
  · exact item_token_length h

theorem wanted_zero (cmds : List CmdDesc) (size : Nat) (s : List Char) :
    wanted cmds size 0 s = { last := .terminator } := by
  rw [wanted]

theorem wanted_succ (cmds : List CmdDesc) (size free : Nat) (s : List Char) :
    wanted cmds size (free + 1) s =
      match item s with
      | .ends type => { last := type, lastAt := some (size - s.length) }
      | .blank rest => wanted cmds size (free + 1) rest
      | .mark rest => wanted cmds size (free + 1) (behindComment rest)
      | .token a rest _ => (wanted cmds size free rest).cons (size - s.length)
          (a.placed cmds (size - s.length)) := by
  rw [wanted]
  split <;> rename_i heq <;> rw [heq]

/-- What a line should be split into. -/
def wantedAtoms (cmds : List CmdDesc) (line : List Char) : Split :=
  wanted cmds line.length (MAX_ARG_COUNT - 1) line

/-! ## A round takes the item -/

/-- Its text can be copied, and a string has no character that ends a line. -/
def Atom.Copied (a : Atom) : Prop :=
  ((a.type = .alpha ∨ a.type = .operator ∨ a.type = .string) →
    a.text.length < MAX_ARG_LENGTH) ∧
  (a.type = .string → ∀ c ∈ a.text, atomhash c ≠ .terminator)

section Rounds

variable {cmds : List CmdDesc} {size free pos room : Nat} {s rest : List Char} {a : Atom}
  {closed : Bool} {type : AtomType} {c : Char} {cs : List Char} {inside : Char → Bool}

theorem copyRun_fits (h : (s.takeWhile inside).length < room) :
    copyRun inside room s = (s.takeWhile inside, s.dropWhile inside) := by
  fun_induction copyRun inside room s with
  | case1 s => cases h
  | case2 room => rfl
  | case3 room c cs hc run ih =>
    rw [List.takeWhile_cons_of_pos hc] at h ⊢
    rw [List.dropWhile_cons_of_pos hc]
    have hrun : run = _ := ih (Nat.lt_of_succ_lt_succ h)
    rw [hrun]
  | case4 room c cs hc =>
    rw [List.takeWhile_cons_of_neg hc, List.dropWhile_cons_of_neg hc]

theorem copyRun_full (h : room ≤ (s.takeWhile inside).length) :
    (copyRun inside room s).1.length = room := by
  fun_induction copyRun inside room s with
  | case1 s => rfl
  | case2 room => cases h
  | case3 room c cs hc run ih =>
    rw [List.takeWhile_cons_of_pos hc] at h
    exact congrArg Nat.succ (ih (Nat.le_of_succ_le_succ h))
  | case4 room c cs hc =>
    rw [List.takeWhile_cons_of_neg hc] at h
    cases h

theorem copied_eq (f : List Char → List Char → Scan) :
    copied inside s f =
      if (s.takeWhile inside).length < MAX_ARG_LENGTH then
        f (s.takeWhile inside) (s.dropWhile inside)
      else .overflow := by
  unfold copied
  dsimp only
  by_cases hfits : (s.takeWhile inside).length < MAX_ARG_LENGTH
  · rw [copyRun_fits hfits]
  · rw [copyRun_full (Nat.not_lt.mp hfits), if_neg (Nat.lt_irrefl _), if_neg hfits]

theorem inString_run (h : ∀ c ∈ s.takeWhile inQuotes, atomhash c ≠ .terminator) :
    s.takeWhile inString = s.takeWhile inQuotes ∧
      s.dropWhile inString = s.dropWhile inQuotes := by
  induction s with
  | nil => exact ⟨rfl, rfl⟩
  | cons c cs ih =>
    by_cases hc : inQuotes c = true
    · rw [List.takeWhile_cons_of_pos hc] at h
      have hin : inString c = true :=
        decide_eq_true ⟨of_decide_eq_true hc, h c List.mem_cons_self⟩
      obtain ⟨htake, hdrop⟩ := ih fun d hd => h d (List.mem_cons_of_mem c hd)
      rw [List.takeWhile_cons_of_pos hc, List.takeWhile_cons_of_pos hin,
        List.dropWhile_cons_of_pos hc, List.dropWhile_cons_of_pos hin, htake, hdrop]
      exact ⟨rfl, rfl⟩
    · have hout : ¬ inString c = true := fun hin =>
        hc (decide_eq_true (of_decide_eq_true hin).1)
      rw [List.takeWhile_cons_of_neg hc, List.takeWhile_cons_of_neg hout,
        List.dropWhile_cons_of_neg hc, List.dropWhile_cons_of_neg hout]
      exact ⟨rfl, rfl⟩

theorem number_copied (s : List Char) : (number s).1.Copied := by
  refine ⟨fun h => ?_, fun h => ?_⟩
  · rcases h with h | h | h <;> cases h
  · cases h

theorem inString_text {d : Char} (h : d ∈ s.takeWhile inString) :
    atomhash d ≠ .terminator := by
  have hin : inString d = true := List.mem_takeWhile_imp h
  exact (of_decide_eq_true hin).2

theorem copied_run {f : List Char → List Char → Scan}
    (htype : a.type = .alpha ∨ a.type = .operator)
    (htext : a.text = s.takeWhile inside)
    (hf : f (s.takeWhile inside) (s.dropWhile inside) = .atom a (some rest)) :
    (a.Copied → copied inside s f = .atom a (some rest)) ∧
      (¬ a.Copied → copied inside s f = .overflow ∨
        ∃ a' r, copied inside s f = .atom a' r ∧ a' ≠ a) := by
  have hstring : a.type ≠ .string := by
    rcases htype with h | h <;> rw [h] <;> exact AtomType.noConfusion
  rw [copied_eq]
  refine ⟨fun ha => ?_, fun hnot => .inl (if_neg fun hfits => hnot ⟨fun _ => ?_, ?_⟩)⟩
  · have hfits := ha.1 (htype.imp_right .inl)
    rw [htext] at hfits
    rw [if_pos hfits, hf]
  · rwa [htext]
  · exact fun h => absurd h hstring

theorem copied_string {f : List Char → List Char → Scan} (htype : a.type = .string)
    (htext : a.text = s.takeWhile inQuotes) {r : Option (List Char)}
    (hf : f (s.takeWhile inQuotes) (s.dropWhile inQuotes) = .atom a r)
    (hftext : ∃ a' r', f (s.takeWhile inString) (s.dropWhile inString) = .atom a' r' ∧
      a'.text = s.takeWhile inString) :
    (a.Copied → copied inString s f = .atom a r) ∧
      (¬ a.Copied → copied inString s f = .overflow ∨
        ∃ a' r', copied inString s f = .atom a' r' ∧ a' ≠ a) := by
  rw [copied_eq]
  constructor
  · intro ha
    have hclean := ha.2 htype
    have hfits := ha.1 (.inr (.inr htype))
    rw [htext] at hclean hfits
    obtain ⟨htake, hdrop⟩ := inString_run hclean
    rw [htake, hdrop, if_pos hfits, hf]
  · intro hnot
    by_cases hfits : (s.takeWhile inString).length < MAX_ARG_LENGTH
    · rw [if_pos hfits]
      obtain ⟨a', r', heq, htext'⟩ := hftext
      refine .inr ⟨a', r', heq, fun hsame => hnot ?_⟩
      have hrun : a.text = s.takeWhile inString := by rw [← hsame, htext']
      exact ⟨fun _ => by rwa [hrun], fun _ d hd => inString_text (hrun ▸ hd)⟩
    · exact .inl (if_neg hfits)

theorem scan_token (h : item s = .token a rest closed) :
    (a.Copied → scan cmds pos s =
      .atom (a.placed cmds pos) (if closed then some rest else none)) ∧
    (¬ a.Copied → scan cmds pos s = .overflow ∨
      ∃ a' r, scan cmds pos s = .atom a' r ∧ a' ≠ a.placed cmds pos) := by
  cases s with
  | nil => cases h
  | cons c cs =>
    unfold item at h
    unfold scan
    dsimp only at h ⊢
    cases hclass : atomhash c
    all_goals
      rw [hclass] at h
      dsimp only at h ⊢
    case numeric =>
      cases h
      exact ⟨fun _ => rfl, fun hnot => absurd (number_copied (c :: cs)) hnot⟩
    case alpha =>
      cases h
      exact copied_run (a := Atom.placed cmds pos
        { type := .alpha, text := (c :: cs).takeWhile inAlpha }) (.inl rfl) rfl rfl
    case operator =>
      split at h
      · rename_i hminus
        cases h
        rw [if_pos hminus]
        exact ⟨fun _ => rfl, fun hnot => absurd (number_copied (c :: cs)) hnot⟩
      · rename_i hminus
        cases h
        rw [if_neg hminus]
        exact copied_run (a := Atom.placed cmds pos
          { type := .operator, text := (c :: cs).takeWhile inOperator })
          (.inr rfl) rfl rfl
    case string =>
      cases h
      refine copied_string (a := Atom.placed cmds pos
        { type := .string, text := cs.takeWhile inQuotes }) rfl rfl ?_
        ⟨{ pos, type := .string, text := cs.takeWhile inString }, _, rfl, rfl⟩
      cases cs.dropWhile inQuotes <;> rfl
    case separator => cases h
    case comment => cases h
    case illegalChar => cases h
    case terminator => cases h
    all_goals
      cases h
      refine ⟨fun _ => rfl, fun hnot => absurd ⟨fun h => ?_, fun h => ?_⟩ hnot⟩
      · rcases h with h | h | h <;> cases h
      · cases h

theorem scan_ends (h : item s = .ends type) : scan cmds pos s = .stop type := by
  cases s with
  | nil =>
    cases h
    rfl
  | cons c cs =>
    obtain ⟨hclass, rfl | rfl⟩ := h ▸ item_at c cs
    · unfold scan
      dsimp only
      rw [hclass]
    · unfold scan
      dsimp only
      rw [hclass]

theorem scan_separator (h : atomhash c = .separator) :
    scan cmds pos (c :: cs) =
      .skip (cs.dropWhile inSeparator) := by
  unfold scan
  dsimp only
  rw [h]

theorem scan_comment (h : atomhash c = .comment) :
    scan cmds pos (c :: cs) =
      if cs.head?.map atomhash = some .comment then .skip cs
      else
        match skipComment cs with
        | some rest => .skip rest
        | none => .leave := by
  unfold scan
  dsimp only
  generalize atomhash c = k at h
  subst h
  rfl

theorem splitFrom_separator (h : atomhash c = .separator) :
    splitFrom cmds size (free + 1) (some (c :: cs)) =
      splitFrom cmds size (free + 1) (some cs) := by
  have hrun : ∀ e es, atomhash e = .separator →
      splitFrom cmds size (free + 1) (some (e :: es)) =
        splitFrom cmds size (free + 1) (some (es.dropWhile inSeparator)) := by
    intro e es he
    rw [splitFrom_succ, scan_separator he]
  rw [hrun c cs h]
  cases cs with
  | nil => rfl
  | cons d ds =>
    by_cases hd : atomhash d = .separator
    · have hin : inSeparator d = true := decide_eq_true hd
      rw [List.dropWhile_cons_of_pos hin, hrun d ds hd]
    · have hout : ¬ inSeparator d = true := fun h => hd (of_decide_eq_true h)
      rw [List.dropWhile_cons_of_neg hout]

end Rounds

end Coht.Extest
