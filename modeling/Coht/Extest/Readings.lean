import Coht.Extest.Items

/-!
# Two readings of the comments (`extest.c`)

Where a comment is empty `get_atoms()` stops in front of the mark that closes it
and takes it for one that opens the next. From there on it is out of step.
`follow` goes through the characters behind a mark with both readings. They
differ by an atom as soon as one of them sees anything but separators where the
other sees a comment, they may come back in step, and a comment that is not
closed leaves the list without an end. `follow_agrees` says that this is all.
-/

namespace Coht.Extest

/-- Where the characters behind a mark are: in the comment it opens, which both
readings have just entered (`opened`) or are in (`both`), in what `get_atoms()`
takes for a comment (`closed` at its first character, `hidden`), or in a comment
that it has left (`shown`). -/
inductive Reading
  | opened | closed | hidden | shown | both
  deriving DecidableEq

/-- Both readings come to an end, one of them has an atom that the other does
not have, or they are back in step. -/
inductive Outcome
  | ends
  | rejects
  | resumes (rest : List Char)

def follow : Reading → List Char → Outcome
  | .shown, [] => .ends
  | .opened, [] | .closed, [] | .hidden, [] | .both, [] => .rejects
  | .opened, c :: cs =>
    if atomhash c = .comment then follow .closed cs
    else if atomhash c = .terminator then .rejects
    else follow .both cs
  | .closed, c :: cs =>
    if atomhash c = .comment then follow .opened cs
    else if atomhash c = .separator then follow .hidden cs
    else .rejects
  | .hidden, c :: cs =>
    if atomhash c = .comment then follow .shown cs
    else if atomhash c = .separator then follow .hidden cs
    else .rejects
  | .shown, c :: cs =>
    if atomhash c = .comment then follow .closed cs
    else if atomhash c = .separator then follow .shown cs
    else .rejects
  | .both, c :: cs =>
    if atomhash c = .comment then .resumes cs
    else if atomhash c = .terminator then .rejects
    else follow .both cs

def splitInside (cmds : List CmdDesc) (size free : Nat) (s : List Char) : Option Split :=
  match skipComment s with
  | some rest => splitFrom cmds size free (some rest)
  | none => some { last := .separator }

def splitBehind (cmds : List CmdDesc) (size free : Nat) (s : List Char) : Option Split :=
  if s.head?.map atomhash = some .comment then splitFrom cmds size free (some s)
  else splitInside cmds size free s

def Reading.taken (cmds : List CmdDesc) (size free : Nat) :
    Reading → List Char → Option Split
  | .opened, s | .closed, s => splitBehind cmds size free s
  | .hidden, s | .both, s => splitInside cmds size free s
  | .shown, s => splitFrom cmds size free (some s)

def Reading.due (cmds : List CmdDesc) (size free : Nat) : Reading → List Char → Split
  | .opened, s | .shown, s | .both, s => wanted cmds size free (behindComment s)
  | .closed, s | .hidden, s => wanted cmds size free s

def Outcome.Agrees (cmds : List CmdDesc) (size free : Nat) : Outcome → Prop
  | .ends => True
  | .rejects => False
  | .resumes rest =>
    splitFrom cmds size free (some rest) = some (wanted cmds size free rest)

def Split.firstAt (split : Split) : Option Nat :=
  match split.atoms with
  | [] => split.lastAt
  | (pos, _) :: _ => some pos

section Readings

variable {cmds : List CmdDesc} {size free pos : Nat} {s rest : List Char} {c : Char}
  {cs : List Char} {split : Split}

theorem wanted_last (cmds : List CmdDesc) (size free : Nat) (s : List Char) :
    (wanted cmds size free s).last = .terminator ∨
      (wanted cmds size free s).last = .illegalChar := by
  fun_induction wanted cmds size free s with
  | case1 s => exact .inl rfl
  | case2 s free type h =>
    cases s with
    | nil =>
      cases h
      exact .inl rfl
    | cons c cs =>
      have hat := item_at c cs
      rw [h] at hat
      exact hat.2
  | case3 s free rest h ih => exact ih
  | case4 s free rest h ih => exact ih
  | case5 s free a rest closed h ih => exact ih

theorem leave_ne_wanted :
    (some { last := .separator } : Option Split) ≠ some (wanted cmds size free s) := by
  intro h
  have hlast := wanted_last cmds size free s
  rw [← Option.some.inj h] at hlast
  rcases hlast with h | h <;> cases h

theorem item_here (hsep : atomhash c ≠ .separator) (hmark : atomhash c ≠ .comment) :
    (∃ type, item (c :: cs) = .ends type) ∨
      ∃ a rest closed, item (c :: cs) = .token a rest closed := by
  have hat := item_at c cs
  cases hitem : item (c :: cs) with
  | ends type => exact .inl ⟨type, rfl⟩
  | token a rest closed => exact .inr ⟨a, rest, closed, rfl⟩
  | blank rest =>
    rw [hitem] at hat
    exact absurd hat.1 hsep
  | mark rest =>
    rw [hitem] at hat
    exact absurd hat.1 hmark

theorem wanted_here (cmds : List CmdDesc) (size free : Nat) (cs : List Char)
    (hsep : atomhash c ≠ .separator) (hmark : atomhash c ≠ .comment) :
    (wanted cmds size (free + 1) (c :: cs)).firstAt = some (size - (c :: cs).length) := by
  rw [wanted_succ]
  obtain ⟨type, h⟩ | ⟨a, rest, closed, h⟩ := item_here hsep hmark <;> rw [h] <;> rfl

theorem splitFrom_here (hsep : atomhash c ≠ .separator) (hmark : atomhash c ≠ .comment)
    (h : splitFrom cmds size (free + 1) (some (c :: cs)) = some split) :
    split.firstAt = some (size - (c :: cs).length) := by
  have hcons : ∀ a r, scan cmds (size - (c :: cs).length) (c :: cs) = .atom a r →
      split.firstAt = some (size - (c :: cs).length) := by
    intro a r hscan
    rw [splitFrom_succ, hscan] at h
    obtain ⟨split', -, rfl⟩ := Option.map_eq_some_iff.mp h
    rfl
  obtain ⟨type, hitem⟩ | ⟨a, rest, closed, hitem⟩ := item_here hsep hmark
  · rw [splitFrom_succ, scan_ends hitem] at h
    cases h
    rfl
  · by_cases ha : a.Copied
    · exact hcons _ _ ((scan_token hitem).1 ha)
    · obtain hover | ⟨a', r, hscan, -⟩ := (scan_token hitem).2 ha
      · rw [splitFrom_succ, hover] at h
        cases h
      · exact hcons _ _ hscan

theorem wanted_firstAt (cmds : List CmdDesc) (size free : Nat) (s : List Char) :
    ∀ p ∈ (wanted cmds size free s).firstAt, size - s.length ≤ p := by
  fun_induction wanted cmds size free s with
  | case1 s => exact fun p hp => nomatch hp
  | case2 s free type h =>
    intro p hp
    cases hp
    exact Nat.le_refl _
  | case3 s free rest h ih =>
    intro p hp
    obtain ⟨c, rfl, -⟩ := item_blank h
    have hle := ih p hp
    rw [List.length_cons]
    omega
  | case4 s free rest h ih =>
    intro p hp
    obtain ⟨c, rfl, -⟩ := item_mark h
    have hle := ih p hp
    have hbehind := behindComment_length rest
    rw [List.length_cons]
    omega
  | case5 s free a rest closed h ih =>
    intro p hp
    cases hp
    exact Nat.le_refl _

theorem splitFrom_firstAt (h : splitFrom cmds size free (some s) = some split) :
    ∀ p ∈ split.firstAt, size - s.length ≤ p := by
  induction hn : s.length using Nat.strongRecOn generalizing s with
  | ind n ih =>
    subst hn
    cases free with
    | zero =>
      cases h
      exact fun p hp => nomatch hp
    | succ free =>
      rw [splitFrom_succ] at h
      cases hscan : scan cmds (size - s.length) s with
      | stop type =>
        rw [hscan] at h
        cases h
        intro p hp
        cases hp
        exact Nat.le_refl _
      | leave =>
        rw [hscan] at h
        cases h
        exact fun p hp => nomatch hp
      | overflow =>
        rw [hscan] at h
        cases h
      | skip rest =>
        rw [hscan] at h
        have hlt := scan_skip_length hscan
        intro p hp
        have hle := ih rest.length hlt h rfl p hp
        omega
      | atom a r =>
        rw [hscan] at h
        obtain ⟨split', -, rfl⟩ := Option.map_eq_some_iff.mp h
        intro p hp
        cases hp
        exact Nat.le_refl _

theorem splitFrom_comment (h : atomhash c = .comment) :
    splitFrom cmds size (free + 1) (some (c :: cs)) =
      splitBehind cmds size (free + 1) cs := by
  rw [splitFrom_succ, scan_comment h]
  unfold splitBehind splitInside
  by_cases hhead : cs.head?.map atomhash = some .comment
  · rw [if_pos hhead, if_pos hhead]
  · rw [if_neg hhead, if_neg hhead]
    cases skipComment cs <;> rfl

theorem splitBehind_comment (h : atomhash c = .comment) :
    splitBehind cmds size (free + 1) (c :: cs) = splitBehind cmds size (free + 1) cs := by
  have hhead : splitBehind cmds size (free + 1) (c :: cs) =
      splitFrom cmds size (free + 1) (some (c :: cs)) := if_pos (congrArg some h)
  rw [hhead, splitFrom_comment h]

theorem splitBehind_other (h : atomhash c ≠ .comment) :
    splitBehind cmds size free (c :: cs) = splitInside cmds size free (c :: cs) :=
  if_neg fun heq => h (Option.some.inj heq)

theorem splitInside_comment (h : atomhash c = .comment) :
    splitInside cmds size free (c :: cs) = splitFrom cmds size free (some cs) := by
  have hend : ¬ atomhash c = .terminator := by
    rw [h]
    exact AtomType.noConfusion
  unfold splitInside
  rw [skipComment, if_neg hend, if_pos h]

theorem splitInside_terminator (h : atomhash c = .terminator) :
    splitInside cmds size free (c :: cs) = some { last := .separator } := by
  unfold splitInside
  rw [skipComment, if_pos h]

theorem splitInside_other (hend : atomhash c ≠ .terminator) (h : atomhash c ≠ .comment) :
    splitInside cmds size free (c :: cs) = splitInside cmds size free cs := by
  unfold splitInside
  rw [skipComment, if_neg hend, if_neg h]

theorem wanted_comment (h : atomhash c = .comment) :
    wanted cmds size (free + 1) (c :: cs) =
      wanted cmds size (free + 1) (behindComment cs) := by
  have hitem : item (c :: cs) = .mark cs := by
    unfold item
    dsimp only
    rw [h]
  rw [wanted_succ, hitem]

theorem wanted_separator (h : atomhash c = .separator) :
    wanted cmds size (free + 1) (c :: cs) = wanted cmds size (free + 1) cs := by
  have hitem : item (c :: cs) = .blank cs := by
    unfold item
    dsimp only
    rw [h]
  rw [wanted_succ, hitem]

theorem behindComment_comment (cs : List Char) (h : atomhash c = .comment) :
    behindComment (c :: cs) = cs := by
  have hout : ¬ inComment c = true := fun hin => of_decide_eq_true hin h
  unfold behindComment
  rw [List.dropWhile_cons_of_neg hout]
  rfl

theorem behindComment_other (cs : List Char) (h : atomhash c ≠ .comment) :
    behindComment (c :: cs) = behindComment cs := by
  have hin : inComment c = true := decide_eq_true h
  unfold behindComment
  rw [List.dropWhile_cons_of_pos hin]

theorem splitInside_ne (hsize : (c :: cs).length ≤ size) (hsep : atomhash c ≠ .separator)
    (hmark : atomhash c ≠ .comment) :
    splitInside cmds size (free + 1) (c :: cs) ≠
      some (wanted cmds size (free + 1) (c :: cs)) := by
  intro h
  have hhere := wanted_here cmds size free cs hsep hmark
  unfold splitInside at h
  cases hskip : skipComment (c :: cs) with
  | none =>
    rw [hskip] at h
    exact leave_ne_wanted h
  | some rest =>
    rw [hskip] at h
    have hlt := skipComment_length hskip
    have hle := splitFrom_firstAt h _ hhere
    omega

theorem splitFrom_ne (hsize : (c :: cs).length ≤ size) (hsep : atomhash c ≠ .separator)
    (hmark : atomhash c ≠ .comment) :
    splitFrom cmds size (free + 1) (some (c :: cs)) ≠
      some (wanted cmds size (free + 1) (behindComment cs)) := by
  intro h
  have hhere := splitFrom_here hsep hmark h
  have hle := wanted_firstAt cmds size (free + 1) (behindComment cs) _ hhere
  have hbehind := behindComment_length cs
  rw [List.length_cons] at hle hsize
  omega

theorem follow_agrees (cmds : List CmdDesc) (free : Nat) (reading : Reading)
    (hsize : s.length ≤ size) :
    reading.taken cmds size (free + 1) s = some (reading.due cmds size (free + 1) s) ↔
      (follow reading s).Agrees cmds size (free + 1) := by
  induction s generalizing reading with
  | nil =>
    cases reading with
    | shown =>
      refine iff_of_true ?_ trivial
      show splitFrom cmds size (free + 1) (some []) =
        some (wanted cmds size (free + 1) [])
      rw [splitFrom_succ, wanted_succ]
      rfl
    | opened => exact iff_of_false leave_ne_wanted id
    | closed => exact iff_of_false leave_ne_wanted id
    | hidden => exact iff_of_false leave_ne_wanted id
    | both => exact iff_of_false leave_ne_wanted id
  | cons c cs ih =>
    have hrest : cs.length ≤ size := Nat.le_of_succ_le hsize
    by_cases hmark : atomhash c = .comment
    · have hbehind := behindComment_comment cs hmark
      cases reading with
      | opened =>
        dsimp only [Reading.taken, Reading.due]
        rw [follow, if_pos hmark, splitBehind_comment hmark, hbehind]
        exact ih .closed hrest
      | closed =>
        dsimp only [Reading.taken, Reading.due]
        rw [follow, if_pos hmark, splitBehind_comment hmark, wanted_comment hmark]
        exact ih .opened hrest
      | hidden =>
        dsimp only [Reading.taken, Reading.due]
        rw [follow, if_pos hmark, splitInside_comment hmark, wanted_comment hmark]
        exact ih .shown hrest
      | shown =>
        dsimp only [Reading.taken, Reading.due]
        rw [follow, if_pos hmark, splitFrom_comment hmark, hbehind]
        exact ih .closed hrest
      | both =>
        dsimp only [Reading.taken, Reading.due]
        rw [follow, if_pos hmark, splitInside_comment hmark, hbehind]
        rfl
    · have hbehind := behindComment_other cs hmark
      -- what both readings do inside of their comments
      have hinside : splitInside cmds size (free + 1) (c :: cs) =
            some (wanted cmds size (free + 1) (behindComment (c :: cs))) ↔
          (if atomhash c = .terminator then Outcome.rejects
            else follow .both cs).Agrees cmds size (free + 1) := by
        by_cases hend : atomhash c = .terminator
        · rw [if_pos hend, splitInside_terminator hend]
          exact iff_of_false leave_ne_wanted id
        · rw [if_neg hend, splitInside_other hend hmark, hbehind]
          exact ih .both hrest
      -- and where what one of them takes for a comment is none
      have hhidden : splitInside cmds size (free + 1) (c :: cs) =
            some (wanted cmds size (free + 1) (c :: cs)) ↔
          (if atomhash c = .separator then follow .hidden cs
            else .rejects).Agrees cmds size (free + 1) := by
        by_cases hsep : atomhash c = .separator
        · have hend : atomhash c ≠ .terminator := by
            rw [hsep]
            exact AtomType.noConfusion
          rw [if_pos hsep, splitInside_other hend hmark, wanted_separator hsep]
          exact ih .hidden hrest
        · rw [if_neg hsep]
          exact iff_of_false (splitInside_ne hsize hsep hmark) id
      cases reading with
      | opened =>
        dsimp only [Reading.taken, Reading.due]
        rw [follow, if_neg hmark, splitBehind_other hmark]
        exact hinside
      | both =>
        dsimp only [Reading.taken, Reading.due]
        rw [follow, if_neg hmark]
        exact hinside
      | closed =>
        dsimp only [Reading.taken, Reading.due]
        rw [follow, if_neg hmark, splitBehind_other hmark]
        exact hhidden
      | hidden =>
        dsimp only [Reading.taken, Reading.due]
        rw [follow, if_neg hmark]
        exact hhidden
      | shown =>
        dsimp only [Reading.taken, Reading.due]
        rw [follow, if_neg hmark, hbehind]
        by_cases hsep : atomhash c = .separator
        · rw [if_pos hsep, splitFrom_separator hsep]
          exact ih .shown hrest
        · rw [if_neg hsep]
          exact iff_of_false (splitFrom_ne hsize hsep hmark) id

end Readings

end Coht.Extest
