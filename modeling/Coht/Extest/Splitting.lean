import Coht.Extest.Readings

/-!
# When a command line is split as it should be (`extest.c`)

`Clear` goes through a line by its items, and `getAtoms_splits` says that the
lines that are split as they should be are those that are clear and do not begin
with a full stop, which asks for the last command again. The induction of
`splitFrom_iff` is on the rest of the line; `follow_agrees` carries it over the
comments.

The list then ends with an atom that says so, and `param_amount()` does not look
behind it.
-/

namespace Coht.Extest

theorem follow_length {reading : Reading} {s rest : List Char}
    (h : follow reading s = .resumes rest) : rest.length < s.length := by
  fun_induction follow reading s with
  | case1 => cases h
  | case2 => cases h
  | case3 => cases h
  | case4 => cases h
  | case5 => cases h
  | case6 c cs hmark ih => exact Nat.lt_succ_of_lt (ih h)
  | case7 c cs hmark hend => cases h
  | case8 c cs hmark hend ih => exact Nat.lt_succ_of_lt (ih h)
  | case9 c cs hmark ih => exact Nat.lt_succ_of_lt (ih h)
  | case10 c cs hmark hsep ih => exact Nat.lt_succ_of_lt (ih h)
  | case11 c cs hmark hsep => cases h
  | case12 c cs hmark ih => exact Nat.lt_succ_of_lt (ih h)
  | case13 c cs hmark hsep ih => exact Nat.lt_succ_of_lt (ih h)
  | case14 c cs hmark hsep => cases h
  | case15 c cs hmark ih => exact Nat.lt_succ_of_lt (ih h)
  | case16 c cs hmark hsep ih => exact Nat.lt_succ_of_lt (ih h)
  | case17 c cs hmark hsep => cases h
  | case18 c cs hmark =>
    cases h
    exact Nat.lt_succ_self _
  | case19 c cs hmark hend => cases h
  | case20 c cs hmark hend ih => exact Nat.lt_succ_of_lt (ih h)

/-- Up to the end of the list, with room for `free` atoms, all texts can be
copied, strings are closed (but for one that fills the list), and so are
comments; none of them has a character that ends a line, and where one is empty
the readings do not differ by an atom. -/
def Clear (free : Nat) (s : List Char) : Prop :=
  match free with
  | 0 => True
  | free + 1 =>
    match h : item s with
    | .ends _ => True
    | .blank rest => Clear (free + 1) rest
    | .mark rest =>
      match hf : follow .opened rest with
      | .ends => True
      | .rejects => False
      | .resumes behind => Clear (free + 1) behind
    | .token a rest closed =>
      a.Copied ∧ (closed = true ∨ free = 0) ∧ Clear free rest
termination_by s.length
decreasing_by
  · obtain ⟨c, hs, -⟩ := item_blank h
    rw [hs]
    exact Nat.lt_succ_self _
  · obtain ⟨c, hs, -⟩ := item_mark h
    rw [hs]
    exact Nat.lt_succ_of_lt (follow_length hf)
  · exact item_token_length h

theorem clear_zero (s : List Char) : Clear 0 s := by
  rw [Clear]
  trivial

theorem clear_succ (free : Nat) (s : List Char) :
    Clear (free + 1) s ↔
      match item s with
      | .ends _ => True
      | .blank rest => Clear (free + 1) rest
      | .mark rest =>
        match follow .opened rest with
        | .ends => True
        | .rejects => False
        | .resumes behind => Clear (free + 1) behind
      | .token a rest closed =>
        a.Copied ∧ (closed = true ∨ free = 0) ∧ Clear free rest := by
  rw [Clear]
  split
  case h_3 hitem =>
    rw [hitem]
    dsimp only
    split <;> rename_i hf <;> rw [hf]
  all_goals
    rename_i hitem
    rw [hitem]

section Lines

variable {cmds : List CmdDesc} {size free : Nat} {s rest : List Char} {a : Atom}

theorem cons_eq_cons {pos : Nat} {split split' : Split} {b : Atom} :
    Split.cons pos a split = Split.cons pos b split' ↔ a = b ∧ split = split' := by
  constructor
  · intro h
    injection h with hatoms hlast hat
    injection hatoms with hhead htail
    injection hhead with _ ha
    refine ⟨ha, ?_⟩
    cases split
    cases split'
    dsimp only at hlast hat htail
    rw [hlast, hat, htail]
  · rintro ⟨rfl, rfl⟩
    rfl

theorem map_cons_eq {pos : Nat} {split : Option Split} {split' : Split} {b : Atom} :
    split.map (Split.cons pos a) = some (Split.cons pos b split') ↔
      a = b ∧ split = some split' := by
  cases split with
  | none => exact iff_of_false nofun nofun
  | some split => rw [Option.map_some, Option.some.injEq, cons_eq_cons, Option.some.injEq]

theorem splitFrom_token {closed : Bool} (h : item s = .token a rest closed)
    (hrest : splitFrom cmds size free (some rest) = some (wanted cmds size free rest) ↔
      Clear free rest) :
    splitFrom cmds size (free + 1) (some s) = some (wanted cmds size (free + 1) s) ↔
      a.Copied ∧ (closed = true ∨ free = 0) ∧ Clear free rest := by
  rw [splitFrom_succ, wanted_succ, h]
  dsimp only
  by_cases ha : a.Copied
  · rw [(scan_token h).1 ha]
    dsimp only
    rw [map_cons_eq, and_iff_right rfl, and_iff_right ha]
    cases closed with
    | true =>
      rw [if_pos rfl, hrest]
      exact (and_iff_right (.inl rfl)).symm
    | false =>
      rw [if_neg Bool.false_ne_true]
      -- behind the zero only a full list can end
      cases free with
      | zero =>
        rw [splitFrom_zero, wanted_zero]
        exact iff_of_true rfl ⟨.inr rfl, clear_zero rest⟩
      | succ free =>
        refine iff_of_false nofun ?_
        rintro ⟨hclosed | hfree, -⟩
        · cases hclosed
        · cases hfree
  · refine iff_of_false ?_ fun hright => ha hright.1
    obtain hover | ⟨a', r, hscan, hne⟩ := (scan_token h).2 ha
    · rw [hover]
      exact nofun
    · rw [hscan]
      intro heq
      exact hne (map_cons_eq.mp heq).1

theorem splitFrom_iff (hsize : s.length ≤ size) :
    splitFrom cmds size free (some s) = some (wanted cmds size free s) ↔
      Clear free s := by
  induction hn : s.length using Nat.strongRecOn generalizing free s with
  | ind n ih =>
    subst hn
    cases free with
    | zero =>
      rw [splitFrom_zero, wanted_zero]
      exact iff_of_true rfl (clear_zero s)
    | succ free =>
      cases hitem : item s with
      | ends type =>
        rw [splitFrom_succ, scan_ends hitem, wanted_succ, hitem, clear_succ, hitem]
        exact iff_of_true rfl trivial
      | blank rest =>
        obtain ⟨c, rfl, hsep⟩ := item_blank hitem
        rw [splitFrom_separator hsep, wanted_succ, hitem, clear_succ, hitem]
        exact ih rest.length (Nat.lt_succ_self _) (Nat.le_of_succ_le hsize) rfl
      | mark rest =>
        obtain ⟨c, rfl, hmark⟩ := item_mark hitem
        have hrest : rest.length ≤ size := Nat.le_of_succ_le hsize
        have hfollow := follow_agrees cmds free .opened hrest
        rw [splitFrom_comment hmark, wanted_succ, hitem, clear_succ, hitem]
        refine hfollow.trans ?_
        dsimp only
        cases hf : follow .opened rest with
        | ends => exact Iff.rfl
        | rejects => exact Iff.rfl
        | resumes behind =>
          have hlt := follow_length hf
          exact ih behind.length (Nat.lt_succ_of_lt hlt)
            (Nat.le_trans (Nat.le_of_lt hlt) hrest) rfl
      | token a rest closed =>
        have hlt := item_token_length hitem
        rw [splitFrom_token hitem (ih rest.length hlt
          (Nat.le_trans (Nat.le_of_lt hlt) hsize) rfl), clear_succ, hitem]

/-! ## What the rest of the program needs -/

theorem wanted_length (cmds : List CmdDesc) (size free : Nat) (s : List Char) :
    (wanted cmds size free s).atoms.length ≤ free := by
  fun_induction wanted cmds size free s with
  | case1 s => exact Nat.le_refl _
  | case2 s free type h => exact Nat.zero_le _
  | case3 s free rest h ih => exact ih
  | case4 s free rest h ih => exact ih
  | case5 s free a rest closed h ih => exact Nat.succ_le_succ ih

def Atom.Ends (a : Atom) : Prop := a.type = .terminator ∨ a.type = .illegalChar

variable {e : Atom}

theorem listAmount_ends (he : e.Ends) (as zs : List Atom) :
    ∃ n, listAmount (as ++ e :: zs) = some n ∧ n ≤ as.length := by
  induction as with
  | nil =>
    refine ⟨0, if_neg fun h => ?_, Nat.le_refl 0⟩
    rcases he with he | he
    · exact h.1 he
    · exact h.2 he
  | cons a as ih =>
    obtain ⟨n, hn, hle⟩ := ih
    rw [List.cons_append, listAmount]
    split
    · exact ⟨n + 1, by rw [hn]; rfl, Nat.succ_le_succ hle⟩
    · exact ⟨0, rfl, Nat.zero_le _⟩

theorem argAmount_ends (he : e.Ends) (as zs : List Atom) :
    ∃ n, argAmount (as ++ e :: zs) = some n ∧ n ≤ as.length := by
  induction as with
  | nil =>
    refine ⟨0, if_neg fun h => ?_, Nat.le_refl 0⟩
    rcases he with he | he <;> rw [he] at h <;> rcases h with h | h | h <;> cases h
  | cons a as ih =>
    obtain ⟨n, hn, hle⟩ := ih
    rw [List.cons_append, argAmount]
    split
    · split
      · exact ⟨0, rfl, Nat.zero_le _⟩
      · exact ⟨n + 1, by rw [hn]; rfl, Nat.succ_le_succ hle⟩
    · exact ⟨0, rfl, Nat.zero_le _⟩

theorem paramAmount_ends (he : e.Ends) (as zs : List Atom) :
    ∃ pa, paramAmount (a :: (as ++ e :: zs)) = some pa ∧ pa ≤ as.length := by
  have hne : as ++ e :: zs ≠ [] := List.append_ne_nil_of_right_ne_nil as (List.cons_ne_nil _ _)
  rw [paramAmount, if_neg fun h => hne h.2]
  split
  case isTrue hhelp =>
    refine ⟨1, rfl, ?_⟩
    obtain ⟨-, b, hb, halpha, -⟩ := hhelp
    cases as with
    | nil =>
      cases hb
      rcases he with he | he <;> rw [he] at halpha <;> cases halpha
    | cons b as => exact Nat.succ_le_succ (Nat.zero_le _)
  case isFalse =>
    split
    · exact listAmount_ends he as zs
    · exact argAmount_ends he as zs

end Lines

/-- A line is split into what stands in it outside comments; the list ends with
an atom that says so, inside the array; and so do the parameters of each of its
atoms. -/
structure Split.Right (cmds : List CmdDesc) (line : List Char) (split : Split) : Prop where
  atoms : split = wantedAtoms cmds line
  last : split.last = .terminator ∨ split.last = .illegalChar
  fits : split.atoms.length < MAX_ARG_COUNT
  params : ∀ i < split.atoms.length, ∃ pa,
    paramAmount (split.array.drop i) = some pa ∧ i + pa + 1 ≤ split.atoms.length

theorem Split.params_of_last {split : Split}
    (h : split.last = .terminator ∨ split.last = .illegalChar) {i : Nat}
    (hi : i < split.atoms.length) :
    ∃ pa, paramAmount (split.array.drop i) = some pa ∧ i + pa + 1 ≤ split.atoms.length := by
  have hlt : i < (split.atoms.map Prod.snd).length := by rwa [List.length_map]
  unfold Split.array
  rw [List.drop_append_of_le_length (Nat.le_of_lt hlt), List.drop_eq_getElem_cons hlt,
    List.cons_append]
  obtain ⟨pa, hpa, hle⟩ := paramAmount_ends (e := { type := split.last }) h
    ((split.atoms.map Prod.snd).drop (i + 1)) _
  refine ⟨pa, hpa, ?_⟩
  rw [List.length_drop, List.length_map] at hle
  omega

theorem wantedAtoms_right (cmds : List CmdDesc) (line : List Char) :
    (wantedAtoms cmds line).Right cmds line where
  atoms := rfl
  last := wanted_last ..
  fits := Nat.lt_succ_of_le (wanted_length ..)
  params _ hi := Split.params_of_last (wanted_last ..) hi

/-- A line is split as it should be if and only if it does not begin with a full
stop and is clear. -/
theorem getAtoms_splits (cmds : List CmdDesc) (line : List Char) :
    (∃ split, getAtoms cmds line = some split ∧ split.Right cmds line) ↔
      line.head? ≠ some '.' ∧ Clear (MAX_ARG_COUNT - 1) line := by
  have hiff : splitFrom cmds line.length (MAX_ARG_COUNT - 1) (some line) =
      some (wantedAtoms cmds line) ↔ Clear (MAX_ARG_COUNT - 1) line :=
    splitFrom_iff (Nat.le_refl line.length)
  by_cases hdot : line.head? = some '.'
  · refine iff_of_false ?_ fun h => h.1 hdot
    rintro ⟨split, hsplit, hright⟩
    rw [getAtoms, if_pos hdot] at hsplit
    cases hsplit
    obtain ⟨cs, rfl⟩ : ∃ cs, line = '.' :: cs := by
      cases line with
      | nil => cases hdot
      | cons c cs =>
        cases hdot
        exact ⟨cs, rfl⟩
    have hhere := wanted_here cmds ('.' :: cs).length (MAX_ARG_COUNT - 2) cs
      (by decide : atomhash '.' ≠ .separator) (by decide)
    have hnone : (wantedAtoms cmds ('.' :: cs)).firstAt = none := by
      rw [← hright.atoms]
      rfl
    exact nomatch hnone.symm.trans hhere
  · have hget : getAtoms cmds line =
        splitFrom cmds line.length (MAX_ARG_COUNT - 1) (some line) := by
      rw [getAtoms, if_neg hdot]
      rfl
    rw [hget]
    constructor
    · rintro ⟨split, hsplit, hright⟩
      rw [hright.atoms] at hsplit
      exact ⟨hdot, hiff.mp hsplit⟩
    · rintro ⟨-, hclear⟩
      exact ⟨_, hiff.mpr hclear, wantedAtoms_right cmds line⟩

/-- The second mark of an empty comment opens another one, which is not closed. -/
theorem getAtoms_empty_comment :
    ¬ ∃ split, getAtoms [] "a %% b".toList = some split ∧
      split.Right [] "a %% b".toList := by
  rintro ⟨split, hsplit, hright⟩
  have heq : getAtoms [] "a %% b".toList =
      some { atoms := [(0, { type := .alpha, text := ['a'] })], last := .separator } := by
    decide
  rw [heq] at hsplit
  cases hsplit
  rcases hright.last with h | h <;> cases h

end Coht.Extest
