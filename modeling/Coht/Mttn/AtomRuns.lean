import Coht.Lib.Segments
import Coht.Mttn.AtomLines

/-!
# The scanner in front of a comment (`asm.c`)

No run goes on over a blank, a mark or a newline, so the runs of a line can be
read off piece by piece: `firstRun_append` says so for one run and
`runs_append` for all of them, by `runs_induction`, which takes a line run by
run. In front of the first mark the scanner takes exactly these runs. A blank
there clears `newline`, and a full stop makes an atom of its own.

`out` is what `GetAtoms()` makes of the rest of a text, as far as it counts;
`out_blank` and `out_run` are one round of its loop.
-/

namespace Coht.Mttn

open Coht.Lib

/-! ## Runs -/

section Runs

variable {c : Char} {cs t s : List Char}

def Stops (t : List Char) : Prop :=
  ∀ d ∈ t.head?, atomhash d = .seperator ∨ atomhash d = .comment

theorem digitValue_eq_none {d : Char}
    (h : atomhash d ≠ .numeric ∧ atomhash d ≠ .alpha) :
    digitValue d = none := by
  unfold digitValue
  unfold atomhash at h
  split
  · rename_i hd
    rw [if_pos hd] at h
    exact absurd rfl h.1
  · rename_i hd
    rw [if_neg hd] at h
    split
    · rename_i hd'
      rw [if_pos (.inr (.inl hd'))] at h
      exact absurd rfl h.2
    · split
      · rename_i hd'
        rw [if_pos (.inl hd')] at h
        exact absurd rfl h.2
      · rfl

theorem Stops.digitValue (ht : Stops t) :
    ∀ d ∈ t.head?, digitValue d = none := by
  intro d hd
  refine digitValue_eq_none ?_
  rcases ht d hd with h | h <;> rw [h] <;> exact ⟨by decide, by decide⟩

theorem Stops.inWord (ht : Stops t) : ∀ d ∈ t.head?, inWord d = false := by
  intro d hd
  unfold Mttn.inWord
  rcases ht d hd with h | h <;> rw [h] <;> decide

theorem Stops.inOperator (ht : Stops t) :
    ∀ d ∈ t.head?, inOperator d = false := by
  intro d hd
  unfold Mttn.inOperator
  rcases ht d hd with h | h <;> rw [h] <;> decide

theorem firstRun_append (ht : Stops t) :
    firstRun c (cs ++ t) = ((firstRun c cs).1, (firstRun c cs).2 ++ t) := by
  unfold firstRun
  cases hc : atomhash c with
  | numeric =>
    dsimp only
    rw [strtoul_append (atomhash_numeric hc) ht.digitValue]
  | alpha =>
    dsimp only
    rw [takeWhile_append_stop ht.inWord, dropWhile_append_stop ht.inWord]
  | operator =>
    dsimp only
    rw [takeWhile_append_stop ht.inOperator,
      dropWhile_append_stop ht.inOperator]
  | _ => rfl

theorem firstRun_length (c : Char) (cs : List Char) :
    (firstRun c cs).2.length ≤ cs.length := by
  unfold firstRun
  cases hc : atomhash c with
  | numeric =>
    exact Nat.le_of_lt_succ (strtoul_length_lt (atomhash_numeric hc))
  | alpha | operator => exact (List.dropWhile_sublist _).length_le
  | _ => exact Nat.le_refl _

theorem rest_length {a : Option Atom} {rest : List Char}
    (h : firstRun c cs = (a, rest)) : rest.length ≤ cs.length := by
  have hle := firstRun_length c cs
  rwa [h] at hle

theorem runsLoop_fuel {fuel fuel' : Nat} (h : s.length ≤ fuel)
    (h' : s.length ≤ fuel') : runsLoop fuel s = runsLoop fuel' s := by
  induction fuel generalizing s fuel' with
  | zero =>
    rw [List.eq_nil_of_length_eq_zero (Nat.le_zero.mp h)]
    cases fuel' <;> rfl
  | succ fuel ih =>
    cases s with
    | nil => cases fuel' <;> rfl
    | cons c cs =>
      rw [List.length_cons] at h h'
      obtain ⟨fuel', rfl⟩ : ∃ n, fuel' = n + 1 := ⟨fuel' - 1, by omega⟩
      rw [runsLoop, runsLoop]
      cases hrun : firstRun c cs with
      | mk a rest =>
        have hle := rest_length hrun
        have hrest : runsLoop fuel rest = runsLoop fuel' rest :=
          ih (by omega) (by omega)
        cases a with
        | none => exact hrest
        | some a => exact congrArg (a :: ·) hrest

theorem runs_cons (c : Char) (cs : List Char) :
    runs (c :: cs) = (firstRun c cs).1.toList ++ runs (firstRun c cs).2 := by
  rw [runs, List.length_cons, runsLoop]
  cases hrun : firstRun c cs with
  | mk a rest =>
    have hrest : runsLoop cs.length rest = runs rest :=
      runsLoop_fuel (rest_length hrun) (Nat.le_refl _)
    cases a with
    | none => exact hrest
    | some a => exact congrArg (a :: ·) hrest

theorem firstRun_none (h : beginsRun c = false) : firstRun c cs = (none, cs) := by
  unfold beginsRun firstRun at h
  unfold firstRun
  cases hc : atomhash c <;> rw [hc] at h <;> first | rfl | cases h

theorem firstRun_isSome : (firstRun c cs).1.isSome = beginsRun c := by
  unfold beginsRun firstRun
  cases atomhash c <;> rfl

theorem runs_blank (h : beginsRun c = false) : runs (c :: cs) = runs cs := by
  rw [runs_cons, firstRun_none h]
  rfl

theorem runs_run {a : Atom} {rest : List Char}
    (h : firstRun c cs = (some a, rest)) : runs (c :: cs) = a :: runs rest := by
  rw [runs_cons, h]
  rfl

@[elab_as_elim]
theorem runs_induction {motive : List Char → Prop} (nil : motive [])
    (blank : ∀ c cs, beginsRun c = false → motive cs → motive (c :: cs))
    (run : ∀ c cs a rest, firstRun c cs = (some a, rest) → motive rest →
      motive (c :: cs))
    (s : List Char) : motive s := by
  generalize hn : s.length = n
  induction n using Nat.strong_induction_on generalizing s with
  | h n ih =>
    cases s with
    | nil => exact nil
    | cons c cs =>
      rw [List.length_cons] at hn
      cases hbegins : beginsRun c with
      | false => exact blank c cs hbegins (ih cs.length (by omega) cs rfl)
      | true =>
        have hle := firstRun_length c cs
        have hsome : (firstRun c cs).1.isSome = true :=
          firstRun_isSome.trans hbegins
        obtain ⟨a, ha⟩ := Option.isSome_iff_exists.mp hsome
        exact run c cs a _ (Prod.ext ha rfl)
          (ih (firstRun c cs).2.length (by omega) _ rfl)

theorem runs_append (ht : Stops t) : runs (s ++ t) = runs s ++ runs t := by
  induction s using runs_induction with
  | nil => rfl
  | blank c cs hbegins ih =>
    rw [List.cons_append, runs_blank hbegins, runs_blank hbegins, ih]
  | run c cs a rest hrun ih =>
    have hfirst : firstRun c (cs ++ t) = (some a, rest ++ t) := by
      rw [firstRun_append ht, hrun]
    rw [List.cons_append, runs_run hfirst, runs_run hrun, ih,
      List.cons_append]

theorem runs_eq_nil : runs s = [] ↔ ∀ c ∈ s, beginsRun c = false := by
  induction s using runs_induction with
  | nil => exact ⟨fun _ _ h => (by cases h), fun _ => rfl⟩
  | blank c cs hbegins ih =>
    rw [runs_blank hbegins, List.forall_mem_cons, ih]
    exact (and_iff_right hbegins).symm
  | run c cs a rest hrun ih =>
    rw [runs_run hrun]
    refine ⟨fun h => (by cases h), fun h => ?_⟩
    have hnone := @firstRun_none c cs (h c List.mem_cons_self)
    rw [hrun] at hnone
    cases hnone

def Atom.IsRun (a : Atom) : Prop :=
  a.type ≠ .seperator ∧ a.type ≠ .comment ∧ a.type ≠ .bit

theorem alphaAtom_isRun (text : List Char) : (alphaAtom text).IsRun := by
  unfold alphaAtom
  split
  · exact ⟨by simp, by simp, by simp⟩
  · split <;> exact ⟨by simp, by simp, by simp⟩

theorem firstRun_isRun {a : Atom} (h : (firstRun c cs).1 = some a) :
    a.IsRun := by
  unfold firstRun at h
  cases hc : atomhash c with
  | alpha =>
    rw [hc] at h
    injection h with h
    rw [← h]
    exact alphaAtom_isRun _
  | numeric | operator | «open» | close | openIndex | closeIndex =>
    rw [hc] at h
    injection h with h
    rw [← h]
    exact ⟨by simp [operatorAtom], by simp [operatorAtom],
      by simp [operatorAtom]⟩
  | _ =>
    rw [hc] at h
    cases h

theorem runs_isRun {a : Atom} (h : a ∈ runs s) : a.IsRun := by
  induction s using runs_induction with
  | nil => cases h
  | blank c cs hbegins ih =>
    rw [runs_blank hbegins] at h
    exact ih h
  | run c cs b rest hrun ih =>
    rw [runs_run hrun] at h
    rcases List.mem_cons.mp h with rfl | h
    · exact firstRun_isRun (by rw [hrun])
    · exact ih h

theorem firstRun_mem {d : Char} (hd : d ∈ cs)
    (hnumeric : atomhash d ≠ .numeric) (halpha : atomhash d ≠ .alpha)
    (hoperator : atomhash d ≠ .operator) : d ∈ (firstRun c cs).2 := by
  have hdrop : ∀ f : Char → Bool, f d = false → d ∈ cs.dropWhile f := by
    intro f hf
    have hmem : d ∈ cs.takeWhile f ++ cs.dropWhile f := by
      rw [List.takeWhile_append_dropWhile]
      exact hd
    rcases List.mem_append.mp hmem with htake | hdrop
    · rw [List.mem_takeWhile_imp htake] at hf
      cases hf
    · exact hdrop
  unfold firstRun
  cases hc : atomhash c with
  | numeric =>
    exact strtoul_mem (atomhash_numeric hc)
      (digitValue_eq_none ⟨hnumeric, halpha⟩) (List.mem_cons_of_mem c hd)
  | alpha =>
    refine hdrop inWord ?_
    simp [inWord, hnumeric, halpha]
  | operator =>
    refine hdrop inOperator ?_
    simp [inOperator, hoperator]
  | _ => exact hd

theorem firstRun_subset {d : Char} (hd : d ∈ (firstRun c cs).2) :
    d ∈ c :: cs := by
  unfold firstRun at hd
  cases hc : atomhash c with
  | numeric =>
    rw [hc] at hd
    exact (strtoul_suffix (atomhash_numeric hc)).mem hd
  | alpha | operator =>
    rw [hc] at hd
    exact List.mem_cons_of_mem c ((List.dropWhile_suffix _).mem hd)
  | _ =>
    rw [hc] at hd
    exact List.mem_cons_of_mem c hd

end Runs

/-! ## The scanner in front of the first mark -/

section Scanner

variable {c : Char} {cs : List Char}

theorem atomhash_bit (h : atomhash c = .bit) : c = '.' := by
  unfold atomhash at h
  split at h
  · cases h
  · split at h
    · cases h
    · split at h <;> first | rfl | cases h

theorem atomhash_scanned (c : Char) :
    atomhash c ≠ .opCode ∧ atomhash c ≠ .register ∧
      atomhash c ≠ .expression ∧ atomhash c ≠ .notSet := by
  unfold atomhash
  split
  · exact ⟨by decide, by decide, by decide, by decide⟩
  · split
    · exact ⟨by decide, by decide, by decide, by decide⟩
    · split <;> exact ⟨by decide, by decide, by decide, by decide⟩

theorem scan_run (hlegal : Legal c) (hmark : isMark c = false)
    (hnewline : c ≠ '\n') (hstop : c ≠ '.') :
    scan (c :: cs) =
      match firstRun c cs with
      | (some a, rest) =>
        if TEXT ≤ a.text.length then .overflow else .atom a rest
      | (none, rest) => .skip rest := by
  obtain ⟨hop, hreg, hexpr, hnot⟩ := atomhash_scanned c
  unfold firstRun
  rw [scan]
  cases hc : atomhash c with
  | numeric | «open» | close | openIndex | closeIndex => rfl
  | alpha =>
    dsimp only
    rw [alphaAtom_text]
  | operator => rfl
  | seperator =>
    dsimp only
    rw [if_neg hnewline]
  | comment =>
    unfold isMark at hmark
    rw [hc] at hmark
    cases hmark
  | bit => exact absurd (atomhash_bit hc) hstop
  | illegalChar => exact absurd hc hlegal.1
  | terminator => exact absurd hc hlegal.2
  | opCode => exact absurd hc hop
  | register => exact absurd hc hreg
  | expression => exact absurd hc hexpr
  | notSet => exact absurd hc hnot

end Scanner

/-! ## The atoms that count -/

def out (size : Nat) (r : Reader) : Option (List LineAtom) :=
  (getLinesLoop size (r.rest.length + 1) r).map fun x => countedAtoms x.1

theorem countedAtoms_cons {a : LineAtom} {l : List LineAtom} (hl : l ≠ []) :
    countedAtoms (a :: l) =
      if a.1.type = .comment then countedAtoms l else plain a :: countedAtoms l := by
  unfold countedAtoms
  rw [List.dropLast_cons_of_ne_nil hl]
  by_cases ha : a.1.type = .comment <;> simp [ha]

theorem out_eq {size : Nat} {r : Reader} (h : r.Placed size) :
    out size r =
      match scan r.rest with
      | .stop _ => some []
      | .skip rest => out size (r.skip rest)
      | .atom a rest =>
        (out size (r.take a rest)).map fun l =>
          if a.type = .comment then l else plain (a, r.line) :: l
      | .overflow => none := by
  unfold out
  rw [getLinesLoop_placed h]
  cases hscan : scan r.rest with
  | stop illegal => rfl
  | overflow => rfl
  | skip rest =>
    have hlt := scan_skip_length hscan
    have hrest : (r.skip rest).rest = rest := rfl
    dsimp only
    rw [getLinesLoop_fuel (h.skip hscan) (by rw [hrest]; exact hlt)
      (Nat.lt_succ_self _)]
  | atom a rest =>
    have hlt := scan_atom_length hscan
    have hrest := r.take_rest a rest
    dsimp only
    rw [getLinesLoop_fuel (h.take hscan) (by rw [hrest]; exact hlt)
      (Nat.lt_succ_self _)]
    cases hloop : getLinesLoop size ((r.take a rest).rest.length + 1)
        (r.take a rest) with
    | none => rfl
    | some x =>
      rw [Option.map_some, Option.map_some, Option.map_some,
        Option.map_some, countedAtoms_cons (getLinesLoop_ne_nil hloop)]

section Visible

variable {size : Nat} {v t : List Char}

def Shown (c : Char) : Prop := Legal c ∧ isMark c = false ∧ c ≠ '\n'

theorem shown_seperator {c : Char} (hc : Shown c) (hstop : c ≠ '.')
    (hrun : beginsRun c = false) : atomhash c = .seperator := by
  obtain ⟨hlegal, hmark, -⟩ := hc
  obtain ⟨hop, hreg, hexpr, hnot⟩ := atomhash_scanned c
  unfold beginsRun firstRun at hrun
  unfold isMark at hmark
  cases hclass : atomhash c with
  | seperator => rfl
  | comment =>
    rw [hclass] at hmark
    cases hmark
  | bit => exact absurd (atomhash_bit hclass) hstop
  | illegalChar => exact absurd hclass hlegal.1
  | terminator => exact absurd hclass hlegal.2
  | opCode => exact absurd hclass hop
  | register => exact absurd hclass hreg
  | expression => exact absurd hclass hexpr
  | notSet => exact absurd hclass hnot
  | _ =>
    rw [hclass] at hrun
    cases hrun

def newlineAfter (v : List Char) (newline : Int) : Int :=
  if v.any fun c => atomhash c = .seperator then 0 else newline

theorem any_seperator {v : List Char} :
    v.any (fun c => atomhash c = .seperator) = true ↔
      ∃ c ∈ v, atomhash c = .seperator := by
  simp only [List.any_eq_true, decide_eq_true_eq]

theorem newlineAfter_zero (v : List Char) : newlineAfter v 0 = 0 := by
  unfold newlineAfter
  split <;> rfl

theorem newlineAfter_run {c : Char} (cs : List Char) (newline : Int)
    (hc : atomhash c ≠ .seperator) :
    newlineAfter (c :: cs) newline =
      newlineAfter (firstRun c cs).2 newline := by
  have hiff : (∃ d ∈ c :: cs, atomhash d = .seperator) ↔
      ∃ d ∈ (firstRun c cs).2, atomhash d = .seperator := by
    constructor
    · rintro ⟨d, hd, hsep⟩
      rcases List.mem_cons.mp hd with rfl | hd
      · exact absurd hsep hc
      · exact ⟨d, firstRun_mem hd (by rw [hsep]; decide)
          (by rw [hsep]; decide) (by rw [hsep]; decide), hsep⟩
    · rintro ⟨d, hd, hsep⟩
      exact ⟨d, firstRun_subset hd, hsep⟩
  unfold newlineAfter
  simp only [any_seperator, hiff]

theorem Atom.IsRun.take {a : Atom} (ha : a.IsRun) (r : Reader)
    (rest : List Char) :
    r.take a rest =
      { r with rest, pos := r.pos + (r.rest.length - rest.length) } := by
  rw [Reader.take, if_neg ha.1, if_neg ha.2.1]

theorem Atom.IsRun.plain {a : Atom} (ha : a.IsRun) (line : Int) :
    plain (a, line) = (a, line) := if_neg ha.1

theorem firstRun_class {c : Char} {cs rest : List Char} {a : Atom}
    (h : firstRun c cs = (some a, rest)) : atomhash c ≠ .seperator := by
  intro hc
  unfold firstRun at h
  rw [hc] at h
  cases h

theorem out_blank {c : Char} {cs : List Char} (hc : Shown c) (hdot : c ≠ '.')
    (hrun : beginsRun c = false) {pos : Nat} {line newline : Int}
    (hplaced : pos + (c :: cs).length ≤ size + 1) :
    out size ⟨c :: cs, pos, line, newline⟩ =
      out size ⟨cs, pos + 1, line, 0⟩ := by
  have hr : Reader.Placed size ⟨c :: cs, pos, line, newline⟩ := hplaced
  rw [out_eq hr]
  dsimp only
  rw [scan_run hc.1 hc.2.1 hc.2.2 hdot, firstRun_none hrun]
  rfl

theorem out_run {c : Char} {cs rest : List Char} {a : Atom} (hc : Shown c)
    (hdot : c ≠ '.') (hrun : firstRun c cs = (some a, rest)) {pos : Nat}
    {line newline : Int} (hplaced : pos + (c :: cs).length ≤ size + 1) :
    out size ⟨c :: cs, pos, line, newline⟩ =
      if TEXT ≤ a.text.length then none
      else
        (out size ⟨rest, pos + ((c :: cs).length - rest.length), line,
          newline⟩).map ((a, line) :: ·) := by
  have hr : Reader.Placed size ⟨c :: cs, pos, line, newline⟩ := hplaced
  have ha : a.IsRun := firstRun_isRun (by rw [hrun])
  rw [out_eq hr]
  dsimp only
  rw [scan_run hc.1 hc.2.1 hc.2.2 hdot, hrun]
  dsimp only
  by_cases hlong : TEXT ≤ a.text.length
  · rw [if_pos hlong, if_pos hlong]
  · rw [if_neg hlong, if_neg hlong]
    dsimp only
    rw [ha.take, ha.plain]
    congr 1
    funext l
    rw [if_neg ha.2.1]

theorem out_visible (hv : ∀ c ∈ v, Shown c) (hstop : '.' ∉ v) (ht : Stops t)
    (pos : Nat) (line newline : Int)
    (hplaced : pos + (v ++ t).length ≤ size + 1) :
    ∃ pos', pos' + t.length ≤ size + 1 ∧
      out size ⟨v ++ t, pos, line, newline⟩ =
        if ∀ a ∈ runs v, a.text.length < TEXT then
          (out size ⟨t, pos', line, newlineAfter v newline⟩).map
            ((runs v).map (·, line) ++ ·)
        else none := by
  induction v using runs_induction generalizing pos newline with
  | nil =>
    refine ⟨pos, hplaced, ?_⟩
    rw [if_pos (fun a ha => by cases ha)]
    exact Option.map_id'.symm
  | blank c cs hbegins ih =>
    have hc := hv c List.mem_cons_self
    have hdot : c ≠ '.' := fun h => hstop (h ▸ List.mem_cons_self)
    rw [List.cons_append] at hplaced
    rw [List.length_cons] at hplaced
    obtain ⟨pos', hpos', hout⟩ := ih
      (fun d hd => hv d (List.mem_cons_of_mem c hd))
      (fun hd => hstop (List.mem_cons_of_mem c hd)) (pos + 1) 0 (by omega)
    refine ⟨pos', hpos', ?_⟩
    have hzero : newlineAfter (c :: cs) newline = 0 :=
      if_pos (any_seperator.mpr ⟨c, List.mem_cons_self,
        shown_seperator hc hdot hbegins⟩)
    rw [List.cons_append, out_blank hc hdot hbegins hplaced,
      runs_blank hbegins, hzero, hout, newlineAfter_zero]
  | run c cs a rest hrun ih =>
    have hc := hv c List.mem_cons_self
    have hdot : c ≠ '.' := fun h => hstop (h ▸ List.mem_cons_self)
    have hsubset := @firstRun_subset c cs
    have hle := rest_length hrun
    have hafter := newlineAfter_run cs newline (firstRun_class hrun)
    rw [hrun] at hsubset hafter
    have hfirst : firstRun c (cs ++ t) = (some a, rest ++ t) := by
      rw [firstRun_append ht, hrun]
    rw [List.cons_append] at hplaced
    have hlength : pos + (cs.length + t.length + 1) ≤ size + 1 := by
      simpa only [List.length_cons, List.length_append] using hplaced
    obtain ⟨pos', hpos', hout⟩ := ih (fun d hd => hv d (hsubset hd))
      (fun hd => hstop (hsubset hd))
      (pos + ((c :: (cs ++ t)).length - (rest ++ t).length)) newline (by
        simp only [List.length_cons, List.length_append]
        omega)
    refine ⟨pos', hpos', ?_⟩
    rw [List.cons_append, out_run hc hdot hfirst hplaced, runs_run hrun,
      hafter, hout]
    simp only [List.forall_mem_cons]
    by_cases hlong : TEXT ≤ a.text.length
    · rw [if_pos hlong, if_neg]
      exact fun hall => absurd hall.1 (Nat.not_lt.mpr hlong)
    · rw [if_neg hlong]
      by_cases hshort : ∀ b ∈ runs rest, b.text.length < TEXT
      · rw [if_pos hshort, if_pos ⟨Nat.lt_of_not_le hlong, hshort⟩,
          Option.map_map]
        rfl
      · rw [if_neg hshort, if_neg fun hall => hshort hall.2]
        rfl

theorem out_dot (hv : ∀ c ∈ v, Shown c) (hdot : '.' ∈ v) (ht : Stops t)
    (pos : Nat) (line newline : Int)
    (hplaced : pos + (v ++ t).length ≤ size + 1) {l : List LineAtom}
    (h : out size ⟨v ++ t, pos, line, newline⟩ = some l) :
    ∃ a ∈ l, a.1.type = .bit := by
  have hfirst : ∀ cs pos newline l,
      pos + ('.' :: (cs ++ t)).length ≤ size + 1 →
      out size ⟨'.' :: (cs ++ t), pos, line, newline⟩ = some l →
      ∃ a ∈ l, a.1.type = .bit := by
    intro cs pos newline l hplaced h
    have hr : Reader.Placed size ⟨'.' :: (cs ++ t), pos, line, newline⟩ :=
      hplaced
    rw [out_eq hr] at h
    obtain ⟨l', -, rfl⟩ := Option.map_eq_some_iff.mp h
    exact ⟨_, List.mem_cons_self, rfl⟩
  induction v using runs_induction generalizing pos newline l with
  | nil => cases hdot
  | blank c cs hbegins ih =>
    rw [List.cons_append] at h hplaced
    by_cases hcdot : c = '.'
    · subst hcdot
      exact hfirst cs pos newline l hplaced h
    rw [out_blank (hv c List.mem_cons_self) hcdot hbegins hplaced] at h
    rw [List.length_cons] at hplaced
    exact ih (fun d hd => hv d (List.mem_cons_of_mem c hd))
      (List.mem_of_ne_of_mem (fun h => hcdot h.symm) hdot) (pos + 1) 0
      (by omega) h
  | run c cs a rest hrun ih =>
    rw [List.cons_append] at h hplaced
    by_cases hcdot : c = '.'
    · subst hcdot
      exact hfirst cs pos newline l hplaced h
    have hsubset := @firstRun_subset c cs
    have hle := rest_length hrun
    have hstays := @firstRun_mem c cs '.'
      (List.mem_of_ne_of_mem (fun h => hcdot h.symm) hdot) (by decide)
      (by decide) (by decide)
    rw [hrun] at hsubset hstays
    have hruns : firstRun c (cs ++ t) = (some a, rest ++ t) := by
      rw [firstRun_append ht, hrun]
    rw [out_run (hv c List.mem_cons_self) hcdot hruns hplaced] at h
    split at h
    · cases h
    · obtain ⟨l', hl', rfl⟩ := Option.map_eq_some_iff.mp h
      have hlength : pos + (cs.length + t.length + 1) ≤ size + 1 := by
        simpa only [List.length_cons, List.length_append] using hplaced
      obtain ⟨b, hb, hbit⟩ := ih (fun d hd => hv d (hsubset hd)) hstays _
        newline (by
          simp only [List.length_cons, List.length_append]
          omega) hl'
      exact ⟨b, List.mem_cons_of_mem _ hb, hbit⟩

end Visible

end Coht.Mttn
