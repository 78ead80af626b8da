import Coht.Mttn.AtomRuns

/-!
# Which source texts are chopped up right (`asm.c`)

Behind the first mark of a line there are comments only, each up to the next
mark. Those that are closed add `newline` to the line number, and the last one
takes the newline of the line along. A line is then right by itself, and so is
the text behind it: `line_iff` is that step, and `clearLines_iff` the
induction over the lines.
-/

namespace Coht.Mttn

open Coht.Lib

/-! ## Behind the first mark of a line -/

section Hidden

variable {size : Nat} {h y : List Char}

theorem inComment_eq {c : Char} (hc : c ≠ '\n') : inComment c = !isMark c := by
  unfold inComment isMark
  by_cases hmark : atomhash c = .comment <;> simp [hmark, hc]

theorem not_inComment {c : Char} (hc : isMark c = true ∨ c = '\n') :
    inComment c = false := by
  unfold inComment
  rcases hc with hc | hc
  · have hmark : atomhash c = .comment := of_decide_eq_true hc
    simp [hmark]
  · simp [hc]

theorem scanComment_eq {seg u : List Char} (hseg : ∀ c ∈ seg, inComment c = true)
    (hu : ∀ d ∈ u.head?, inComment d = false) :
    scanComment (seg ++ u) =
      if TEXT ≤ seg.length then .overflow
      else match u with
        | [] => .atom { text := seg } []
        | d :: u =>
          if d = '\n' then .atom { text := seg } u
          else .atom { type := .comment, text := seg } (d :: u) := by
  have htake : (seg ++ u).takeWhile inComment = seg := by
    rw [takeWhile_append_stop hu, List.takeWhile_eq_self_iff.mpr hseg]
  have hdrop : (seg ++ u).dropWhile inComment = u := by
    rw [dropWhile_append_stop hu, List.dropWhile_eq_nil_iff.mpr hseg]
    rfl
  unfold scanComment
  rw [htake, hdrop]
  cases u <;> rfl

theorem endsComment {d : Char} (hd : isMark d = true ∨ d = '\n')
    (u : List Char) : ∀ e ∈ (d :: u).head?, isMark e = true ∨ e = '\n' := by
  intro e he
  rw [← Option.some.inj he]
  exact hd

theorem out_mark {m : Char} {seg u : List Char} (hm : isMark m = true)
    (hseg : ∀ c ∈ seg, isMark c = false ∧ c ≠ '\n')
    (hu : ∀ d ∈ u.head?, isMark d = true ∨ d = '\n') {pos : Nat}
    {line newline : Int}
    (hplaced : pos + (m :: (seg ++ u)).length ≤ size + 1) :
    out size ⟨m :: (seg ++ u), pos, line, newline⟩ =
      if TEXT ≤ seg.length then none
      else match u with
        | [] => (out size ⟨[], pos + seg.length, line + 1, 1⟩).map
            (({}, line) :: ·)
        | d :: u =>
          if d = '\n' then
            (out size ⟨u, pos + seg.length, line + 1, 1⟩).map
              (({}, line) :: ·)
          else
            out size ⟨d :: u, pos + seg.length, line + newline, newline⟩ := by
  have hr : Reader.Placed size ⟨m :: (seg ++ u), pos, line, newline⟩ :=
    hplaced
  have hne : m ≠ '\n' := by
    rintro rfl
    cases hm
  have hhead : (m :: (seg ++ u)).head? ≠ some '\n' := fun h =>
    hne (Option.some.inj h)
  have hclass : atomhash m = .comment := of_decide_eq_true hm
  rw [out_eq hr]
  dsimp only
  rw [scan, hclass]
  dsimp only
  rw [scanComment_eq
    (fun c hc => by rw [inComment_eq (hseg c hc).2, (hseg c hc).1]; rfl)
    (fun d hd => not_inComment (hu d hd))]
  by_cases hlong : TEXT ≤ seg.length
  · rw [if_pos hlong, if_pos hlong]
  · rw [if_neg hlong, if_neg hlong]
    have htake : ∀ rest, Reader.take ⟨m :: (seg ++ u), pos, line, newline⟩
        { text := seg } rest = ⟨rest, pos + seg.length, line + 1, 1⟩ := by
      intro rest
      rw [Reader.take, if_pos rfl]
      dsimp only
      rw [if_neg hhead]
    cases u with
    | nil =>
      dsimp only
      rw [htake]
      rfl
    | cons d u =>
      dsimp only
      by_cases hd : d = '\n'
      · rw [if_pos hd, if_pos hd]
        dsimp only
        rw [htake]
        rfl
      · rw [if_neg hd, if_neg hd]
        exact Option.map_id'

theorem visible_append_hidden (s : List Char) : visible s ++ hidden s = s :=
  List.takeWhile_append_dropWhile

theorem not_isMark_visible {s : List Char} {c : Char} (hc : c ∈ visible s) :
    isMark c = false := by
  have := List.mem_takeWhile_imp hc
  simpa using this

theorem isMark_hidden {s s' : List Char} {d : Char} (hd : hidden s = d :: s') :
    isMark d = true := by
  have hhead := List.head?_dropWhile_not (fun c => !isMark c) s
  rw [show s.dropWhile (fun c => !isMark c) = d :: s' from hd] at hhead
  simpa using hhead

def Narrow (s : List Char) : Prop :=
  ∀ part ∈ s.splitOnP isMark, part.length < TEXT

instance (s : List Char) : Decidable (Narrow s) :=
  inferInstanceAs (Decidable (∀ part ∈ _, _))

theorem narrow_seg {seg : List Char} (hseg : ∀ c ∈ seg, isMark c = false) :
    Narrow seg ↔ seg.length < TEXT := by
  unfold Narrow
  rw [List.splitOnP_eq_singleton hseg, List.forall_mem_singleton]

theorem narrow_append {seg s : List Char} {m : Char}
    (hseg : ∀ c ∈ seg, isMark c = false) (hm : isMark m = true) :
    Narrow (seg ++ m :: s) ↔ seg.length < TEXT ∧ Narrow s := by
  unfold Narrow
  rw [List.splitOnP_append_cons_of_forall_mem hseg m hm,
    List.forall_mem_cons]

theorem countP_seg {seg : List Char} (hseg : ∀ c ∈ seg, isMark c = false) :
    seg.countP isMark = 0 :=
  List.countP_eq_zero.mpr fun c hc => by rw [hseg c hc]; exact Bool.false_ne_true

theorem out_hidden {m : Char} {s : List Char} (hm : isMark m = true)
    (hs : ∀ c ∈ s, c ≠ '\n') (pos : Nat) (line newline : Int)
    (hplaced : pos + (m :: (s ++ '\n' :: y)).length ≤ size + 1) :
    ∃ pos', pos' + y.length ≤ size + 1 ∧
      out size ⟨m :: (s ++ '\n' :: y), pos, line, newline⟩ =
        if Narrow s then
          (out size ⟨y, pos', line + s.countP isMark * newline + 1, 1⟩).map
            (({}, line + s.countP isMark * newline) :: ·)
        else none := by
  induction s using segments_induction isMark generalizing m pos line with
  | last seg hseg =>
    have hround : out size ⟨m :: (seg ++ '\n' :: y), pos, line, newline⟩ =
        _ := out_mark hm (fun c hc => ⟨hseg c hc, hs c hc⟩)
      (endsComment (.inr rfl) y) hplaced
    simp only [List.length_cons, List.length_append] at hplaced
    refine ⟨pos + seg.length, by omega, ?_⟩
    rw [hround]
    dsimp only
    rw [if_pos rfl, countP_seg hseg]
    simp only [narrow_seg hseg, Int.natCast_zero, Int.zero_mul, Int.add_zero]
    by_cases hlong : TEXT ≤ seg.length
    · rw [if_pos hlong, if_neg (Nat.not_lt.mpr hlong)]
    · rw [if_neg hlong, if_pos (Nat.lt_of_not_le hlong)]
  | cons seg d s hseg hd ih =>
    rw [List.append_assoc, List.cons_append] at hplaced ⊢
    have hround : out size
        ⟨m :: (seg ++ d :: (s ++ '\n' :: y)), pos, line, newline⟩ =
        _ := out_mark hm (fun c hc => ⟨hseg c hc, hs c (by simp [hc])⟩)
      (endsComment (.inl hd) _) hplaced
    simp only [List.length_cons, List.length_append] at hplaced
    have hdne : d ≠ '\n' := hs d (by simp)
    obtain ⟨pos', hpos', hout⟩ := ih hd (fun c hc => hs c (by simp [hc]))
      (pos + seg.length) (line + newline) (by
        simp only [List.length_cons, List.length_append]
        omega)
    refine ⟨pos', hpos', ?_⟩
    have hcount : ((seg ++ d :: s).countP isMark : Int) =
        s.countP isMark + 1 := by
      rw [List.countP_append, countP_seg hseg, List.countP_cons_of_pos hd]
      simp
    have hline : line + ((seg ++ d :: s).countP isMark : Int) * newline =
        line + newline + s.countP isMark * newline := by
      rw [hcount, Int.add_mul, Int.one_mul]
      omega
    rw [hround]
    dsimp only
    rw [if_neg hdne, hout, hline]
    simp only [narrow_append hseg hd]
    by_cases hlong : TEXT ≤ seg.length
    · rw [if_pos hlong, if_neg fun h => absurd h.1 (Nat.not_lt.mpr hlong)]
    · rw [if_neg hlong]
      by_cases hnarrow : Narrow s
      · rw [if_pos hnarrow, if_pos ⟨Nat.lt_of_not_le hlong, hnarrow⟩]
      · rw [if_neg hnarrow, if_neg fun h => hnarrow h.2]

theorem out_unclosed {m : Char} {s : List Char} (hm : isMark m = true)
    (hs : ∀ c ∈ s, c ≠ '\n') (pos : Nat) (line newline : Int)
    (hplaced : pos + (m :: s).length ≤ size + 1) {l : List LineAtom}
    (h : out size ⟨m :: s, pos, line, newline⟩ = some l) :
    ∃ a ∈ l, a.1.type = .seperator := by
  induction s using segments_induction isMark generalizing m pos line l with
  | last seg hseg =>
    have hround : out size ⟨m :: (seg ++ []), pos, line, newline⟩ = _ :=
      out_mark hm (fun c hc => ⟨hseg c hc, hs c hc⟩)
        (fun d hd => by cases hd) (by rwa [List.append_nil])
    rw [List.append_nil, h] at hround
    dsimp only at hround
    split at hround
    · cases hround
    · obtain ⟨l', -, rfl⟩ := Option.map_eq_some_iff.mp hround.symm
      exact ⟨_, List.mem_cons_self, rfl⟩
  | cons seg d s hseg hd ih =>
    have hdne : d ≠ '\n' := hs d (by simp)
    rw [out_mark hm (fun c hc => ⟨hseg c hc, hs c (by simp [hc])⟩)
      (endsComment (.inl hd) s) hplaced] at h
    simp only [List.length_append, List.length_cons] at hplaced
    split at h
    · cases h
    · dsimp only at h
      rw [if_neg hdne] at h
      exact ih hd (fun c hc => hs c (by simp [hc])) (pos + seg.length)
        (line + newline) (by rw [List.length_cons]; omega) h

end Hidden

/-! ## Lines -/

section Lines

variable {size : Nat}

theorem newline_round (y : List Char) (pos : Nat) (line newline : Int)
    (hplaced : pos + ('\n' :: y).length ≤ size + 1) :
    out size ⟨'\n' :: y, pos, line, newline⟩ =
      (out size ⟨y, 0, line + 1, 1⟩).map (({}, line) :: ·) := by
  have hr : Reader.Placed size ⟨'\n' :: y, pos, line, newline⟩ := hplaced
  rw [out_eq hr]
  rfl

theorem out_lineEnd {h : List Char}
    (hmark : ∀ m s, h = m :: s → isMark m = true)
    (hs : ∀ c ∈ h, c ≠ '\n') (y : List Char) (pos : Nat) (line newline : Int)
    (hplaced : pos + (h ++ '\n' :: y).length ≤ size + 1) :
    ∃ (k : Int) (pos' : Nat), pos' + y.length ≤ size + 1 ∧
      (k = 0 ↔ h.countP isMark ≤ 1 ∨ newline = 0) ∧
      out size ⟨h ++ '\n' :: y, pos, line, newline⟩ =
        if Narrow h then
          (out size ⟨y, pos', line + k + 1, 1⟩).map (({}, line + k) :: ·)
        else none := by
  cases h with
  | nil =>
    refine ⟨0, 0, ?_, by simp, ?_⟩
    · simp only [List.nil_append, List.length_cons] at hplaced
      omega
    · rw [if_pos, List.nil_append, newline_round y pos line newline hplaced,
        Int.add_zero]
      rw [narrow_seg (fun _ hc => by cases hc)]
      decide
  | cons m s =>
    have hm := hmark m s rfl
    obtain ⟨pos', hpos', hout⟩ := out_hidden hm
      (fun c hc => hs c (List.mem_cons_of_mem m hc)) pos line newline hplaced
    refine ⟨s.countP isMark * newline, pos', hpos', ?_, ?_⟩
    · rw [List.countP_cons_of_pos hm, Int.mul_eq_zero]
      omega
    · have hnarrow : Narrow (m :: s) ↔ Narrow s := by
        rw [← List.nil_append (m :: s),
          narrow_append (fun _ hc => by cases hc) hm]
        exact and_iff_right (by decide)
      rw [List.cons_append, hout]
      simp only [hnarrow]

theorem outsideComments_append {v : List Char}
    (hv : ∀ c ∈ v, isMark c = false) (h : List Char) :
    outsideComments false (v ++ h) = v ++ outsideComments false h := by
  induction v with
  | nil => rfl
  | cons c v ih =>
    have hc : c ≠ '%' := by
      rintro rfl
      exact absurd (hv _ List.mem_cons_self) (by decide)
    rw [List.cons_append, outsideComments, if_neg hc,
      ih fun d hd => hv d (List.mem_cons_of_mem c hd)]
    rfl

theorem stops_outsideComments {h : List Char}
    (hmark : ∀ m s, h = m :: s → isMark m = true) :
    Stops (outsideComments false h) := by
  intro d hd
  cases h with
  | nil => cases hd
  | cons m s =>
    have hm := hmark m s rfl
    rw [outsideComments] at hd
    split at hd
    · rw [← Option.some.inj hd]
      exact .inl (by decide)
    · rw [← Option.some.inj hd]
      exact .inr (of_decide_eq_true hm)

theorem runs_outsideComments (line : List Char) :
    runs (outsideComments false line) =
      runs (visible line) ++ runs (outsideComments false (hidden line)) := by
  have happend := outsideComments_append
    (fun c (hc : c ∈ visible line) => not_isMark_visible hc) (hidden line)
  rw [visible_append_hidden] at happend
  rw [happend, runs_append (stops_outsideComments fun m s hs =>
    isMark_hidden hs)]

theorem newlineAfter_eq_zero {v : List Char} {newline : Int} :
    newlineAfter v newline = 0 ↔
      newline = 0 ∨ ∃ c ∈ v, atomhash c = .seperator := by
  rw [← any_seperator]
  unfold newlineAfter
  split
  · rename_i hsep
    exact ⟨fun _ => .inr hsep, fun _ => rfl⟩
  · rename_i hsep
    exact ⟨.inl, fun h => h.resolve_right hsep⟩

theorem cons_seperator_inj {A : List Atom} {n n' : Int} {L W : List LineAtom}
    (hA : ∀ a ∈ A, a.IsRun) :
    ({}, n') :: L = A.map (·, n) ++ ({}, n) :: W ↔
      A = [] ∧ n' = n ∧ L = W := by
  cases A with
  | nil =>
    rw [List.map_nil, List.nil_append, List.cons.injEq, Prod.mk.injEq]
    simp
  | cons a A =>
    refine ⟨fun h => ?_, fun h => by cases h.1⟩
    rw [List.map_cons, List.cons_append] at h
    have ha := congrArg Prod.fst (List.cons.inj h).1
    exact absurd (congrArg Atom.type ha).symm
      (hA a List.mem_cons_self).1

theorem shown_visible {line : List Char} (hlegal : ∀ c ∈ line, Legal c)
    (hline : ∀ c ∈ line, c ≠ '\n') : ∀ c ∈ visible line, Shown c := by
  intro c hc
  have hmem : c ∈ line := (List.takeWhile_prefix _).mem hc
  exact ⟨hlegal c hmem, not_isMark_visible hc, hline c hmem⟩

theorem stops_hidden (line : List Char) {t : List Char} (ht : Stops t) :
    Stops (hidden line ++ t) := by
  cases h : hidden line with
  | nil => exact ht
  | cons m s =>
    intro d hd
    rw [← Option.some.inj hd]
    exact .inr (of_decide_eq_true (isMark_hidden h))

theorem lineAtoms_noBit {line : List Char} {n : Int} {a : LineAtom}
    (ha : a ∈ (runs line).map (·, n)) : a.1.type ≠ .bit := by
  obtain ⟨b, hb, rfl⟩ := List.mem_map.mp ha
  exact (runs_isRun hb).2.2

theorem line_iff {line y : List Char} (hlegal : ∀ c ∈ line, Legal c)
    (hline : ∀ c ∈ line, c ≠ '\n') {pos : Nat} {n newline : Int}
    {W : List LineAtom} (hW : ∀ a ∈ W, a.1.type ≠ .bit)
    (hplaced : pos + (line ++ '\n' :: y).length ≤ size + 1) :
    ∃ pos', pos' + y.length ≤ size + 1 ∧
      (out size ⟨line ++ '\n' :: y, pos, n, newline⟩ =
          some ((runs (outsideComments false line)).map (·, n) ++
            ({}, n) :: W) ↔
        LineClear line ∧ CountsRight newline line ∧
          out size ⟨y, pos', n + 1, 1⟩ = some W) := by
  have hv := shown_visible hlegal hline
  have ht : Stops (hidden line ++ '\n' :: y) :=
    stops_hidden line fun d hd => .inl ((Option.some.inj hd) ▸ by decide)
  have hsplit : line ++ '\n' :: y =
      visible line ++ (hidden line ++ '\n' :: y) := by
    rw [← List.append_assoc, visible_append_hidden]
  rw [hsplit] at hplaced ⊢
  rw [runs_outsideComments]
  by_cases hdot : '.' ∈ visible line
  · have hlength := hplaced
    simp only [List.length_append, List.length_cons] at hlength
    refine ⟨0, by omega, fun h => ?_, fun h => absurd hdot h.1.noStop⟩
    obtain ⟨a, ha, hbit⟩ := out_dot hv hdot ht pos n newline hplaced h
    rcases List.mem_append.mp ha with ha | ha
    · exact absurd hbit (lineAtoms_noBit (by rwa [← runs_outsideComments] at ha))
    · rcases List.mem_cons.mp ha with rfl | ha
      · cases hbit
      · exact absurd hbit (hW a ha)
  obtain ⟨pos₁, hpos₁, hvisible⟩ :=
    out_visible hv hdot ht pos n newline hplaced
  obtain ⟨k, pos₂, hpos₂, hk, hend⟩ := out_lineEnd
    (fun m s hs => isMark_hidden hs)
    (fun c hc => hline c ((List.dropWhile_suffix _).mem hc)) y pos₁ n
    (newlineAfter (visible line) newline) hpos₁
  refine ⟨pos₂, hpos₂, ?_⟩
  have hcounts : k = 0 ↔ CountsRight newline line := by
    rw [hk, newlineAfter_eq_zero]
    rfl
  rw [hvisible, hend]
  constructor
  · intro h
    split at h
    · rename_i hshort
      split at h
      · rename_i hnarrow
        rw [Option.map_map] at h
        obtain ⟨L, hL, heq⟩ := Option.map_eq_some_iff.mp h
        rw [Function.comp, List.map_append, List.append_assoc,
          List.append_cancel_left_eq,
          cons_seperator_inj fun a ha => runs_isRun ha] at heq
        obtain ⟨hcovered, hn, rfl⟩ := heq
        have hk0 : k = 0 := by omega
        rw [hk0, Int.add_zero] at hL
        exact ⟨⟨hdot, hshort, hnarrow, runs_eq_nil.mp hcovered⟩,
          hcounts.mp hk0, hL⟩
      · cases h
    · cases h
  · rintro ⟨hclear, hcounted, hrest⟩
    have hk0 := hcounts.mpr hcounted
    have hnarrow : Narrow (hidden line) := hclear.narrow
    rw [if_pos hclear.short, if_pos hnarrow, hk0, Int.add_zero, hrest,
      runs_eq_nil.mpr hclear.covered, List.append_nil]
    rfl

theorem lastLine_iff {line : List Char} (hlegal : ∀ c ∈ line, Legal c)
    (hline : ∀ c ∈ line, c ≠ '\n') {pos : Nat} {n newline : Int}
    (hplaced : pos + line.length ≤ size + 1) :
    out size ⟨line, pos, n, newline⟩ =
        some ((runs (outsideComments false line)).map (·, n)) ↔
      LineClear line ∧ hidden line = [] := by
  have hv := shown_visible hlegal hline
  have ht : Stops (hidden line) := by
    have hnil : Stops [] := fun _ hd => by cases hd
    have hstops := stops_hidden line hnil
    rwa [List.append_nil] at hstops
  have hsplit := visible_append_hidden line
  rw [runs_outsideComments]
  rw [← hsplit] at hplaced
  have hout : out size ⟨line, pos, n, newline⟩ =
      out size ⟨visible line ++ hidden line, pos, n, newline⟩ := by
    rw [hsplit]
  rw [hout]
  by_cases hdot : '.' ∈ visible line
  · refine ⟨fun h => ?_, fun h => absurd hdot h.1.noStop⟩
    obtain ⟨a, ha, hbit⟩ := out_dot hv hdot ht pos n newline hplaced h
    exact absurd hbit (lineAtoms_noBit (by rwa [← runs_outsideComments] at ha))
  obtain ⟨pos₁, hpos₁, hvisible⟩ :=
    out_visible hv hdot ht pos n newline hplaced
  rw [hvisible]
  cases hhidden : hidden line with
  | nil =>
    have hend : out size ⟨[], pos₁, n,
        newlineAfter (visible line) newline⟩ = some [] := by
      rw [hhidden] at hpos₁
      have hr : Reader.Placed size
          ⟨[], pos₁, n, newlineAfter (visible line) newline⟩ := hpos₁
      rw [out_eq hr]
      rfl
    rw [hend]
    constructor
    · intro h
      split at h
      · rename_i hshort
        refine ⟨⟨hdot, hshort, ?_, ?_⟩, rfl⟩
        · rw [hhidden]
          exact (narrow_seg fun _ hc => by cases hc).mpr (by decide)
        · rw [hhidden]
          exact fun _ hc => by cases hc
      · cases h
    · intro h
      rw [if_pos h.1.short]
      simp [outsideComments, runs, runsLoop]
  | cons m s =>
    refine ⟨fun h => ?_, fun h => by cases h.2⟩
    split at h
    · obtain ⟨L, hL, heq⟩ := Option.map_eq_some_iff.mp h
      rw [hhidden] at hpos₁
      obtain ⟨a, ha, hsep⟩ := out_unclosed (isMark_hidden hhidden)
        (fun c hc => hline c ((List.dropWhile_suffix _).mem
          (by rw [show line.dropWhile _ = _ from hhidden]
              exact List.mem_cons_of_mem m hc))) pos₁ n _ hpos₁ hL
      have hmem : a ∈ (runs (visible line) ++
          runs (outsideComments false (m :: s))).map (·, n) := by
        rw [← heq]
        exact List.mem_append_right _ ha
      obtain ⟨b, hb, rfl⟩ := List.mem_map.mp hmem
      rcases List.mem_append.mp hb with hb | hb
      · exact absurd hsep (runs_isRun hb).1
      · exact absurd hsep (runs_isRun hb).1
    · cases h

theorem wantedLines_noBit (lines : List (List Char)) (n : Int) :
    ∀ a ∈ wantedLines n lines, a.1.type ≠ .bit := by
  induction lines generalizing n with
  | nil => exact fun a ha => by cases ha
  | cons line rest ih =>
    intro a ha
    cases rest with
    | nil => exact lineAtoms_noBit ha
    | cons line' rest =>
      rw [wantedLines] at ha
      rcases List.mem_append.mp ha with ha | ha
      · exact lineAtoms_noBit ha
      · rcases List.mem_cons.mp ha with rfl | ha
        · exact nofun
        · exact ih (n + 1) a ha
      · exact List.cons_ne_nil _ _

theorem clearLines_iff {text : List Char} (hlegal : ∀ c ∈ text, Legal c)
    {pos : Nat} {n newline : Int} (hplaced : pos + text.length ≤ size + 1) :
    out size ⟨text, pos, n, newline⟩ =
        some (wantedLines n (text.splitOn '\n')) ↔
      ClearLines newline (text.splitOn '\n') := by
  induction text using segments_induction (· == '\n')
    generalizing pos n newline with
  | last line hline =>
    rw [List.splitOn_eq_splitOnP, List.splitOnP_eq_singleton hline]
    exact lastLine_iff hlegal (fun c hc => ne_of_beq_false (hline c hc))
      hplaced
  | cons line d y hline hd ih =>
    have hnewline : d = '\n' := eq_of_beq hd
    subst hnewline
    rw [List.splitOn_eq_splitOnP,
      List.splitOnP_append_cons_of_forall_mem hline '\n' rfl,
      ← List.splitOn_eq_splitOnP]
    have hlegal' : ∀ c ∈ y, Legal c := fun c hc =>
      hlegal c (List.mem_append_right _ (List.mem_cons_of_mem _ hc))
    obtain ⟨pos', hpos', hiff⟩ := @line_iff size line y
      (fun c hc => hlegal c (List.mem_append_left _ hc))
      (fun c hc => ne_of_beq_false (hline c hc)) pos n
      newline _ (wantedLines_noBit (y.splitOn '\n') (n + 1)) hplaced
    rw [@ih hlegal' pos' (n + 1) 1 hpos'] at hiff
    obtain ⟨next, lines, hlines⟩ := List.exists_cons_of_ne_nil
      (List.splitOn_ne_nil '\n' y)
    rw [hlines] at hiff ⊢
    exact hiff

end Lines

/-- For a text that fits the size of its file, the atoms are right exactly
where every line is clear. -/
theorem atoms_iff (size : Nat) (newline : Int) (text : List Char)
    (hsize : text.length ≤ size) (hlegal : ∀ c ∈ text, Legal c) :
    AtomsRight size newline text ↔
      ClearLines newline (text.splitOn '\n') := by
  have hplaced : 1 + text.length ≤ size + 1 := by omega
  rw [← clearLines_iff hlegal hplaced (n := 1)]
  change _ ↔ _ = some (wanted text)
  by_cases hhead : text.head? = some '.'
  · have hnone : getLineAtoms size newline text = none := if_pos hhead
    obtain ⟨cs, rfl⟩ := List.head?_eq_some_iff.mp hhead
    constructor
    · rintro ⟨atoms, illegal, hget, -⟩
      rw [hnone] at hget
      cases hget
    · intro h
      have hr : Reader.Placed size ⟨'.' :: cs, 1, 1, newline⟩ := hplaced
      rw [out_eq hr] at h
      obtain ⟨l, -, heq⟩ := Option.map_eq_some_iff.mp h
      refine absurd rfl (wantedLines_noBit (('.' :: cs).splitOn '\n') 1
        (plain ({ type := .bit }, 1)) ?_)
      change _ ∈ wanted ('.' :: cs)
      rw [← heq]
      exact List.mem_cons_self
  · have hget : getLineAtoms size newline text =
        getLinesLoop size (text.length + 1) ⟨text, 1, 1, newline⟩ :=
      if_neg hhead
    unfold AtomsRight out
    rw [hget, Option.map_eq_some_iff]
    constructor
    · rintro ⟨atoms, illegal, hloop, hcounted⟩
      exact ⟨(atoms, illegal), hloop, hcounted⟩
    · rintro ⟨⟨atoms, illegal⟩, hloop, hcounted⟩
      exact ⟨atoms, illegal, hloop, hcounted⟩

/-- A name and a closed comment with nothing behind it. -/
def commentedSource : List Char := ['a', ' ', '%', 'b', '%', '\n']

theorem atoms_iff_commentedSource : AtomsRight 6 5 commentedSource := by
  have hlegal : (commentedSource.all fun c => decide (Legal c)) = true := by
    decide
  have hcovered : ((outsideComments false ['%', 'b', '%']).all fun c =>
      !beginsRun c) = true := by decide
  have hlines : commentedSource.splitOn '\n' =
      [['a', ' ', '%', 'b', '%'], []] := by decide
  refine (atoms_iff 6 5 commentedSource (by decide) fun c hc =>
    of_decide_eq_true (List.all_eq_true.mp hlegal c hc)).mpr ?_
  rw [hlines]
  refine ⟨⟨by decide, by decide +kernel, by decide, fun c hc => ?_⟩, ?_, ?_⟩
  · simpa using List.all_eq_true.mp hcovered c hc
  · exact .inr (.inr ⟨' ', by decide, by decide⟩)
  · exact ⟨⟨by decide, by decide, by decide, fun c hc => by cases hc⟩, rfl⟩

/-- An instruction behind a closed comment is lost. -/
theorem not_atomsRight : ¬ AtomsRight 11 0 "% a % NOOP\n".toList := by
  rintro ⟨atoms, illegal, hget, hcounted⟩
  have hout : (getLineAtoms 11 0 "% a % NOOP\n".toList).map
      (fun x => countedAtoms x.1) = some [({}, 1)] := by decide +kernel
  have hwanted : (wanted "% a % NOOP\n".toList).length = 2 := by
    decide +kernel
  rw [hget] at hout
  have hone : countedAtoms atoms = [({}, 1)] := Option.some.inj hout
  rw [← hcounted, hone] at hwanted
  cases hwanted

end Coht.Mttn
