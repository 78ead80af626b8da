import Coht.XmemTables.Files

/-!
# The text of a table file (`libxmem.c`)

`TableText` is what the comments of the source say a table file is: entries and
lines that are ignored. The white space behind an entry belongs to it. Such a
file is read to its end and its entries are stored one behind the other
(`load_text`).

The loop also lets other files pass. `Passes` says which: `fscanf()` may have
converted everything although the text is no entry, and what it has converted
in part may be followed by a line that is ignored.
-/

namespace Coht.XmemTables

open Coht.Lib

section Grammar

variable {δ : Type} (F : TableFormat δ)

/-- White space between two parts of an entry. -/
def Blank (text : List Char) : Prop := ∀ c ∈ text, isSpace c

structure IsName (text : List Char) : Prop where
  nonempty : text ≠ []
  chars : ∀ c ∈ text, notSpace c ∧ c ≠ '\x00'

/-- The numbers of an entry, and what closes it. -/
inductive NumbersText : List U32 → List Char → Prop
  | close {blank : List Char} : Blank blank → NumbersText [] (blank ++ ['}'])
  | number {blank digits text : List Char} {v : U32} {vs : List U32} :
      Blank blank → blank ≠ [] → IsHex digits v → NumbersText vs text →
      NumbersText (v :: vs) (blank ++ '0' :: 'x' :: (digits ++ text))

inductive EntryText (e : δ) : List Char → Prop
  | mk {blank text : List Char} : Blank blank → IsName (F.name e) →
      NumbersText (F.id e :: F.others e) text →
      EntryText e ('{' :: (blank ++ (F.name e ++ text)))

/-- A file with the entries. -/
inductive TableText : List Char → List δ → Prop
  | last {line : List Char} : Ignored line → TableText line []
  | line {line t : List Char} {es : List δ} :
      Ignored line → TableText t es → TableText (line ++ '\n' :: t) es
  | entry {text t : List Char} {e : δ} {es : List δ} :
      EntryText F e text → TableText (t.dropWhile isSpace) es →
      TableText (text ++ t) (e :: es)

/-- The files that are read without a syntax error, from a table that has `n`
entries. -/
inductive Passes : Nat → List Char → Prop
  | full {n : Nat} {s : List Char} : tableSize ≤ n → Passes n s
  | filled {n : Nat} {s : List Char} :
      (scanf F.format s).1.length = F.conversions →
      Passes (n + 1) (scanf F.format s).2 → Passes n s
  | last {n : Nat} {s : List Char} :
      (scanf F.format s).1.length ≠ F.conversions →
      Ignored (scanf F.format s).2 → Passes n s
  | line {n : Nat} {s line t : List Char} :
      (scanf F.format s).1.length ≠ F.conversions →
      Ignored line → (scanf F.format s).2 = line ++ '\n' :: t → Passes n t →
      Passes n s

end Grammar

/-! ## What `fscanf()` reads -/

section Scanning

variable {δ : Type} {F : TableFormat δ} {e : δ} {vs : List U32}
  {s t text : List Char}

theorem scanf_close {blank : List Char} (hblank : Blank blank) :
    scanf (numbersFormat 0) ((blank ++ ['}']) ++ t) = ([], t.dropWhile isSpace) := by
  have hbrace : ∀ d ∈ ('}' :: t).head?, isSpace d = false := by
    intro d hd
    obtain rfl : '}' = d := Option.some.inj hd
    decide
  rw [List.append_assoc, List.singleton_append, numbersFormat,
    scanf_space hblank hbrace, scanf_char, scanf, scanf]

theorem NumbersText.head (h : NumbersText vs text) :
    ∀ d ∈ (text ++ t).head?, digitValue d = none := by
  have hspace : ∀ b, isSpace b → digitValue b = none := by
    intro b hb
    simp only [isSpace, decide_eq_true_eq] at hb
    rcases hb with rfl | rfl | rfl | rfl | rfl | rfl
    all_goals decide
  intro d hd
  cases h with
  | @close blank hblank =>
    cases blank with
    | nil =>
      obtain rfl : '}' = d := Option.some.inj hd
      decide
    | cons b blank =>
      obtain rfl : b = d := Option.some.inj hd
      exact hspace b (hblank b List.mem_cons_self)
  | @number blank _ _ _ _ hblank hne =>
    cases blank with
    | nil => exact absurd rfl hne
    | cons b blank =>
      obtain rfl : b = d := Option.some.inj hd
      exact hspace b (hblank b List.mem_cons_self)

theorem scanf_numbers (h : NumbersText vs text) :
    scanf (numbersFormat vs.length) (text ++ t) =
      (vs.map .number, t.dropWhile isSpace) := by
  induction h with
  | close hblank => exact scanf_close hblank
  | @number blank digits text v vs hblank _ hhex hrest ih =>
    have hzero : ∀ d ∈ ('0' :: 'x' :: (digits ++ (text ++ t))).head?,
        isSpace d = false := by
      intro d hd
      obtain rfl : '0' = d := Option.some.inj hd
      decide
    have hassoc : blank ++ '0' :: 'x' :: (digits ++ text) ++ t =
        blank ++ '0' :: 'x' :: (digits ++ (text ++ t)) := by simp
    rw [hassoc, List.length_cons, numbersFormat, scanf_space hblank hzero,
      scanf_char, scanf_char, scanf_hex hhex hrest.head, ih]
    rfl

theorem scanf_entry (h : EntryText F e text) :
    scanf F.format (text ++ t) =
      (.word (F.name e) :: (F.id e :: F.others e).map .number,
        t.dropWhile isSpace) := by
  cases h with
  | @mk blank text hblank hname hnumbers =>
    obtain ⟨hne, hchars⟩ := hname
    have hassoc : '{' :: (blank ++ (F.name e ++ text)) ++ t =
        '{' :: (blank ++ (F.name e ++ (text ++ t))) := by simp
    have hword : ∀ d ∈ (F.name e ++ (text ++ t)).head?, isSpace d = false := by
      intro d hd
      cases htext : F.name e with
      | nil => exact absurd htext hne
      | cons c rest =>
        rw [htext] at hd
        obtain rfl : c = d := Option.some.inj hd
        have hc := (hchars c (htext ▸ List.mem_cons_self)).1
        simpa [notSpace] using hc
    have hstop : ∀ d ∈ (text ++ t).head?, isSpace d := by
      intro d hd
      cases hnumbers with
      | @number blank _ _ _ _ hblank hne =>
        cases blank with
        | nil => exact absurd rfl hne
        | cons b blank =>
          obtain rfl : b = d := Option.some.inj hd
          exact hblank b List.mem_cons_self
    have hlength : (F.id e :: F.others e).length = F.setOthers.length + 1 := by
      rw [List.length_cons, F.others_length]
    rw [hassoc, TableFormat.format, scanf_char, scanf_space hblank hword,
      scanf_word hne (fun c hc => (hchars c hc).1) hstop, ← hlength,
      scanf_numbers hnumbers]

theorem scanf_other {c : Char} (hc : c ≠ '{') :
    scanf F.format (c :: t) = ([], c :: t) := by
  rw [TableFormat.format, scanf, if_neg hc]

theorem Ignored.head {line : List Char} (h : Ignored line) :
    ∀ d ∈ line.head?, d ≠ '{' := by
  intro d hd
  rcases h.kind with ⟨body, rfl⟩ | hblank
  · obtain rfl : '#' = d := Option.some.inj hd
    decide
  · have hspace := hblank d (List.mem_of_mem_head? hd)
    rintro rfl
    cases hspace

theorem scanf_shorter (h : (scanf F.format s).1.length = F.conversions) :
    (scanf F.format s).2.length < s.length := by
  rw [TableFormat.format] at h ⊢
  cases s with
  | nil => cases h
  | cons c t =>
    rw [scanf] at h ⊢
    split at h
    case isTrue hc =>
      rw [if_pos hc]
      exact Nat.lt_succ_of_le (scanf_length _ t)
    case isFalse => cases h

end Scanning

/-! ## A file is read -/

section Reading

variable {δ : Type} {F : TableFormat δ} {e : δ} {es : List δ} {l : Loading δ}
  {s : List Char}

def oneRound (F : TableFormat δ) (next : List Char → Loading δ → Bool × Loading δ)
    (s : List Char) (l : Loading δ) : Bool × Loading δ :=
  if l.count < tableSize then
    let r := scanf F.format s
    let l := l.store F r.1
    if r.1.length = F.conversions then next r.2 (l.enter F)
    else
      match r.2 with
      | [] => (true, l)
      | c :: t =>
        match skipLine c t with
        | some u => next u l
        | none => (false, l)
  else (true, l)

theorem oneRound_congr {next next' : List Char → Loading δ → Bool × Loading δ}
    (h : ∀ u l', u.length < s.length → next u l' = next' u l') :
    oneRound F next s l = oneRound F next' s l := by
  unfold oneRound
  split
  case isFalse => rfl
  case isTrue =>
    dsimp only
    split
    case isTrue hfilled => exact h _ _ (scanf_shorter hfilled)
    case isFalse =>
      have hle := scanf_length F.format s
      cases hrest : (scanf F.format s).2 with
      | nil => rfl
      | cons c t =>
        rw [hrest, List.length_cons] at hle
        dsimp only
        cases hskip : skipLine c t with
        | none => rfl
        | some u =>
          obtain ⟨line, hsplit, -⟩ := skipLine_iff.mp hskip
          have hu := hsplit.length_lt
          exact h _ _ (by omega)

theorem readLoop_fuel (F : TableFormat δ) {n m : Nat} (hn : s.length < n)
    (hm : s.length < m) : readLoop F n s l = readLoop F m s l := by
  induction n generalizing m s l with
  | zero => exact absurd hn (Nat.not_lt_zero _)
  | succ n ih =>
    cases m with
    | zero => exact absurd hm (Nat.not_lt_zero _)
    | succ m => exact oneRound_congr fun u l' hu => ih (by omega) (by omega)

theorem load_eq (F : TableFormat δ) (s : List Char) (l : Loading δ) :
    load F s l = oneRound F (load F) s l :=
  oneRound_congr fun _ _ hu => readLoop_fuel F hu (Nat.lt_succ_self _)

theorem load_full (hfull : ¬ l.count < tableSize) : load F s l = (true, l) := by
  rw [load_eq, oneRound, if_neg hfull]

def Loading.push (F : TableFormat δ) (l : Loading δ) (e : δ) : Loading δ :=
  { table :=
      { used := l.table.used ||| F.id e
        descriptors := Function.update l.table.descriptors l.count e }
    count := l.count + 1
    overflow := l.overflow || decide (F.nameSize ≤ (F.name e).length) }

theorem Loading.store_nil : l.store F [] = l := by
  unfold Loading.store
  simp [TableFormat.assign, TableFormat.overruns]

theorem cString_name {text : List Char} (h : IsName text) : cString text = text :=
  List.takeWhile_eq_self_iff.mpr fun c hc => decide_eq_true (h.chars c hc).2

theorem Loading.store_entry (hname : IsName (F.name e)) :
    (l.store F (.word (F.name e) :: (F.id e :: F.others e).map .number)).enter F =
      l.push F e := by
  have hassign : F.assign (.word (F.name e) :: (F.id e :: F.others e).map .number)
      (l.table.descriptors l.count) = e := by
    rw [TableFormat.assign, cString_name hname, F.set_all]
  unfold Loading.store Loading.enter Loading.push
  simp only [hassign, Function.update_self, TableFormat.overruns]

theorem load_entry {text t : List Char} (hfit : l.count < tableSize)
    (h : EntryText F e text) :
    load F (text ++ t) l = load F (t.dropWhile isSpace) (l.push F e) := by
  have hname : IsName (F.name e) := by
    cases h with
    | mk _ hname _ => exact hname
  have hall : (Converted.word (F.name e) ::
      (F.id e :: F.others e).map Converted.number).length = F.conversions := by
    rw [List.length_cons, List.length_map, List.length_cons, F.others_length]
    rfl
  rw [load_eq, oneRound, if_pos hfit, scanf_entry h]
  dsimp only
  rw [if_pos hall, Loading.store_entry hname]

theorem no_conversions : ([] : List Converted).length ≠ F.conversions := by
  unfold TableFormat.conversions
  rw [List.length_nil]
  omega

theorem load_nil : load F [] l = (true, l) := by
  by_cases hfit : l.count < tableSize
  · have hnone : scanf F.format [] = ([], []) := rfl
    rw [load_eq, oneRound, if_pos hfit, hnone]
    dsimp only
    rw [if_neg no_conversions, Loading.store_nil]
  · exact load_full hfit

theorem load_line {c : Char} {t line : List Char} (hline : Ignored line)
    (h : Splits (c :: s) line t) : load F (c :: s) l = load F t l := by
  by_cases hfit : l.count < tableSize
  · have hc : c ≠ '{' := by
      obtain ⟨-, heq | ⟨heq, -⟩⟩ := h
      · cases line with
        | nil =>
          obtain ⟨rfl, -⟩ := List.cons.inj heq
          decide
        | cons d line =>
          obtain ⟨rfl, -⟩ := List.cons.inj heq
          exact hline.head c rfl
      · exact hline.head c (heq ▸ rfl)
    rw [load_eq, oneRound, if_pos hfit, scanf_other hc]
    dsimp only
    rw [if_neg no_conversions, Loading.store_nil, skipLine_iff.mpr ⟨line, h, hline⟩]
  · rw [load_full hfit, load_full hfit]

theorem load_text (h : TableText F s es) (hfit : l.count + es.length ≤ tableSize) :
    load F s l = (true, es.foldl (Loading.push F) l) := by
  induction h generalizing l with
  | @last line hline =>
    cases line with
    | nil => exact load_nil
    | cons c line =>
      rw [load_line hline ⟨hline.oneLine, .inr ⟨rfl, rfl⟩⟩, load_nil]
      rfl
  | @line line t es hline _ ih =>
    cases hs : line ++ '\n' :: t with
    | nil => exact absurd hs (by simp)
    | cons c s => rw [load_line hline ⟨hline.oneLine, .inl hs.symm⟩, ih hfit]
  | @entry text t e es hentry _ ih =>
    rw [List.length_cons] at hfit
    have hpushed : (l.push F e).count + es.length ≤ tableSize := by
      show l.count + 1 + es.length ≤ tableSize
      omega
    rw [load_entry (by omega) hentry, ih hpushed]
    rfl

/-! ## The files that pass -/

theorem passes_nil {n : Nat} : Passes F n [] :=
  .last no_conversions ignored_nil

theorem passes_filled {n : Nat} (hfit : n < tableSize)
    (hfilled : (scanf F.format s).1.length = F.conversions) :
    Passes F n s ↔ Passes F (n + 1) (scanf F.format s).2 := by
  constructor
  · intro h
    cases h with
    | full hfull => exact absurd hfull (Nat.not_le.mpr hfit)
    | filled _ h => exact h
    | last hne => exact absurd hfilled hne
    | line hne => exact absurd hfilled hne
  · exact .filled hfilled

theorem passes_other {n : Nat} {c : Char} {t : List Char} (hfit : n < tableSize)
    (hother : (scanf F.format s).1.length ≠ F.conversions)
    (hrest : (scanf F.format s).2 = c :: t) :
    Passes F n s ↔ ∃ u, skipLine c t = some u ∧ Passes F n u := by
  constructor
  · intro h
    cases h with
    | full hfull => exact absurd hfull (Nat.not_le.mpr hfit)
    | filled hfilled => exact absurd hfilled hother
    | last _ hline =>
      rw [hrest] at hline
      exact ⟨[], skipLine_iff.mpr ⟨c :: t, ⟨hline.oneLine, .inr ⟨rfl, rfl⟩⟩, hline⟩,
        passes_nil⟩
    | @line _ _ line u _ hline hsplit h =>
      rw [hrest] at hsplit
      exact ⟨u, skipLine_iff.mpr ⟨line, ⟨hline.oneLine, .inl hsplit⟩, hline⟩, h⟩
  · rintro ⟨u, hskip, h⟩
    obtain ⟨line, ⟨-, hsplit | ⟨hsplit, -⟩⟩, hline⟩ := skipLine_iff.mp hskip
    · exact .line hother hline (hrest.trans hsplit) h
    · exact .last hother (hrest.trans hsplit ▸ hline)

theorem load_passes : (load F s l).1 = true ↔ Passes F l.count s := by
  induction hn : s.length using Nat.strong_induction_on generalizing s l with
  | h n ih =>
    subst hn
    by_cases hfit : l.count < tableSize
    · rw [load_eq, oneRound, if_pos hfit]
      dsimp only
      by_cases hfilled : (scanf F.format s).1.length = F.conversions
      · rw [if_pos hfilled, passes_filled hfit hfilled]
        exact ih _ (scanf_shorter hfilled) rfl
      · rw [if_neg hfilled]
        have hle := scanf_length F.format s
        cases hrest : (scanf F.format s).2 with
        | nil => exact ⟨fun _ => .last hfilled (hrest ▸ ignored_nil), fun _ => rfl⟩
        | cons c t =>
          rw [passes_other hfit hfilled hrest]
          rw [hrest, List.length_cons] at hle
          dsimp only
          cases hskip : skipLine c t with
          | none =>
            constructor
            · intro h
              cases h
            · rintro ⟨u, h, -⟩
              cases h
          | some u =>
            obtain ⟨line, hsplit, -⟩ := skipLine_iff.mp hskip
            have hu := hsplit.length_lt
            have hlt : u.length < s.length := by omega
            simp only [Option.some.injEq, exists_eq_left']
            exact ih _ hlt rfl
    · rw [load_full hfit]
      exact ⟨fun _ => .full (Nat.not_lt.mp hfit), fun _ => rfl⟩

end Reading

end Coht.XmemTables
