import Mathlib.Data.Nat.Digits.Lemmas

/-!
# Numbers as C reads and prints them

`hexText` is what `"%X"` prints, `strtoul` the function of the C library with
base 0: white space and a sign are skipped, `0x` makes the number hexadecimal
and a leading `0` octal, and the text after the last digit is returned. A text
with no digits reads as zero and nothing of it is consumed. An `unsigned long`
has 32 bits, and a number that does not fit reads as the largest one.

`strtoul_hex` is the round trip, for a number that is followed by any
character that is no digit, and `strtoul_append` says where any number ends.
`numeral` is the number before it is cut to a word, and `strtol` the function
with a sign, whose `long` has 32 bits too.
-/

namespace Coht.Lib

def isSpace (c : Char) : Bool :=
  c = ' ' ∨ c = '\t' ∨ c = '\n' ∨ c = '\x0b' ∨ c = '\x0c' ∨ c = '\x0d'

def digitValue (c : Char) : Option Nat :=
  if '0' ≤ c ∧ c ≤ '9' then some (c.toNat - 48)
  else if 'a' ≤ c ∧ c ≤ 'z' then some (c.toNat - 87)
  else if 'A' ≤ c ∧ c ≤ 'Z' then some (c.toNat - 55)
  else none

def digitIn (base : Nat) (c : Char) : Option Nat :=
  (digitValue c).filter (· < base)

/-- The digits a text begins with, after those that make up `v`. -/
def takeDigits (base : Nat) : Nat → List Char → Nat × List Char
  | v, [] => (v, [])
  | v, c :: cs =>
    match digitIn base c with
    | some d => takeDigits base (v * base + d) cs
    | none => (v, c :: cs)

/-- The sign of a number and what follows it. -/
def takeSign : List Char → Bool × List Char
  | '-' :: t => (true, t)
  | '+' :: t => (false, t)
  | t => (false, t)

/-- The base a number announces and its digits. -/
def takeBase : List Char → Nat × List Char
  | '0' :: x :: d :: t =>
    if (x = 'x' ∨ x = 'X') ∧ (digitIn 16 d).isSome then (16, d :: t)
    else (8, '0' :: x :: d :: t)
  | '0' :: t => (8, '0' :: t)
  | t => (10, t)

def strtoul (s : List Char) : BitVec 32 × List Char :=
  let signed := takeSign (s.dropWhile isSpace)
  let based := takeBase signed.2
  if (based.2.head?.bind (digitIn based.1)).isSome then
    let digits := takeDigits based.1 0 based.2
    (if 2 ^ 32 ≤ digits.1 then BitVec.allOnes 32
      else if signed.1 then -BitVec.ofNat 32 digits.1
      else BitVec.ofNat 32 digits.1, digits.2)
  else (0, s)

def hexDigit (d : Nat) : Char :=
  "0123456789ABCDEF".toList.getD d '0'

/-- What `"%X"` prints. -/
def hexText (n : Nat) : List Char :=
  if n = 0 then ['0'] else ((Nat.digits 16 n).map hexDigit).reverse

section RoundTrip

variable {n d : Nat} {c : Char} {t : List Char}

theorem digitIn_hexDigit (hd : d < 16) : digitIn 16 (hexDigit d) = some d := by
  have hall : ∀ d < 16, digitIn 16 (hexDigit d) = some d := by decide
  exact hall d hd

theorem takeDigits_map {ds : List Nat} (hds : ∀ d ∈ ds, d < 16)
    (hc : digitIn 16 c = none) (v : Nat) :
    takeDigits 16 v (ds.map hexDigit ++ c :: t) =
      (ds.foldl (fun v d => v * 16 + d) v, c :: t) := by
  induction ds generalizing v with
  | nil =>
    show takeDigits 16 v (c :: t) = _
    rw [takeDigits, hc]
    rfl
  | cons d ds ih =>
    have hd := hds d List.mem_cons_self
    show takeDigits 16 v (hexDigit d :: (ds.map hexDigit ++ c :: t)) = _
    rw [takeDigits, digitIn_hexDigit hd]
    exact ih (fun d' h => hds d' (List.mem_cons_of_mem _ h)) _

/-- A number from its digits, the most significant first. -/
theorem foldl_digits (n : Nat) :
    (Nat.digits 16 n).reverse.foldl (fun v d => v * 16 + d) 0 = n := by
  rw [List.foldl_reverse]
  calc (Nat.digits 16 n).foldr (fun d v => v * 16 + d) 0
      = (Nat.digits 16 n).foldr (fun d v => d + 16 * v) 0 := by
        congr
        funext d v
        omega
    _ = Nat.ofDigits 16 (Nat.digits 16 n) := by
        rw [Nat.ofDigits_eq_foldr]
        rfl
    _ = n := Nat.ofDigits_digits 16 n

theorem takeDigits_hexText (hc : digitIn 16 c = none) :
    takeDigits 16 0 (hexText n ++ c :: t) = (n, c :: t) := by
  unfold hexText
  split
  · rename_i hzero
    subst hzero
    have hdigits : ∀ d ∈ [0], d < 16 := by decide
    exact takeDigits_map hdigits hc 0
  · rw [← List.map_reverse, takeDigits_map _ hc, foldl_digits]
    intro d hd
    exact Nat.digits_lt_base (by decide) (List.mem_reverse.mp hd)

/-- The text of a number begins with a digit. -/
theorem hexText_head (n : Nat) :
    ∃ d t, hexText n = hexDigit d :: t ∧ d < 16 := by
  unfold hexText
  split
  · exact ⟨0, [], rfl, by decide⟩
  · rename_i hne
    rw [← List.map_reverse]
    cases hds : (Nat.digits 16 n).reverse with
    | nil =>
      rw [List.reverse_eq_nil_iff, Nat.digits_eq_nil_iff_eq_zero] at hds
      exact absurd hds hne
    | cons d ds =>
      have hmem : d ∈ (Nat.digits 16 n).reverse := by
        rw [hds]
        exact List.mem_cons_self
      exact ⟨d, ds.map hexDigit, rfl,
        Nat.digits_lt_base (by decide) (List.mem_reverse.mp hmem)⟩

theorem dropWhile_space {blank : List Char} (hblank : ∀ b ∈ blank, isSpace b)
    (hc : isSpace c = false) :
    (blank ++ c :: t).dropWhile isSpace = c :: t := by
  induction blank with
  | nil =>
    show (c :: t).dropWhile isSpace = _
    rw [List.dropWhile_cons_of_neg (by simp [hc])]
  | cons b blank ih =>
    have hb := hblank b List.mem_cons_self
    show (b :: (blank ++ c :: t)).dropWhile isSpace = _
    rw [List.dropWhile_cons_of_pos hb]
    exact ih fun b' h => hblank b' (List.mem_cons_of_mem _ h)

/-- A number as `"0x%X"` prints it reads back, blanks before it or not. -/
theorem strtoul_hex {blank : List Char} (hblank : ∀ b ∈ blank, isSpace b)
    (hc : digitIn 16 c = none) (hn : n < 2 ^ 32) :
    strtoul (blank ++ '0' :: 'x' :: (hexText n ++ c :: t)) =
      (BitVec.ofNat 32 n, c :: t) := by
  obtain ⟨d, rest, htext, hd⟩ := hexText_head n
  have hsome : (digitIn 16 (hexDigit d)).isSome := by
    rw [digitIn_hexDigit hd]
    rfl
  have hbase : takeBase ('0' :: 'x' :: (hexText n ++ c :: t)) =
      (16, hexText n ++ c :: t) := by
    rw [htext]
    show takeBase ('0' :: 'x' :: hexDigit d :: (rest ++ c :: t)) = _
    rw [takeBase, if_pos ⟨.inl rfl, hsome⟩]
    rfl
  have hhead : ((hexText n ++ c :: t).head?.bind (digitIn 16)).isSome := by
    rw [htext]
    exact hsome
  have hsign : takeSign ('0' :: 'x' :: (hexText n ++ c :: t)) =
      (false, '0' :: 'x' :: (hexText n ++ c :: t)) := rfl
  have hfits : ¬ 2 ^ 32 ≤ n := by omega
  unfold strtoul
  rw [dropWhile_space hblank (by decide)]
  simp only [hsign, hbase, hhead, if_true, takeDigits_hexText hc, if_neg hfits,
    Bool.false_eq_true, if_false]

theorem hexText_length (hn : n < 2 ^ 32) : (hexText n).length ≤ 8 := by
  unfold hexText
  split
  · decide
  · rw [List.length_reverse, List.length_map, Nat.digits_length_le_iff]
    · exact hn
    · decide

theorem hexText_ne_newline (h : c ∈ hexText n) : c ≠ '\n' := by
  have hall : ∀ d < 16, hexDigit d ≠ '\n' := by decide
  unfold hexText at h
  split at h
  · rw [List.mem_singleton.mp h]
    decide
  · obtain ⟨d, hd, rfl⟩ := List.mem_map.mp (List.mem_reverse.mp h)
    exact hall d (Nat.digits_lt_base (by decide) hd)

end RoundTrip

/-! ## A number takes up text -/

section Consumed

variable {base v : Nat} {c : Char} {s : List Char}

theorem takeDigits_length_le :
    (takeDigits base v s).2.length ≤ s.length := by
  induction s generalizing v with
  | nil => exact Nat.le_refl 0
  | cons c cs ih =>
    rw [takeDigits]
    split
    · exact Nat.le_succ_of_le ih
    · exact Nat.le_refl _

theorem takeDigits_length_lt (h : (digitIn base c).isSome) :
    (takeDigits base v (c :: s)).2.length < (c :: s).length := by
  obtain ⟨d, hd⟩ := Option.isSome_iff_exists.mp h
  rw [takeDigits, hd]
  exact Nat.lt_succ_of_le takeDigits_length_le

theorem takeBase_digit (hc : '0' ≤ c ∧ c ≤ '9') :
    ∃ c' s', (takeBase (c :: s)).2 = c' :: s' ∧
      (digitIn (takeBase (c :: s)).1 c').isSome ∧ s'.length ≤ s.length := by
  have hten : ∀ c, '0' ≤ c ∧ c ≤ '9' → (digitIn 10 c).isSome := by
    intro c hc
    have hlt : c.toNat - 48 < 10 := by
      have hle : c.toNat ≤ 57 := hc.2
      omega
    simp [digitIn, digitValue, hc, hlt]
  have hzero : (digitIn 8 '0').isSome := by decide
  unfold takeBase
  split
  · rename_i x d t heq
    injection heq with _ hs
    split
    · rename_i hx
      refine ⟨d, t, rfl, hx.2, ?_⟩
      rw [hs]
      simp only [List.length_cons]
      omega
    · exact ⟨'0', x :: d :: t, rfl, hzero, by rw [hs]⟩
  · rename_i t _ heq
    injection heq with _ hs
    exact ⟨'0', t, rfl, hzero, by rw [hs]⟩
  · exact ⟨c, s, rfl, hten c hc, Nat.le_refl _⟩

/-- A number without blanks and a sign in front of it. -/
theorem strtoul_digit (hc : '0' ≤ c ∧ c ≤ '9') :
    strtoul (c :: s) =
      let based := takeBase (c :: s)
      let digits := takeDigits based.1 0 based.2
      (if 2 ^ 32 ≤ digits.1 then BitVec.allOnes 32
        else BitVec.ofNat 32 digits.1, digits.2) := by
  have hne : ∀ b, ¬ '0' ≤ b → c ≠ b := fun b hb h => hb (h ▸ hc.1)
  have hblank : isSpace c = false := by
    simp [isSpace, hne ' ' (by decide), hne '\t' (by decide),
      hne '\n' (by decide), hne '\x0b' (by decide), hne '\x0c' (by decide),
      hne '\x0d' (by decide)]
  have hsign : takeSign (c :: s) = (false, c :: s) := by
    unfold takeSign
    split
    · rename_i heq
      injection heq with heq
      exact absurd heq (hne '-' (by decide))
    · rename_i heq
      injection heq with heq
      exact absurd heq (hne '+' (by decide))
    · rfl
  obtain ⟨c', s', hbase, hdigit, -⟩ := takeBase_digit (s := s) hc
  have hhead : ((takeBase (c :: s)).2.head?.bind
      (digitIn (takeBase (c :: s)).1)).isSome := by
    rw [hbase]
    exact hdigit
  have hdrop : (c :: s).dropWhile isSpace = c :: s := by
    rw [List.dropWhile_cons_of_neg (by simp [hblank])]
  unfold strtoul
  simp only [hdrop, hsign, hhead, if_true]
  rfl

theorem strtoul_length_lt (hc : '0' ≤ c ∧ c ≤ '9') :
    (strtoul (c :: s)).2.length < (c :: s).length := by
  obtain ⟨c', s', hbase, hdigit, hle⟩ := takeBase_digit (s := s) hc
  rw [strtoul_digit hc]
  dsimp only
  rw [hbase]
  have hlt := takeDigits_length_lt (v := 0) (s := s') hdigit
  simp only [List.length_cons] at hlt ⊢
  omega

end Consumed

/-! ## Where a number ends -/

section Ends

variable {base v : Nat} {c d : Char} {s t : List Char}

theorem digitIn_none (hd : digitValue d = none) : digitIn base d = none := by
  rw [digitIn, hd]
  rfl

theorem takeDigits_append (ht : ∀ d ∈ t.head?, digitValue d = none) :
    takeDigits base v (s ++ t) =
      ((takeDigits base v s).1, (takeDigits base v s).2 ++ t) := by
  induction s generalizing v with
  | nil =>
    cases t with
    | nil => rfl
    | cons d t =>
      have hnone : digitIn base d = none := digitIn_none (ht d rfl)
      simp [takeDigits, hnone]
  | cons c s ih =>
    rw [List.cons_append, takeDigits, takeDigits]
    cases digitIn base c with
    | none => rfl
    | some n => exact ih

theorem takeBase_append (hc : '0' ≤ c ∧ c ≤ '9')
    (ht : ∀ d ∈ t.head?, digitValue d = none) :
    takeBase (c :: (s ++ t)) =
      ((takeBase (c :: s)).1, (takeBase (c :: s)).2 ++ t) := by
  have hten : c ≠ '0' → ∀ s, takeBase (c :: s) = (10, c :: s) := by
    intro hzero s
    unfold takeBase
    split
    · rename_i heq
      injection heq with heq
      exact absurd heq hzero
    · rename_i heq
      injection heq with heq
      exact absurd heq hzero
    · rfl
  by_cases hzero : c = '0'
  · subst hzero
    cases s with
    | nil =>
      match t, ht with
      | [], _ => rfl
      | [d], _ => rfl
      | d :: e :: t, ht =>
        have hx : ¬ ((d = 'x' ∨ d = 'X') ∧ (digitIn 16 e).isSome) := by
          rintro ⟨rfl | rfl, _⟩ <;> cases ht _ rfl
        rw [List.nil_append, takeBase, if_neg hx]
        rfl
    | cons a s =>
      cases s with
      | nil =>
        cases t with
        | nil => rfl
        | cons d t =>
          have hd : digitIn 16 d = none := digitIn_none (ht d rfl)
          have hx : ¬ ((a = 'x' ∨ a = 'X') ∧ (digitIn 16 d).isSome) := by
            rw [hd]
            exact fun h => by cases h.2
          rw [List.cons_append, List.nil_append, takeBase, if_neg hx]
          rfl
      | cons b s =>
        rw [List.cons_append, List.cons_append, takeBase, takeBase]
        split <;> rfl
  · rw [hten hzero, hten hzero]
    rfl

/-- A number ends in front of what is neither a digit nor a letter. -/
theorem strtoul_append (hc : '0' ≤ c ∧ c ≤ '9')
    (ht : ∀ d ∈ t.head?, digitValue d = none) :
    strtoul (c :: (s ++ t)) =
      ((strtoul (c :: s)).1, (strtoul (c :: s)).2 ++ t) := by
  rw [strtoul_digit hc, strtoul_digit hc, takeBase_append hc ht]
  dsimp only
  rw [takeDigits_append ht]

theorem takeDigits_mem (hd : digitValue d = none) (h : d ∈ s) :
    d ∈ (takeDigits base v s).2 := by
  induction s generalizing v with
  | nil => cases h
  | cons c s ih =>
    rw [takeDigits]
    cases hc : digitIn base c with
    | none => exact h
    | some n =>
      have hne : d ≠ c := by
        rintro rfl
        rw [digitIn_none hd] at hc
        cases hc
      exact ih (List.mem_of_ne_of_mem hne h)

theorem takeBase_mem (hd : digitValue d = none) (h : d ∈ s) :
    d ∈ (takeBase s).2 := by
  unfold takeBase
  split
  · rename_i x e t
    split
    · rename_i hx
      have hzero : d ≠ '0' := by
        rintro rfl
        cases hd
      have hne : d ≠ x := by
        rintro rfl
        rcases hx.1 with rfl | rfl <;> cases hd
      exact List.mem_of_ne_of_mem hne (List.mem_of_ne_of_mem hzero h)
    · exact h
  · exact h
  · exact h

/-- What is no part of a number is still behind it. -/
theorem strtoul_mem (hc : '0' ≤ c ∧ c ≤ '9') (hd : digitValue d = none)
    (h : d ∈ c :: s) : d ∈ (strtoul (c :: s)).2 := by
  rw [strtoul_digit hc]
  exact takeDigits_mem hd (takeBase_mem hd h)

theorem takeDigits_suffix : (takeDigits base v s).2 <:+ s := by
  induction s generalizing v with
  | nil => exact List.suffix_refl _
  | cons c s ih =>
    rw [takeDigits]
    cases digitIn base c with
    | none => exact List.suffix_refl _
    | some n => exact ih.trans (List.suffix_cons c s)

theorem takeBase_suffix : (takeBase s).2 <:+ s := by
  unfold takeBase
  split
  · rename_i x d t
    split
    · exact (List.suffix_cons x (d :: t)).trans (List.suffix_cons '0' _)
    · exact List.suffix_refl _
  · exact List.suffix_refl _
  · exact List.suffix_refl _

theorem strtoul_suffix (hc : '0' ≤ c ∧ c ≤ '9') :
    (strtoul (c :: s)).2 <:+ c :: s := by
  rw [strtoul_digit hc]
  exact takeDigits_suffix.trans takeBase_suffix

end Ends

/-! ## The number a text is -/

/-- The number a text begins with, however large, with its sign. -/
def numeral (s : List Char) : Option Int :=
  let signed := takeSign (s.dropWhile isSpace)
  let based := takeBase signed.2
  if (based.2.head?.bind (digitIn based.1)).isSome then
    let n := (takeDigits based.1 0 based.2).1
    some (if signed.1 then -n else n)
  else none

/-- `strtoul` returns the number of the text where 32 bits hold it. -/
theorem strtoul_numeral {s : List Char} {v : BitVec 32}
    (h : numeral s = some (v.toNat : Int)) : (strtoul s).1 = v := by
  unfold numeral at h
  unfold strtoul
  dsimp only at h ⊢
  generalize takeSign (s.dropWhile isSpace) = signed at h ⊢
  generalize takeBase signed.2 = based at h ⊢
  split at h
  case isFalse => cases h
  case isTrue hdigit =>
    rw [if_pos hdigit]
    generalize takeDigits based.1 0 based.2 = digits at h ⊢
    have hv := v.isLt
    have hn : (if signed.1 then -(digits.1 : Int) else digits.1) = v.toNat :=
      Option.some.inj h
    cases hsign : signed.1
    · rw [hsign] at hn
      have hd : digits.1 = v.toNat := by simpa using hn
      rw [if_neg (by omega)]
      simp [hd]
    · rw [hsign] at hn
      have hd : digits.1 = 0 ∧ v.toNat = 0 := by
        have hneg : -(digits.1 : Int) = v.toNat := by simpa using hn
        omega
      have hzero : v = 0 := BitVec.eq_of_toNat_eq hd.2
      rw [if_neg (by omega)]
      simp [hd.1, hzero]

/-! ## Numbers with a sign -/

/-- `strtol` with base 0. -/
def strtol (s : List Char) : Int × List Char :=
  match numeral s with
  | some n => (max (-2 ^ 31) (min n (2 ^ 31 - 1)), (strtoul s).2)
  | none => (0, s)

/-- Both functions read the same text. -/
theorem strtol_rest (s : List Char) : (strtol s).2 = (strtoul s).2 := by
  unfold strtol
  cases hnum : numeral s with
  | some n => rfl
  | none =>
    unfold numeral at hnum
    unfold strtoul
    dsimp only at hnum ⊢
    split at hnum
    · cases hnum
    · rename_i hnone
      rw [if_neg hnone]

theorem strtoul_minus {c : Char} {s : List Char} (hc : '0' ≤ c ∧ c ≤ '9') :
    (strtoul ('-' :: c :: s)).2 = (strtoul (c :: s)).2 := by
  obtain ⟨c', s', hbase, hdigit, -⟩ := takeBase_digit (s := s) hc
  have hhead : ((takeBase (c :: s)).2.head?.bind
      (digitIn (takeBase (c :: s)).1)).isSome := by
    rw [hbase]
    exact hdigit
  have hdrop : ('-' :: c :: s).dropWhile isSpace = '-' :: c :: s := rfl
  have hsign : takeSign ('-' :: c :: s) = (true, c :: s) := rfl
  rw [strtoul_digit hc]
  unfold strtoul
  simp only [hdrop, hsign, hhead, if_true]

/-- A number takes up text, with a minus sign or without. -/
theorem strtol_length_lt {c : Char} {s : List Char} (hc : '0' ≤ c ∧ c ≤ '9') :
    (strtol (c :: s)).2.length < (c :: s).length := by
  rw [strtol_rest]
  exact strtoul_length_lt hc

theorem strtol_minus_length_lt {c : Char} {s : List Char} (hc : '0' ≤ c ∧ c ≤ '9') :
    (strtol ('-' :: c :: s)).2.length < ('-' :: c :: s).length := by
  rw [strtol_rest, strtoul_minus hc]
  exact Nat.lt_succ_of_lt (strtoul_length_lt hc)

end Coht.Lib
