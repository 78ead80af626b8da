import Coht.Lib.Numeral
import Coht.Lib.Segments

/-!
# What `scanf` reads

A format is a list of directives: a character that has to be there, white space
of any length, none included, and the conversions `%s` and `%lx`. `scanf`
returns what the conversions have read up to the first directive that fails,
and the text behind. The character at which a directive fails is still there,
but a sign or a prefix of a number that turns out to be none is not. An
`unsigned long` has 32 bits, as in `strtoul`.

Each lemma is about a text that one directive reads, with whatever follows it.
-/

namespace Coht.Lib

inductive Directive
  | char (c : Char)
  | space
  | word
  | hex
  deriving DecidableEq

/-- What a conversion assigns. -/
inductive Converted
  | word (text : List Char)
  | number (v : BitVec 32)
  deriving DecidableEq

def notSpace (c : Char) : Bool := !isSpace c

/-- Behind the prefix that a hexadecimal number may have. -/
def skipPrefix : List Char → List Char
  | '0' :: x :: t => if x = 'x' ∨ x = 'X' then t else '0' :: x :: t
  | t => t

/-- The number of a `%lx`, behind white space. -/
def scanHex (s : List Char) : Option (BitVec 32) × List Char :=
  let signed := takeSign s
  let t := skipPrefix signed.2
  if (t.head?.bind (digitIn 16)).isSome then
    let digits := takeDigits 16 0 t
    (some (if 2 ^ 32 ≤ digits.1 then BitVec.allOnes 32
      else if signed.1 then -BitVec.ofNat 32 digits.1
      else BitVec.ofNat 32 digits.1), digits.2)
  else (none, t)

def scanf : List Directive → List Char → List Converted × List Char
  | [], s => ([], s)
  | .char _ :: _, [] => ([], [])
  | .char c :: format, d :: t => if d = c then scanf format t else ([], d :: t)
  | .space :: format, s => scanf format (s.dropWhile isSpace)
  | .word :: format, s =>
    let t := s.dropWhile isSpace
    if t = [] then ([], [])
    else
      let r := scanf format (t.dropWhile notSpace)
      (.word (t.takeWhile notSpace) :: r.1, r.2)
  | .hex :: format, s =>
    match scanHex (s.dropWhile isSpace) with
    | (some v, t) =>
      let r := scanf format t
      (.number v :: r.1, r.2)
    | (none, t) => ([], t)

section Length

variable {s : List Char}

theorem takeSign_length (s : List Char) : (takeSign s).2.length ≤ s.length := by
  unfold takeSign
  split
  · exact Nat.le_succ _
  · exact Nat.le_succ _
  · exact Nat.le_refl _

theorem skipPrefix_length (s : List Char) : (skipPrefix s).length ≤ s.length := by
  unfold skipPrefix
  split
  · rename_i x t
    split
    · exact Nat.le_trans (Nat.le_succ _) (Nat.le_succ _)
    · exact Nat.le_refl _
  · exact Nat.le_refl _

theorem scanHex_length (s : List Char) : (scanHex s).2.length ≤ s.length := by
  have hprefix := skipPrefix_length (takeSign s).2
  have hsign := takeSign_length s
  unfold scanHex
  dsimp only
  split
  · have hdigits : (takeDigits 16 0 (skipPrefix (takeSign s).2)).2.length ≤
        (skipPrefix (takeSign s).2).length := takeDigits_length_le
    exact Nat.le_trans hdigits (Nat.le_trans hprefix hsign)
  · exact Nat.le_trans hprefix hsign

theorem scanf_length (format : List Directive) (s : List Char) :
    (scanf format s).2.length ≤ s.length := by
  have hspace (s : List Char) : (s.dropWhile isSpace).length ≤ s.length :=
    (List.dropWhile_suffix _).length_le
  fun_induction scanf format s with
  | case1 s => exact Nat.le_refl _
  | case2 c format => exact Nat.le_refl _
  | case3 c format t ih => exact Nat.le_succ_of_le ih
  | case4 c format d t hd => exact Nat.le_refl _
  | case5 format s ih => exact Nat.le_trans ih (hspace s)
  | case6 format s t ht => exact Nat.zero_le _
  | case7 format s t ht r ih =>
    exact Nat.le_trans ih
      (Nat.le_trans (List.dropWhile_suffix _).length_le (hspace s))
  | case8 format s v t hhex r ih =>
    have hle := scanHex_length (s.dropWhile isSpace)
    rw [hhex] at hle
    exact Nat.le_trans ih (Nat.le_trans hle (hspace s))
  | case9 format s t hhex =>
    have hle := scanHex_length (s.dropWhile isSpace)
    rw [hhex] at hle
    exact Nat.le_trans hle (hspace s)

end Length

/-! ## What one directive reads -/

section Directives

variable {format : List Directive} {c : Char} {v : BitVec 32}
  {blank text s t : List Char}

/-- The digits of a number behind its prefix. -/
structure IsHex (text : List Char) (v : BitVec 32) : Prop where
  nonempty : text ≠ []
  digits : ∀ d ∈ text, (digitIn 16 d).isSome
  value : (takeDigits 16 0 text).1 = v.toNat

theorem scanf_char : scanf (.char c :: format) (c :: t) = scanf format t := by
  rw [scanf, if_pos rfl]

theorem dropWhile_self (ht : ∀ d ∈ t.head?, isSpace d = false) :
    t.dropWhile isSpace = t := by
  cases t with
  | nil => rfl
  | cons d t => rw [List.dropWhile_cons_of_neg (by simp [ht d rfl])]

theorem dropWhile_blank (hblank : ∀ b ∈ blank, isSpace b)
    (ht : ∀ d ∈ t.head?, isSpace d = false) : (blank ++ t).dropWhile isSpace = t := by
  rw [dropWhile_append_stop ht, List.dropWhile_eq_nil_iff.mpr hblank, List.nil_append]

theorem scanf_space (hblank : ∀ b ∈ blank, isSpace b)
    (ht : ∀ d ∈ t.head?, isSpace d = false) :
    scanf (.space :: format) (blank ++ t) = scanf format t := by
  rw [scanf, dropWhile_blank hblank ht]

theorem scanf_word (hne : text ≠ []) (htext : ∀ d ∈ text, notSpace d)
    (ht : ∀ d ∈ t.head?, isSpace d) :
    scanf (.word :: format) (text ++ t) =
      (.word text :: (scanf format t).1, (scanf format t).2) := by
  have hstop : ∀ d ∈ t.head?, notSpace d = false := by
    intro d hd
    rw [notSpace, ht d hd]
    rfl
  have hhead : ∀ d ∈ (text ++ t).head?, isSpace d = false := by
    intro d hd
    cases text with
    | nil => exact absurd rfl hne
    | cons c text =>
      obtain rfl : c = d := Option.some.inj hd
      simpa [notSpace] using htext c List.mem_cons_self
  have hsome : text ++ t ≠ [] := List.append_ne_nil_of_left_ne_nil hne t
  rw [scanf]
  dsimp only
  rw [dropWhile_self hhead, if_neg hsome, takeWhile_append_stop hstop, dropWhile_append_stop hstop,
    List.takeWhile_eq_self_iff.mpr htext, List.dropWhile_eq_nil_iff.mpr htext,
    List.nil_append]

theorem takeDigits_all {base n : Nat} (h : ∀ d ∈ text, (digitIn base d).isSome) :
    (takeDigits base n text).2 = [] := by
  induction text generalizing n with
  | nil => rfl
  | cons c text ih =>
    obtain ⟨d, hd⟩ := Option.isSome_iff_exists.mp (h c List.mem_cons_self)
    rw [takeDigits, hd]
    exact ih fun d' hd' => h d' (List.mem_cons_of_mem _ hd')

/-- No digit is a sign, white space or the letter of a prefix. -/
theorem digit_ne {d : Char} (hd : (digitIn 16 d).isSome) :
    isSpace d = false ∧ d ≠ '-' ∧ d ≠ '+' ∧ d ≠ 'x' ∧ d ≠ 'X' := by
  have hne : ∀ e, digitIn 16 e = none → d ≠ e := by
    rintro e he rfl
    rw [he] at hd
    cases hd
  refine ⟨?_, hne _ (by decide), hne _ (by decide), hne _ (by decide), hne _ (by decide)⟩
  simp [isSpace, hne ' ' (by decide), hne '\t' (by decide), hne '\n' (by decide),
    hne '\x0b' (by decide), hne '\x0c' (by decide), hne '\x0d' (by decide)]

theorem takeSign_digit (hc : (digitIn 16 c).isSome) :
    takeSign (c :: s) = (false, c :: s) := by
  obtain ⟨-, hminus, hplus, -⟩ := digit_ne hc
  unfold takeSign
  split
  · rename_i heq
    exact absurd (List.cons.inj heq).1 hminus
  · rename_i heq
    exact absurd (List.cons.inj heq).1 hplus
  · rfl

/-- A second character that is no `x` belongs to no prefix. -/
theorem skipPrefix_self (hx : ∀ d ∈ s.head?, d ≠ 'x' ∧ d ≠ 'X') :
    skipPrefix (c :: s) = c :: s := by
  unfold skipPrefix
  split
  · rename_i x t heq
    obtain ⟨rfl, rfl⟩ := List.cons.inj heq
    obtain ⟨hx, hX⟩ := hx x rfl
    have hno : ¬ (x = 'x' ∨ x = 'X') := fun h => h.elim hx hX
    rw [if_neg hno]
  · rfl

theorem scanHex_append (h : IsHex text v) (ht : ∀ d ∈ t.head?, digitValue d = none) :
    scanHex (text ++ t) = (some v, t) := by
  obtain ⟨hne, hdigits, hvalue⟩ := h
  have htake : takeDigits 16 0 (text ++ t) = (v.toNat, t) := by
    rw [takeDigits_append ht, hvalue, takeDigits_all hdigits, List.nil_append]
  cases text with
  | nil => exact absurd rfl hne
  | cons c text =>
    have hc := hdigits c List.mem_cons_self
    have hx : ∀ d ∈ (text ++ t).head?, d ≠ 'x' ∧ d ≠ 'X' := by
      intro d hd
      cases text with
      | nil =>
        have hnone := ht d hd
        constructor
        · rintro rfl
          cases hnone
        · rintro rfl
          cases hnone
      | cons e text =>
        obtain rfl : e = d := Option.some.inj hd
        obtain ⟨-, -, -, hx⟩ :=
          digit_ne (hdigits e (List.mem_cons_of_mem _ List.mem_cons_self))
        exact hx
    have hfits : ¬ 2 ^ 32 ≤ v.toNat := Nat.not_le.mpr v.isLt
    rw [List.cons_append] at htake ⊢
    unfold scanHex
    rw [takeSign_digit hc]
    dsimp only
    have hhead : ((c :: (text ++ t)).head?.bind (digitIn 16)).isSome := hc
    rw [skipPrefix_self hx, htake, if_pos hhead, if_neg hfits, if_neg Bool.false_ne_true, BitVec.ofNat_toNat,
      BitVec.setWidth_eq]

theorem scanf_hex (h : IsHex text v) (ht : ∀ d ∈ t.head?, digitValue d = none) :
    scanf (.hex :: format) (text ++ t) =
      (.number v :: (scanf format t).1, (scanf format t).2) := by
  have hhead : ∀ d ∈ (text ++ t).head?, isSpace d = false := by
    intro d hd
    cases htext : text with
    | nil => exact absurd htext h.nonempty
    | cons c rest =>
      rw [htext] at hd
      obtain rfl : c = d := Option.some.inj hd
      have hc : c ∈ text := htext ▸ List.mem_cons_self
      exact (digit_ne (h.digits c hc)).1
  rw [scanf, dropWhile_self hhead, scanHex_append h ht]

end Directives

end Coht.Lib
