import Coht.Lib.Numeral
import Coht.Lib.Qsort
import Coht.Sis33.Normalise

/-!
# Rounding to a value that the module supports (`sis33dev.c`)

The driver lists the supported values of an attribute in a text, each followed
by a blank. The library reads them into an array, has `qsort()` bring them in
descending order and rounds by the array.

The comparison function returns the difference of two unsigned numbers as an
`int`, which has the wrong sign from 2^31 on. Below that the array is in order,
every difference in the search is exact too, and the rounding is right
(`roundUint_right`). Above it the largest value is not first, or the function is
not consistent and nothing is known about the order (`exists_misplaced`).
-/

namespace Coht.Sis33

open Coht.Lib

/-! ## Reading the values -/

def sis33devGetNrItems (value : List Char) : Nat := value.count ' '

def cmpUintsDesc (n1 n2 : U32) : Int := (n2 - n1).toInt

/-- `strchr()`, with the text behind the character. -/
def strchr (s : List Char) (c : Char) : Option (List Char) :=
  match s.dropWhile (· ≠ c) with
  | [] => none
  | _ :: rest => some rest

/-- The array before it is sorted, at most `n` numbers. -/
def readItems (init : List Char) : Nat → List U32
  | 0 => []
  | n + 1 =>
    match strchr init ' ' with
    | none => []
    | some rest => (strtoul init).1 :: readItems rest n

/-- `sis33dev_get_items_uint()` for an attribute with the text `value` returns
`ret` and leaves `array`. -/
def Sis33devGetItemsUint (value : List Char) (n : Nat) (ret : Int)
    (array : List U32) : Prop :=
  Qsort.Sorts cmpUintsDesc (readItems value n) array ∧
    ret = if (readItems value n).length < n then -1 else 0

/-! ## Rounding -/

inductive Sis33Round
  | nearest
  | down
  | up
  deriving DecidableEq

def roundOk (candidate value : U32) (round : Sis33Round) : Bool :=
  match round with
  | .up => candidate ≥ value
  | .down => candidate ≤ value
  | .nearest => true

/-- `abs()` of an unsigned number that is taken for an `int`. -/
def absInt (x : U32) : U32 := if x.toInt < 0 then -x else x

/-- The loop from index `i` on, where the rest of the array is. -/
def approxLoop (value : U32) (round : Sis33Round) (i : Nat) (mindiff : U32)
    (result : Nat) : List U32 → Nat
  | [] => result
  | x :: rest =>
    let diff := absInt (x - value)
    if diff < mindiff ∧ roundOk x value round then
      if diff = 0 then i
      else approxLoop value round (i + 1) diff i rest
    else approxLoop value round (i + 1) mindiff result rest

def approx (array : List U32) (value : U32) (round : Sis33Round) : U32 :=
  array.getD (approxLoop value round 0 (BitVec.allOnes 32) 0 array) 0

/-- `sis33dev_round_uint()` for an array with at least one number. -/
def sis33devRoundUint (array : List U32) (value : U32) (round : Sis33Round) :
    U32 :=
  if value ≥ array.headD 0 then array.headD 0
  else if value ≤ array.getLastD 0 then array.getLastD 0
  else approx array value round

/-! ## What is expected -/

/-- A text of numbers in the notations of C, each followed by a blank. -/
inductive HoldsUints : List Char → List U32 → Prop
  | nil : HoldsUints [] []
  | cons {c : Char} {s text : List Char} {x : U32} {xs : List U32} :
      '0' ≤ c ∧ c ≤ '9' → ' ' ∉ c :: s → numeral (c :: s) = some x.toNat →
      (strtoul (c :: s)).2 = [] → HoldsUints text xs →
      HoldsUints (c :: (s ++ ' ' :: text)) (x :: xs)

def distance (x value : U32) : Nat := ((x.toNat : Int) - value.toNat).natAbs

/-- The value that is rounded to, out of `xs`. -/
structure RoundsTo (xs : List U32) (value : U32) (round : Sis33Round) (r : U32) :
    Prop where
  mem : r ∈ xs
  up : round = .up → (∃ x ∈ xs, value ≤ x) →
    value ≤ r ∧ ∀ x ∈ xs, value ≤ x → r ≤ x
  down : round = .down → (∃ x ∈ xs, x ≤ value) →
    r ≤ value ∧ ∀ x ∈ xs, x ≤ value → x ≤ r
  nearest : round = .nearest → ∀ x ∈ xs, distance r value ≤ distance x value
  above : (∀ x ∈ xs, x < value) → ∀ x ∈ xs, x ≤ r
  below : (∀ x ∈ xs, value < x) → ∀ x ∈ xs, r ≤ x

/-- No two of the values are 2^31 or more apart. -/
def Near (xs : List U32) : Prop :=
  ∀ x ∈ xs, ∀ y ∈ xs, x.toNat < y.toNat + 2 ^ 31

section Read

variable {value : List Char} {xs : List U32}

theorem HoldsUints.count (h : HoldsUints value xs) :
    sis33devGetNrItems value = xs.length := by
  unfold sis33devGetNrItems
  induction h with
  | nil => rfl
  | @cons c s text x xs hc hblank hnum hend hrest ih =>
    have hzero : (c :: s).count ' ' = 0 := List.count_eq_zero.mpr hblank
    rw [← List.cons_append, List.count_append, hzero, List.count_cons_self, ih,
      List.length_cons, Nat.zero_add]

theorem HoldsUints.read (h : HoldsUints value xs) :
    readItems value xs.length = xs := by
  induction h with
  | nil => rfl
  | @cons c s text x xs hc hblank hnum hend hrest ih =>
    have hstrchr : strchr (c :: (s ++ ' ' :: text)) ' ' = some text := by
      have hdrop : (c :: s ++ ' ' :: text).dropWhile (· ≠ ' ') =
          ' ' :: text := by
        rw [List.dropWhile_append_of_pos]
        · exact List.dropWhile_cons_of_neg (by decide)
        · intro d hd
          exact decide_eq_true fun h => hblank (h ▸ hd)
      rw [strchr, ← List.cons_append, hdrop]
    have hx : (strtoul (c :: (s ++ ' ' :: text))).1 = x := by
      rw [strtoul_append hc (by intro d hd; cases hd; rfl)]
      exact strtoul_numeral hnum
    rw [List.length_cons, readItems, hstrchr]
    dsimp only
    rw [hx, ih]

end Read

/-! ## The order of the array -/

section Order

variable {xs ys : List U32} {x y : U32}

theorem cmpUintsDesc_eq (h : Near xs) (hx : x ∈ xs) (hy : y ∈ xs) :
    cmpUintsDesc x y = y.toNat - x.toNat := by
  have hxy := h x hx y hy
  have hyx := h y hy x hx
  rw [cmpUintsDesc, BitVec.toInt_eq_toNat_cond, BitVec.toNat_sub]
  split <;> omega

theorem cmpUintsDesc_far (h : y.toNat + 2 ^ 31 ≤ x.toNat) :
    0 < cmpUintsDesc x y ∨ cmpUintsDesc x y < 0 ∧ cmpUintsDesc y x < 0 := by
  have hx := x.isLt
  simp only [cmpUintsDesc, BitVec.toInt_eq_toNat_cond, BitVec.toNat_sub]
  split <;> split <;> omega

theorem consistent_of_near (h : Near xs) :
    Qsort.Consistent cmpUintsDesc xs := by
  constructor
  · intro a ha b hb
    rw [cmpUintsDesc_eq h ha hb, cmpUintsDesc_eq h hb ha]
    omega
  · intro a ha b hb c hc
    rw [cmpUintsDesc_eq h ha hb, cmpUintsDesc_eq h hb hc,
      cmpUintsDesc_eq h ha hc]
    omega

theorem sorts_descending (h : Near xs) (hsort : Qsort.Sorts cmpUintsDesc xs ys) :
    ys.Pairwise fun a b => b ≤ a := by
  refine (hsort.sorted (consistent_of_near h)).imp_of_mem ?_
  intro a b ha hb hab
  rw [cmpUintsDesc_eq h (hsort.perm.mem_iff.mp ha) (hsort.perm.mem_iff.mp hb)]
    at hab
  show b.toNat ≤ a.toNat
  omega

theorem exists_largest (hne : xs ≠ []) : ∃ x ∈ xs, ∀ y ∈ xs, y ≤ x := by
  induction xs with
  | nil => exact absurd rfl hne
  | cons a xs ih =>
    by_cases hxs : xs = []
    · exact ⟨a, List.mem_cons_self, by simp [hxs]⟩
    · obtain ⟨x, hx, hall⟩ := ih hxs
      obtain h | h := BitVec.le_total x a
      · refine ⟨a, List.mem_cons_self, fun y hy => ?_⟩
        obtain rfl | hy := List.mem_cons.mp hy
        · exact BitVec.le_refl y
        · exact BitVec.le_trans (hall y hy) h
      · refine ⟨x, List.mem_cons_of_mem a hx, fun y hy => ?_⟩
        obtain rfl | hy := List.mem_cons.mp hy
        · exact h
        · exact hall y hy

theorem exists_misplaced (h : ¬Near xs) :
    ∃ x ∈ xs, (∀ y ∈ xs, y ≤ x) ∧
      ∃ a ys, Qsort.Sorts cmpUintsDesc xs (a :: ys) ∧ a ≠ x := by
  unfold Near at h
  push Not at h
  obtain ⟨u, hu, y, hy, hfar⟩ := h
  obtain ⟨x, hx, hmax⟩ := exists_largest (List.ne_nil_of_mem hu)
  have hux : u.toNat ≤ x.toNat := hmax u hu
  have hyx : y.toNat + 2 ^ 31 ≤ x.toNat := by omega
  have hne : y ≠ x := by
    intro heq
    rw [heq] at hyx
    omega
  refine ⟨x, hx, hmax, ?_⟩
  by_cases hc : Qsort.Consistent cmpUintsDesc xs
  · obtain ⟨ys, hsort⟩ := Qsort.exists_sorts cmpUintsDesc xs
    cases ys with
    | nil =>
      rw [List.nil_perm.mp hsort.perm] at hy
      cases hy
    | cons a ys =>
      refine ⟨a, ys, hsort, fun heq => ?_⟩
      subst heq
      have hmem : y ∈ ys :=
        List.mem_of_ne_of_mem hne (hsort.perm.mem_iff.mpr hy)
      have hle := hsort.head hc hmem
      obtain hpos | ⟨hneg, hneg'⟩ := cmpUintsDesc_far hyx
      · omega
      · have hpos := (hc.antisymm a hx y hy).mp hneg
        omega
  · exact ⟨y, xs.erase y,
      Qsort.Sorts.of_perm hc (List.perm_cons_erase hy).symm, hne⟩

end Order

/-! ## The search -/

section Search

variable {array rest xs : List U32} {value x : U32} {round : Sis33Round}
  {mindiff : U32} {i result : Nat}

theorem approxLoop_spec (hrest : array.drop i = rest) :
    let k := approxLoop value round i mindiff result rest
    (k = result ∧ ∀ x ∈ rest, roundOk x value round = true →
        mindiff ≤ absInt (x - value)) ∨
      ∃ x ∈ rest, array[k]? = some x ∧ roundOk x value round = true ∧
        absInt (x - value) < mindiff ∧
        ∀ x' ∈ rest, roundOk x' value round = true →
          absInt (x - value) ≤ absInt (x' - value) := by
  induction rest generalizing i mindiff result with
  | nil => exact .inl ⟨rfl, fun x hx => by cases hx⟩
  | cons x rest ih =>
    have hx : array[i]? = some x := by
      rw [← List.head?_drop, hrest]
      rfl
    have htail : array.drop (i + 1) = rest := by
      rw [← List.tail_drop, hrest]
      rfl
    rw [approxLoop]
    dsimp only
    by_cases hcand : absInt (x - value) < mindiff ∧ roundOk x value round = true
    · obtain ⟨hlt, hok⟩ := hcand
      rw [if_pos ⟨hlt, hok⟩]
      split
      · rename_i hzero
        refine .inr ⟨x, List.mem_cons_self, hx, hok, hlt, fun x' _ _ => ?_⟩
        rw [hzero]
        exact Nat.zero_le _
      · obtain ⟨hk, hall⟩ | ⟨x2, hx2, hget, hok2, hlt2, hall⟩ :=
          @ih (absInt (x - value)) (i + 1) i htail
        · refine .inr ⟨x, List.mem_cons_self, by rw [hk, hx], hok, hlt, ?_⟩
          intro x' hx' hok'
          obtain rfl | hx' := List.mem_cons.mp hx'
          · exact BitVec.le_refl _
          · exact hall x' hx' hok'
        · refine .inr ⟨x2, List.mem_cons_of_mem x hx2, hget, hok2,
            BitVec.lt_trans hlt2 hlt, ?_⟩
          intro x' hx' hok'
          obtain rfl | hx' := List.mem_cons.mp hx'
          · exact BitVec.le_of_lt hlt2
          · exact hall x' hx' hok'
    · rw [if_neg hcand]
      have hfar : roundOk x value round = true →
          mindiff ≤ absInt (x - value) := by
        intro hok
        exact BitVec.not_lt.mp fun hlt => hcand ⟨hlt, hok⟩
      obtain ⟨hk, hall⟩ | ⟨x2, hx2, hget, hok2, hlt2, hall⟩ :=
        @ih mindiff (i + 1) result htail
      · refine .inl ⟨hk, fun x' hx' hok' => ?_⟩
        obtain rfl | hx' := List.mem_cons.mp hx'
        · exact hfar hok'
        · exact hall x' hx' hok'
      · refine .inr ⟨x2, List.mem_cons_of_mem x hx2, hget, hok2, hlt2, ?_⟩
        intro x' hx' hok'
        obtain rfl | hx' := List.mem_cons.mp hx'
        · exact BitVec.le_trans (BitVec.le_of_lt hlt2) (hfar hok')
        · exact hall x' hx' hok'

theorem absInt_sub (hlo : ∃ y ∈ xs, y ≤ value) (hhi : ∃ y ∈ xs, value ≤ y)
    (h : Near xs) (hx : x ∈ xs) :
    (absInt (x - value)).toNat = distance x value ∧
      distance x value < 2 ^ 31 := by
  obtain ⟨lo, hlo, hlov⟩ := hlo
  obtain ⟨hi, hhi, hvhi⟩ := hhi
  have hlov : lo.toNat ≤ value.toNat := hlov
  have hvhi : value.toNat ≤ hi.toNat := hvhi
  have h1 := h x hx lo hlo
  have h2 := h hi hhi x hx
  have hint : (x - value).toInt = x.toNat - value.toNat := by
    rw [BitVec.toInt_eq_toNat_cond, BitVec.toNat_sub]
    split <;> omega
  unfold absInt distance
  rw [hint]
  constructor
  · split
    · rw [BitVec.toNat_neg, BitVec.toNat_sub]
      omega
    · rw [BitVec.toNat_sub]
      omega
  · omega

theorem approx_spec (hlo : ∃ y ∈ array, y ≤ value) (hhi : ∃ y ∈ array, value ≤ y)
    (h : Near array) (hok : ∃ y ∈ array, roundOk y value round = true) :
    approx array value round ∈ array ∧
      roundOk (approx array value round) value round = true ∧
      ∀ y ∈ array, roundOk y value round = true →
        distance (approx array value round) value ≤ distance y value := by
  obtain ⟨-, hall⟩ | ⟨x, hx, hget, hokx, -, hall⟩ :=
    @approxLoop_spec array array value round (BitVec.allOnes 32) 0 0 rfl
  · obtain ⟨y, hy, hoky⟩ := hok
    have hle : (BitVec.allOnes 32).toNat ≤ (absInt (y - value)).toNat :=
      hall y hy hoky
    obtain ⟨heq, hlt⟩ := absInt_sub hlo hhi h hy
    have hones : (BitVec.allOnes 32).toNat = 2 ^ 32 - 1 := rfl
    omega
  · have happrox : approx array value round = x := by
      rw [approx, List.getD_eq_getElem?_getD, hget]
      rfl
    rw [happrox]
    refine ⟨hx, hokx, fun y hy hoky => ?_⟩
    have hle : (absInt (x - value)).toNat ≤ (absInt (y - value)).toNat :=
      hall y hy hoky
    rwa [(absInt_sub hlo hhi h hx).1, (absInt_sub hlo hhi h hy).1] at hle

end Search

/-! ## Rounding -/

section Round

variable {xs ys array : List U32} {a value x : U32} {round : Sis33Round}
  {text : List Char}

theorem Near.perm (h : Near xs) (hperm : ys.Perm xs) : Near ys :=
  fun x hx y hy => h x (hperm.mem_iff.mp hx) y (hperm.mem_iff.mp hy)

theorem RoundsTo.perm (h : RoundsTo ys value round x) (hperm : ys.Perm xs) :
    RoundsTo xs value round x := by
  obtain ⟨hmem, hup, hdown, hnearest, habove, hbelow⟩ := h
  simp only [hperm.mem_iff] at *
  exact ⟨hmem, hup, hdown, hnearest, habove, hbelow⟩

theorem roundsTo_top (ha : a ∈ array) (hall : ∀ x ∈ array, x ≤ a)
    (h : a ≤ value) : RoundsTo array value round a := by
  have hle : a.toNat ≤ value.toNat := h
  refine ⟨ha, fun _ => ?_, fun _ _ => ⟨h, fun x hx _ => hall x hx⟩, ?_, ?_, ?_⟩
  · rintro ⟨x, hx, hvx⟩
    exact ⟨BitVec.le_trans hvx (hall x hx), fun y _ hvy => BitVec.le_trans h hvy⟩
  · intro _ x hx
    have hxa : x.toNat ≤ a.toNat := hall x hx
    unfold distance
    omega
  · exact fun _ => hall
  · exact fun hbelow => absurd h (BitVec.not_le.mpr (hbelow a ha))

theorem roundsTo_bottom (ha : a ∈ array) (hall : ∀ x ∈ array, a ≤ x)
    (h : value ≤ a) : RoundsTo array value round a := by
  have hle : value.toNat ≤ a.toNat := h
  refine ⟨ha, fun _ _ => ⟨h, fun x hx _ => hall x hx⟩, fun _ => ?_, ?_, ?_, ?_⟩
  · rintro ⟨x, hx, hxv⟩
    exact ⟨BitVec.le_trans (hall x hx) hxv, fun y _ hyv => BitVec.le_trans hyv h⟩
  · intro _ x hx
    have hax : a.toNat ≤ x.toNat := hall x hx
    unfold distance
    omega
  · exact fun habove => absurd h (BitVec.not_le.mpr (habove a ha))
  · exact fun _ => hall

theorem roundsTo_between {lo hi : U32} (hlo : lo ∈ array) (hlov : lo < value)
    (hhi : hi ∈ array) (hvhi : value < hi) (hnear : Near array) :
    RoundsTo array value round (approx array value round) := by
  have hok : ∃ y ∈ array, roundOk y value round = true := by
    cases round with
    | nearest => exact ⟨lo, hlo, rfl⟩
    | down => exact ⟨lo, hlo, decide_eq_true (BitVec.le_of_lt hlov)⟩
    | up => exact ⟨hi, hhi, decide_eq_true (BitVec.le_of_lt hvhi)⟩
  obtain ⟨hmem, hround, hall⟩ := approx_spec
    ⟨lo, hlo, BitVec.le_of_lt hlov⟩ ⟨hi, hhi, BitVec.le_of_lt hvhi⟩ hnear hok
  refine ⟨hmem, ?_, ?_, ?_, ?_, ?_⟩
  · rintro rfl -
    have hle := of_decide_eq_true hround
    refine ⟨hle, fun x hx hvx => ?_⟩
    have hdist := hall x hx (decide_eq_true hvx)
    have hle' : value.toNat ≤ (approx array value .up).toNat := hle
    have hvx' : value.toNat ≤ x.toNat := hvx
    show (approx array value .up).toNat ≤ x.toNat
    unfold distance at hdist
    omega
  · rintro rfl -
    have hle := of_decide_eq_true hround
    refine ⟨hle, fun x hx hxv => ?_⟩
    have hdist := hall x hx (decide_eq_true hxv)
    have hle' : (approx array value .down).toNat ≤ value.toNat := hle
    have hxv' : x.toNat ≤ value.toNat := hxv
    show x.toNat ≤ (approx array value .down).toNat
    unfold distance at hdist
    omega
  · rintro rfl x hx
    exact hall x hx rfl
  · intro habove
    exact absurd (habove hi hhi) (BitVec.not_lt.mpr (BitVec.le_of_lt hvhi))
  · intro hbelow
    exact absurd (hbelow lo hlo) (BitVec.not_lt.mpr (BitVec.le_of_lt hlov))

theorem roundUint_right (hdesc : array.Pairwise fun a b => b ≤ a)
    (hnear : Near array) (hne : array ≠ []) :
    RoundsTo array value round (sis33devRoundUint array value round) := by
  obtain ⟨top, rest, rfl⟩ := List.exists_cons_of_ne_nil hne
  have htop : ∀ x ∈ top :: rest, x ≤ top := by
    intro x hx
    obtain rfl | hx := List.mem_cons.mp hx
    · exact BitVec.le_refl x
    · exact List.rel_of_pairwise_cons hdesc hx
  have hlast : (top :: rest).getLastD 0 = (top :: rest).getLast hne := rfl
  have hbottom : ∀ x ∈ top :: rest, (top :: rest).getLast hne ≤ x := by
    intro x hx
    rw [← List.dropLast_append_getLast hne, List.pairwise_append] at hdesc
    rw [← List.dropLast_append_getLast hne, List.mem_append] at hx
    obtain hx | hx := hx
    · exact hdesc.2.2 x hx _ (List.mem_singleton.mpr rfl)
    · rw [List.mem_singleton.mp hx]
      exact BitVec.le_refl _
  unfold sis33devRoundUint
  rw [hlast]
  split
  · rename_i h
    exact roundsTo_top List.mem_cons_self htop h
  · rename_i h
    split
    · rename_i h'
      exact roundsTo_bottom (List.getLast_mem hne) hbottom h'
    · rename_i h'
      exact roundsTo_between (List.getLast_mem hne) (BitVec.not_le.mp h')
        List.mem_cons_self (BitVec.not_le.mp h) hnear

/-- The array is right for the rounding of every number if and only if no two of
its values are 2^31 or more apart. -/
theorem sis33devRoundUint_rounds (text : List Char) (xs : List U32)
    (htext : HoldsUints text xs) (hne : xs ≠ []) :
    (∀ ret array,
        Sis33devGetItemsUint text (sis33devGetNrItems text) ret array →
        ∀ value round,
          RoundsTo xs value round (sis33devRoundUint array value round)) ↔
      Near xs := by
  have hget : ∀ ret array,
      Sis33devGetItemsUint text (sis33devGetNrItems text) ret array ↔
        Qsort.Sorts cmpUintsDesc xs array ∧ ret = 0 := by
    intro ret array
    rw [Sis33devGetItemsUint, htext.count, htext.read,
      if_neg (Nat.lt_irrefl _)]
  simp only [hget]
  constructor
  · intro hright
    by_contra hfar
    obtain ⟨x, hx, hmax, a, ys, hsort, hne'⟩ := exists_misplaced hfar
    have hax : a ≤ x := hmax a (hsort.perm.mem_iff.mp List.mem_cons_self)
    have hround := hright 0 (a :: ys) ⟨hsort, rfl⟩ x .up
    have hresult : sis33devRoundUint (a :: ys) x .up = a := if_pos hax
    rw [hresult] at hround
    have hxa := (hround.up rfl ⟨x, hx, BitVec.le_refl x⟩).1
    exact hne' (BitVec.le_antisymm hax hxa)
  · rintro hnear ret array ⟨hsort, -⟩ value round
    have hne' : array ≠ [] := by
      rintro rfl
      exact hne (List.nil_perm.mp hsort.perm)
    exact (roundUint_right (sorts_descending hnear hsort)
      (hnear.perm hsort.perm) hne').perm hsort.perm

/-- Two lengths, the smaller one first. -/
theorem sis33devRoundUint_rounds_lengths :
    Near [8, 64] ∧
      ∀ ret array, Sis33devGetItemsUint ['8', ' ', '6', '4', ' '] 2 ret array →
        ∀ value round,
          RoundsTo [8, 64] value round (sis33devRoundUint array value round) := by
  have hsmall : ∀ x ∈ ([8, 64] : List U32), x.toNat ≤ 64 := by simp
  have hnear : Near [8, 64] := by
    intro x hx y _
    have := hsmall x hx
    omega
  exact ⟨hnear, (sis33devRoundUint_rounds ['8', ' ', '6', '4', ' '] [8, 64]
    (.cons (s := []) (by decide) (by decide) (by decide) (by decide)
      (.cons (s := ['4']) (by decide) (by decide) (by decide) (by decide) .nil))
    (List.cons_ne_nil _ _)).mpr hnear⟩

/-- 0 and 0x80000001: the comparison is consistent, and the array is in
ascending order. -/
theorem sis33devRoundUint_far :
    ¬∀ text xs, HoldsUints text xs → xs ≠ [] → ∀ ret array,
      Sis33devGetItemsUint text (sis33devGetNrItems text) ret array →
        ∀ value round,
          RoundsTo xs value round (sis33devRoundUint array value round) := by
  intro h
  have hround := h
    ['0', ' ', '0', 'x', '8', '0', '0', '0', '0', '0', '0', '1', ' ']
    [0, 0x80000001]
    (.cons (s := []) (by decide) (by decide) (by decide) (by decide)
      (.cons (s := ['x', '8', '0', '0', '0', '0', '0', '0', '1']) (by decide)
        (by decide) (by decide) (by decide) .nil))
    (List.cons_ne_nil _ _) 0 [0, 0x80000001]
    ⟨⟨List.Perm.refl _, fun _ => List.pairwise_pair.mpr (by decide)⟩, by decide⟩
    0x80000001 .up
  have hle := (hround.up rfl ⟨0x80000001, by decide, by decide⟩).1
  revert hle
  decide

end Round

end Coht.Sis33
