import Mathlib.Algebra.Group.Nat.Defs

/-!
# Machine words: masks, alignment and halves

C code aligns an address by masking it and splits a wide address into two
words that carry into each other by hand. The lemmas here turn both idioms
into arithmetic on `Nat`, where `omega` finishes: a low mask is a remainder, a
complemented low mask removes the remainder, what is missing to the next
multiple is `padTo`, and a wide value is `hi * 2 ^ w + lo`. A mask taken apart
bit by bit is about `getLsbD` instead.
-/

namespace Coht.Lib

variable {w k : Nat}

/-- Masking with `2 ^ k - 1` is the remainder modulo `2 ^ k`. -/
theorem toNat_and_low {x m : BitVec w} (hm : m.toNat = 2 ^ k - 1) :
    (x &&& m).toNat = x.toNat % 2 ^ k := by
  rw [BitVec.toNat_and, hm, Nat.and_two_pow_sub_one_eq_mod]

/-- Masking with the complement of `2 ^ k - 1` rounds down to a multiple of
`2 ^ k`. -/
theorem toNat_and_high {x m : BitVec w} (hm : m.toNat = 2 ^ k - 1) :
    (x &&& ~~~m).toNat = x.toNat - x.toNat % 2 ^ k := by
  have hsplit : x.toNat - x.toNat % 2 ^ k = 2 ^ k * (x.toNat / 2 ^ k) := by
    have := Nat.div_add_mod x.toNat (2 ^ k)
    omega
  rw [hsplit]
  apply Nat.eq_of_testBit_eq
  intro i
  rw [BitVec.testBit_toNat, BitVec.getLsbD_and, BitVec.getLsbD_not,
    ← BitVec.testBit_toNat m, hm, Nat.testBit_two_pow_sub_one,
    Nat.testBit_two_pow_mul, Nat.testBit_div_two_pow]
  rcases Nat.lt_or_ge i w with hw | hw
  · rcases Nat.lt_or_ge i k with hk | hk
    · simp [hw, hk, show ¬ k ≤ i by omega]
    · simp [hw, hk, Nat.not_lt.mpr hk, BitVec.testBit_toNat]
  · have hx : x.toNat.testBit i = false := by
      rw [BitVec.testBit_toNat]
      exact BitVec.getLsbD_of_ge x i hw
    rcases Nat.lt_or_ge i k with hk | hk
    · simp [Nat.not_lt.mpr hw, hk, show ¬ k ≤ i by omega]
    · simp [Nat.not_lt.mpr hw, hk, hx]

/-- The distance from `n` up to the next multiple of `b`. -/
def padTo (b n : Nat) : Nat := (b - n % b) % b

theorem padTo_of_le {b n : Nat} (hn : 0 < n) (hle : n ≤ b) :
    padTo b n = b - n := by
  unfold padTo
  rcases Nat.lt_or_eq_of_le hle with hlt | rfl
  · rw [Nat.mod_eq_of_lt hlt, Nat.mod_eq_of_lt (by omega)]
  · rw [Nat.mod_self, Nat.sub_zero, Nat.mod_self, Nat.sub_self]

/-- Whole multiples below make no difference. -/
theorem padTo_sub {b n : Nat} (hle : b ≤ n) : padTo b (n - b) = padTo b n := by
  unfold padTo
  rw [Nat.mod_eq_sub_mod hle]

theorem padTo_mod_add (b n m : Nat) : padTo b (n % b + m) = padTo b (n + m) := by
  unfold padTo
  rw [Nat.mod_add_mod]

theorem padTo_lt {b : Nat} (hb : 0 < b) (n : Nat) : padTo b n < b :=
  Nat.mod_lt _ hb

/-- The wide value whose upper half is `hi` and whose lower half is `lo`. -/
def join (hi lo : BitVec w) : Nat := hi.toNat * 2 ^ w + lo.toNat

theorem join_lt (hi lo : BitVec w) : join hi lo < 2 ^ (w + w) := by
  have hhi := hi.isLt
  have hlo := lo.isLt
  calc hi.toNat * 2 ^ w + lo.toNat
      < hi.toNat * 2 ^ w + 2 ^ w := by omega
    _ = (hi.toNat + 1) * 2 ^ w := by rw [Nat.add_mul, Nat.one_mul]
    _ ≤ 2 ^ w * 2 ^ w := Nat.mul_le_mul_right _ hhi
    _ = 2 ^ (w + w) := (Nat.pow_add 2 w w).symm

/-! ## One bit of a mask -/

section Bits

variable {w : Nat} {mask : BitVec w} {j : Nat}

theorem getLsbD_one_shiftLeft {k : Nat} :
    (1#w <<< k).getLsbD j = decide (j = k ∧ j < w) := by
  rw [BitVec.getLsbD_shiftLeft, BitVec.getLsbD_one]
  by_cases hjk : j = k
  · subst hjk
    by_cases hj : j < w
    · have hpos : 0 < w := Nat.zero_lt_of_lt hj
      simp [hj, hpos]
    · simp [hj]
  · by_cases hlt : j < k
    · simp [hlt, hjk]
    · have hsub : j - k ≠ 0 := by omega
      simp [hsub, hjk]

theorem getLsbD_one_shiftLeft_of_lt {k : Nat} (hk : k < w) :
    (1#w <<< k).getLsbD j = decide (j = k) := by
  rw [getLsbD_one_shiftLeft, decide_eq_decide]
  exact ⟨fun h => h.1, fun h => ⟨h, h ▸ hk⟩⟩

theorem and_one_shiftLeft (h : mask.getLsbD j = true) :
    mask &&& 1#w <<< j = 1#w <<< j := by
  have hj := BitVec.lt_of_getLsbD h
  apply BitVec.eq_of_getLsbD_eq
  intro k _
  rw [BitVec.getLsbD_and, getLsbD_one_shiftLeft_of_lt hj]
  by_cases hkj : k = j
  · subst hkj
    rw [h, Bool.true_and]
  · rw [decide_eq_false hkj, Bool.and_false]

theorem and_one_shiftLeft_eq_zero :
    mask &&& 1#w <<< j = 0 ↔ mask.getLsbD j = false := by
  constructor
  · intro hzero
    cases hset : mask.getLsbD j with
    | false => rfl
    | true =>
      have hone := getLsbD_one_shiftLeft_of_lt (j := j) (BitVec.lt_of_getLsbD hset)
      rw [and_one_shiftLeft hset] at hzero
      rw [hzero] at hone
      simp at hone
  · intro hclear
    apply BitVec.eq_of_getLsbD_eq
    intro k _
    rw [BitVec.getLsbD_and, getLsbD_one_shiftLeft]
    by_cases hkj : k = j
    · subst hkj
      rw [hclear]
      simp
    · have hno : ¬ (k = j ∧ k < w) := fun h => hkj h.1
      rw [decide_eq_false hno, Bool.and_false]
      simp

/-- Two masks do not meet if they have no bit in common. -/
theorem and_eq_zero_iff {mask' : BitVec w} : mask &&& mask' = 0 ↔
    ∀ j, mask.getLsbD j = true → mask'.getLsbD j = false := by
  constructor
  · intro hzero j hset
    have hbit := congrArg (BitVec.getLsbD · j) hzero
    simpa only [BitVec.getLsbD_and, hset, Bool.true_and, BitVec.getLsbD_zero,
      BitVec.ofNat_eq_ofNat] using hbit
  · intro h
    apply BitVec.eq_of_getLsbD_eq
    intro j _
    rw [BitVec.getLsbD_and]
    cases hset : mask.getLsbD j with
    | false => simp
    | true => simp [h j hset]

end Bits

end Coht.Lib

/-!
## Rounding to multiples

Memory comes in granules of `g` bytes: pages, or the 64K steps of a window. An
address is rounded down to the granule it is in, the end of a range is rounded up, and
the two make the `Hull` of the range, the smallest row of whole granules that holds
it. `le_roundDown` and `roundUp_le` say what rounding is for; what else is needed
follows from them.
-/

namespace Coht.Lib

variable {g n m a start size : Nat}

/-- The last multiple of `g` up to `n`. -/
def roundDown (g n : Nat) : Nat := n - n % g

/-- The first multiple of `g` from `n` on. -/
def roundUp (g n : Nat) : Nat := n + padTo g n

theorem roundDown_eq : roundDown g n = g * (n / g) := by
  have hdiv := Nat.div_add_mod n g
  unfold roundDown
  omega

theorem dvd_roundDown : g ∣ roundDown g n := ⟨n / g, roundDown_eq⟩

theorem roundDown_le : roundDown g n ≤ n := Nat.sub_le _ _

theorem roundDown_add_mod : roundDown g n + n % g = n := by
  have hle := Nat.mod_le n g
  unfold roundDown
  omega

theorem le_roundDown (hm : g ∣ m) : m ≤ roundDown g n ↔ m ≤ n := by
  constructor
  · exact fun h => Nat.le_trans h roundDown_le
  · intro h
    have hmono : m / g ≤ n / g := Nat.div_le_div_right h
    rw [roundDown_eq, ← Nat.mul_div_cancel' hm]
    exact Nat.mul_le_mul_left g hmono

theorem roundUp_of_dvd (h : g ∣ n) : roundUp g n = n := by
  unfold roundUp padTo
  rw [Nat.mod_eq_zero_of_dvd h, Nat.sub_zero, Nat.mod_self, Nat.add_zero]

/-- What is no multiple is rounded up past what it is rounded down to. -/
theorem roundUp_of_not_dvd (hg : 0 < g) (h : ¬ g ∣ n) :
    roundUp g n = roundDown g n + g := by
  have hmod : 0 < n % g := Nat.pos_of_ne_zero fun hzero => h (Nat.dvd_of_mod_eq_zero hzero)
  have hsplit := @roundDown_add_mod g n
  have hlt := Nat.mod_lt n hg
  unfold roundUp padTo
  rw [Nat.mod_eq_of_lt (by omega)]
  omega

theorem dvd_roundUp (hg : 0 < g) : g ∣ roundUp g n := by
  by_cases h : g ∣ n
  · rwa [roundUp_of_dvd h]
  · rw [roundUp_of_not_dvd hg h]
    exact (Nat.dvd_add_right dvd_roundDown).mpr (Nat.dvd_refl g)

theorem le_roundUp : n ≤ roundUp g n := Nat.le_add_right _ _

theorem roundUp_lt (hg : 0 < g) : roundUp g n < n + g :=
  Nat.add_lt_add_left (padTo_lt hg n) n

theorem roundUp_le (hg : 0 < g) (hm : g ∣ m) : roundUp g n ≤ m ↔ n ≤ m := by
  constructor
  · exact fun h => Nat.le_trans le_roundUp h
  · intro h
    -- Between two multiples less than a granule apart there is none.
    have hlt := @roundUp_lt g n hg
    have hdvd : g ∣ roundUp g n - m := Nat.dvd_sub (dvd_roundUp hg) hm
    by_cases hle : roundUp g n ≤ m
    · exact hle
    · have hge := Nat.le_of_dvd (by omega) hdvd
      omega

/-- A multiple in front stays there. -/
theorem roundUp_add (hm : g ∣ m) : roundUp g (m + n) = m + roundUp g n := by
  have hpad : padTo g (m + n) = padTo g n := by
    rw [← padTo_mod_add, Nat.mod_eq_zero_of_dvd hm, Nat.zero_add]
  unfold roundUp
  rw [hpad, Nat.add_assoc]

/-! ### The hull of a range -/

/-- The smallest row of whole granules that holds the `n` bytes from `a` on. -/
structure Hull (g a n start size : Nat) : Prop where
  start_dvd : g ∣ start
  size_dvd : g ∣ size
  low : start ≤ a
  high : a + n ≤ start + size
  least : ∀ start' size', g ∣ start' → g ∣ size' → start' ≤ a → a + n ≤ start' + size' →
    size ≤ size'

/-- The hull, by its end. -/
theorem hull_end (hg : 0 < g) :
    Hull g a n (roundDown g a) (roundUp g (a + n) - roundDown g a) where
  start_dvd := dvd_roundDown
  size_dvd := Nat.dvd_sub (dvd_roundUp hg) dvd_roundDown
  low := roundDown_le
  high := by
    have hup := @le_roundUp g (a + n)
    have hdown := @roundDown_le g a
    omega
  least start' size' hstart hsize hlow hhigh := by
    have hdown := (le_roundDown hstart).mpr hlow
    have hup := (roundUp_le hg ((Nat.dvd_add_right hstart).mpr hsize)).mpr hhigh
    omega

/-- There is one hull. -/
theorem hull_iff (hg : 0 < g) : Hull g a n start size ↔
    start = roundDown g a ∧ size = roundUp g (a % g + n) := by
  have hsize : roundUp g (a + n) - roundDown g a = roundUp g (a % g + n) := by
    have hsplit : a + n = roundDown g a + (a % g + n) := by
      have := @roundDown_add_mod g a
      omega
    rw [hsplit, roundUp_add dvd_roundDown, Nat.add_sub_cancel_left]
  have hhull := @hull_end g n a hg
  constructor
  · intro h
    have hdown := (le_roundDown h.start_dvd).mpr h.low
    have hup := (roundUp_le hg ((Nat.dvd_add_right h.start_dvd).mpr h.size_dvd)).mpr h.high
    have hleast := h.least _ _ hhull.start_dvd hhull.size_dvd hhull.low hhull.high
    have hend := Nat.le_trans (Nat.le_trans (@roundDown_le g a) (Nat.le_add_right a n))
      (@le_roundUp g (a + n))
    rw [← hsize]
    omega
  · intro ⟨hstart, heq⟩
    rw [hstart, heq, ← hsize]
    exact hhull

end Coht.Lib

/-!
## Fields of a word

A field is a run of bits of a word. A value is put into it with a shift and a
mask, and several values are packed into one word by taking the bits of all of
them together. What is put into a field is read from it again if it fits; a
field that lies apart reads nothing of it.
-/

namespace Coht.Lib

structure Field where
  low : Nat
  len : Nat
  deriving DecidableEq

namespace Field

variable {w : Nat} (f : Field) {g : Field} {v x y : BitVec w} {k : Nat}

/-- The bits of a value that the field takes. -/
def ones (w : Nat) : BitVec w := (BitVec.allOnes f.len).setWidth w

def mask (w : Nat) : BitVec w := f.ones w <<< f.low

def put (v : BitVec w) : BitVec w := (v <<< f.low) &&& f.mask w

def get (x : BitVec w) : BitVec w := (x >>> f.low) &&& f.ones w

def Holds (v : BitVec w) : Prop := v.toNat < 2 ^ f.len

instance : Decidable (f.Holds v) := inferInstanceAs (Decidable (_ < _))

/-- No bit belongs to both. -/
def Apart (f g : Field) : Prop := f.low + f.len ≤ g.low ∨ g.low + g.len ≤ f.low

instance : Decidable (f.Apart g) := inferInstanceAs (Decidable (_ ∨ _))

theorem ones_bit : (f.ones w).getLsbD k = (decide (k < w) && decide (k < f.len)) := by
  unfold ones
  simp [BitVec.getLsbD_setWidth, BitVec.getLsbD_allOnes]

theorem get_bit : (f.get x).getLsbD k = (decide (k < f.len) && x.getLsbD (f.low + k)) := by
  unfold get
  rw [BitVec.getLsbD_and, BitVec.getLsbD_ushiftRight, ones_bit]
  by_cases hk : k < w
  · simp [hk, Bool.and_comm]
  · rw [BitVec.getLsbD_of_ge x _ (by omega)]
    simp

theorem put_bit : (f.put v).getLsbD k =
    (decide (k < w) && decide (f.low ≤ k) && decide (k < f.low + f.len) &&
      v.getLsbD (k - f.low)) := by
  unfold put mask
  rw [BitVec.getLsbD_and, BitVec.getLsbD_shiftLeft, BitVec.getLsbD_shiftLeft, ones_bit]
  by_cases hk : k < w
  · by_cases hlow : f.low ≤ k
    · have hlen : k - f.low < f.len ↔ k < f.low + f.len := by omega
      have hlt : k - f.low < w := by omega
      simp [hk, hlow, hlt, hlen, Nat.not_lt.mpr hlow, Bool.and_comm]
    · simp [hlow, Nat.lt_of_not_le hlow]
  · simp [hk]

/-- A field reads the parts of a packed word one by one. -/
theorem get_or : f.get (x ||| y) = f.get x ||| f.get y := by
  apply BitVec.eq_of_getLsbD_eq
  intro k hk
  rw [BitVec.getLsbD_or, get_bit, get_bit, get_bit, BitVec.getLsbD_or, Bool.and_or_distrib_left]

theorem holds_get : f.Holds (f.get x) := by
  unfold Holds
  apply Nat.lt_pow_two_of_testBit
  intro k hk
  rw [BitVec.testBit_toNat, get_bit]
  simp [Nat.not_lt.mpr hk]

/-- What fits is read back. -/
theorem get_put (hw : f.low + f.len ≤ w) (hv : f.Holds v) : f.get (f.put v) = v := by
  apply BitVec.eq_of_getLsbD_eq
  intro k hk
  rw [get_bit, put_bit, Nat.add_sub_cancel_left]
  by_cases hlen : k < f.len
  · have hlt : f.low + k < w := by omega
    simp [hlen, hlt]
  · have hout : v.getLsbD k = false := by
      rw [← BitVec.testBit_toNat]
      refine Nat.testBit_lt_two_pow (Nat.lt_of_lt_of_le hv ?_)
      exact Nat.pow_le_pow_right (by omega) (by omega)
    simp [hlen, hout]

theorem get_put_apart (h : f.Apart g) : f.get (g.put v) = 0#w := by
  apply BitVec.eq_of_getLsbD_eq
  intro k hk
  rw [get_bit, put_bit, BitVec.getLsbD_zero]
  rcases h with hbelow | habove
  · have hno : ¬ (k < f.len ∧ g.low ≤ f.low + k) := by omega
    by_cases hlen : k < f.len
    · have hlow : ¬ g.low ≤ f.low + k := fun hle => hno ⟨hlen, hle⟩
      simp [hlow]
    · simp [hlen]
  · have hover : ¬ f.low + k < g.low + g.len := by omega
    simp [hover]

end Field

end Coht.Lib
