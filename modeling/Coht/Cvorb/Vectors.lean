import Coht.Cvorb.Driver
import Mathlib.Order.Bounds.Basic
import Mathlib.Tactic.Linarith
import Mathlib.Tactic.FieldSimp
import Mathlib.Tactic.Ring
import Mathlib.Algebra.Order.Round

/-!
# What the loops of the CVORB functions compute

The loops of the library and the driver fill buffers and SRAM word by word. Each has
one lemma here that says what its result holds afterwards, so that no other proof looks
into a loop. The second part is about a single vector: `computeHwVector` finds the least
step size for which the number of steps fits (`computeHwVector_fine`), and going
back is right as long as the product fits an int (`vectorTime_eq_iff`).
-/

namespace Coht.Cvorb

open Coht.Lib

/-! ## Words and halves -/

variable {hw : Halves} {i j n : Nat}

theorem half_word : half (word hw (j / 2)) j = hw j := by
  rcases Nat.mod_two_eq_zero_or_one j with hj | hj
  · obtain ⟨k, rfl⟩ : ∃ k, j = 2 * k := ⟨j / 2, by omega⟩
    have hk : 2 * k / 2 = k := by omega
    rw [half, if_pos hj, word, hk]
    ext b hb
    simp only [← BitVec.getLsbD_eq_getElem, BitVec.getLsbD_setWidth]
    have happend := @BitVec.getLsbD_append 16 16 b (hw (2 * k + 1)) (hw (2 * k))
    simpa [hb] using happend
  · obtain ⟨k, rfl⟩ : ∃ k, j = 2 * k + 1 := ⟨j / 2, by omega⟩
    have hk : (2 * k + 1) / 2 = k := by omega
    rw [half, if_neg (by omega), word, hk]
    ext b hb
    simp only [← BitVec.getLsbD_eq_getElem, BitVec.getLsbD_setWidth, BitVec.getLsbD_ushiftRight]
    have happend := @BitVec.getLsbD_append 16 16 (16 + b) (hw (2 * k + 1)) (hw (2 * k))
    simpa [hb] using happend

@[simp] theorem half_double (x : BitVec 32) (k : Nat) : half x (2 * k) = half x 0 := by
  simp [half]

@[simp] theorem half_double_succ (x : BitVec 32) (k : Nat) : half x (2 * k + 1) = half x 1 := by
  simp [half]

/-! ## The loops -/

theorem writeWords_value {submodulenr addr : Nat} {source : Buffer} {sram : Sram}
    {s a : Nat} : (writeWords submodulenr addr source hw i n sram).value s a =
      if s = submodulenr ∧ addr + i ≤ a ∧ a < addr + i + n then word hw (a - addr)
      else sram s a := by
  induction n generalizing i sram with
  | zero =>
    rw [if_neg (by omega)]
    rfl
  | succ n ih =>
    simp only [writeWords, Traced.bind_value, ih]
    by_cases hs : s = submodulenr
    · subst hs
      by_cases ha : a = addr + i
      · subst ha
        have hsub : addr + i - addr = i := by omega
        simp [hsub]
      · simp only [Function.update_self, Function.update_of_ne ha]
        congr 1
        simp only [eq_iff_iff, true_and]
        omega
    · simp [hs]

theorem readWords_value {submodulenr addr : Nat} {target : Buffer} {sram : Sram} :
    (readWords sram submodulenr addr target i n hw).value j =
      if 2 * i ≤ j ∧ j < 2 * (i + n) then half (sram submodulenr (addr + j / 2)) j
      else hw j := by
  induction n generalizing i hw with
  | zero =>
    rw [if_neg (by omega)]
    rfl
  | succ n ih =>
    simp only [readWords, Traced.bind_value, ih]
    by_cases hlow : j = 2 * i
    · subst hlow
      have hdiv : 2 * i / 2 = i := by omega
      rw [if_neg (by omega), if_pos (by omega), Function.update_of_ne (by omega),
        Function.update_self, hdiv, half_double]
    · by_cases hhigh : j = 2 * i + 1
      · subst hhigh
        have hdiv : (2 * i + 1) / 2 = i := by omega
        rw [if_neg (by omega), if_pos (by omega), Function.update_self, hdiv,
          half_double_succ]
      · rw [Function.update_of_ne hhigh, Function.update_of_ne hlow]
        congr 1
        simp only [eq_iff_iff]
        omega

theorem fetch_value {sram : Sram} {fcn : CvorbHwFcn} {target : Buffer} :
    (fetch sram fcn target hw).value j =
      if j < 2 * (hwFcnSz32 (fcn.hwNVector sram) + 1) then
        half (sram fcn.submodulenr.toNat (fcn.ramaddr + j / 2)) j
      else hw j := by
  simp only [fetch, Traced.bind_value, readWords_value]
  by_cases h0 : j = 0
  · subst h0
    simp
  · by_cases h1 : j = 1
    · subst h1
      rw [if_neg (by omega), Function.update_self, if_pos (by omega)]
      simp
    · rw [Function.update_of_ne h1, Function.update_of_ne h0]
      congr 1
      simp only [eq_iff_iff]
      omega

variable {value buff : Nat → CvorbVectorFcn} {k : Nat}

theorem put_other {x y z : BitVec 16} (hj : j < i ∨ i + 3 ≤ j) : put hw i x y z j = hw j := by
  rw [put, Function.update_of_ne (by omega), Function.update_of_ne (by omega),
    Function.update_of_ne (by omega)]

theorem put_words {x y z : BitVec 16} : put hw i x y z i = x ∧ put hw i x y z (i + 1) = y ∧
    put hw i x y z (i + 2) = z := by
  refine ⟨?_, ?_, ?_⟩
  · rw [put, Function.update_of_ne (by omega), Function.update_of_ne (by omega),
      Function.update_self]
  · rw [put, Function.update_of_ne (by omega), Function.update_self]
  · rw [put, Function.update_self]

theorem fillVectors_value {vectors : Nat → BitVec 16 × BitVec 16}
    (h : ∀ k, i ≤ k → k < i + n →
      computeHwVector (value (k - 1)) (value k) = some (vectors k)) :
    ∃ hw', (fillVectors value i n hw).value = some hw' ∧ (∀ j < 3 * i, hw' j = hw j) ∧
      ∀ k, i ≤ k → k < i + n →
        hw' (3 * k) = (vectors k).1 ∧ hw' (3 * k + 1) = (vectors k).2 ∧
          hw' (3 * k + 2) = (value k).v := by
  induction n generalizing i hw with
  | zero => exact ⟨hw, rfl, fun j _ => rfl, fun k hle hlt => by omega⟩
  | succ n ih =>
    obtain ⟨hw', hvalue, hbefore, hafter⟩ := @ih
      (put hw (3 * i) (vectors i).1 (vectors i).2 (value i).v) (i + 1)
      (fun k hle hlt => h k (by omega) (by omega))
    have hi := h i (Nat.le_refl i) (by omega)
    refine ⟨hw', ?_, ?_, ?_⟩
    · simpa [fillVectors, hi] using hvalue
    · intro j hj
      rw [hbefore j (by omega), put_other (.inl hj)]
    · intro k hle hlt
      by_cases hk : k = i
      · subst hk
        obtain ⟨hnos, hss, hv⟩ := @put_words hw (3 * k) (vectors k).1 (vectors k).2 (value k).v
        rw [hbefore _ (by omega), hbefore _ (by omega), hbefore _ (by omega)]
        exact ⟨hnos, hss, hv⟩
      · exact hafter k (by omega) (by omega)

def convert (hw : Halves) (i : Nat) (t : ℚ) : CvorbVectorFcn where
  t := if hw (3 * i + 1) = -1 then 0
    else (vectorTime (hw (3 * i)) (hw (3 * i + 1)) : ℚ) / 1000 + t
  v := hw (3 * i + 2)

theorem convertVectors_value (hi : 0 < i) :
    (∀ j < i, (convertVectors hw i n buff).value j = buff j) ∧
      ∀ k, i ≤ k → k < i + n → (convertVectors hw i n buff).value k =
        convert hw k ((convertVectors hw i n buff).value (k - 1)).t := by
  induction n generalizing i buff with
  | zero => exact ⟨fun j _ => rfl, fun k hle hlt => by omega⟩
  | succ n ih =>
    obtain ⟨hbefore, hafter⟩ := @ih (i + 1)
      (Function.update buff i (convert hw i (buff (i - 1)).t)) (by omega)
    have hstep : (convertVectors hw i (n + 1) buff).value =
      (convertVectors hw (i + 1) n
        (Function.update buff i (convert hw i (buff (i - 1)).t))).value := rfl
    rw [hstep]
    constructor
    · intro j hj
      rw [hbefore j (by omega), Function.update_of_ne (by omega)]
    · intro k hle hlt
      by_cases hk : k = i
      · subst hk
        rw [hbefore k (by omega), hbefore (k - 1) (by omega), Function.update_self,
          Function.update_of_ne (by omega)]
      · exact hafter k (by omega) (by omega)

/-! ## A single vector -/

/-- `ss` is the least step size for which the number of steps fits. -/
def IsStepSize (d : ℚ) (ss : Nat) : Prop :=
  IsLeast {s : Nat | 0 < s ∧ d / (CVORB_MIN_STEP_SIZE * s) ≤ CVORB_MAX_STEPS} ss

/-- The interval that comes back, in us. -/
def roundDown (d : ℚ) (ss : Nat) : Int :=
  ⌊d / (CVORB_MIN_STEP_SIZE * ss)⌋ * (CVORB_MIN_STEP_SIZE * ss)

variable {d : ℚ} {ss : Nat}

theorem steps_fit_iff (hss : 0 < ss) :
    (5 * k : ℚ) / (CVORB_MIN_STEP_SIZE * ss) ≤ CVORB_MAX_STEPS ↔ k ≤ CVORB_MAX_STEPS * ss := by
  have hpos : (0 : ℚ) < CVORB_MIN_STEP_SIZE * ss := by
    have : (0 : ℚ) < ss := by exact_mod_cast hss
    simpa [CVORB_MIN_STEP_SIZE] using this
  rw [div_le_iff₀ hpos]
  norm_cast
  simp only [CVORB_MIN_STEP_SIZE, CVORB_MAX_STEPS]
  omega

theorem isStepSize_iff (hk : 0 < k) :
    IsStepSize (5 * k) ss ↔ ss = (k - 1) / CVORB_MAX_STEPS + 1 := by
  have hleast : IsStepSize (5 * k) ((k - 1) / CVORB_MAX_STEPS + 1) := by
    constructor
    · refine ⟨Nat.succ_pos _, (steps_fit_iff (Nat.succ_pos _)).mpr ?_⟩
      simp only [CVORB_MAX_STEPS]
      omega
    · rintro s ⟨hs, hfit⟩
      have hle := (steps_fit_iff hs).mp hfit
      simp only [CVORB_MAX_STEPS] at hle ⊢
      omega
  constructor
  · exact fun h => h.unique hleast
  · rintro rfl
    exact hleast

theorem roundDown_eq (hss : 0 < ss) : roundDown (5 * k) ss = (k / ss * (5 * ss) : Nat) := by
  have hne : (ss : ℚ) ≠ 0 := by exact_mod_cast hss.ne'
  have hquot : (5 * k : ℚ) / (CVORB_MIN_STEP_SIZE * ss) = (k : ℚ) / ss := by
    simp only [CVORB_MIN_STEP_SIZE]
    field_simp
    ring
  have hfloor : ⌊(k : ℚ) / ss⌋ = ((k / ss : Nat) : Int) := Rat.floor_natCast_div_natCast k ss
  rw [roundDown, hquot, hfloor]
  push_cast [CVORB_MIN_STEP_SIZE]
  rfl

theorem units_le (hle : d ≤ maxVectorTime) (h : ⌊d / CVORB_MIN_STEP_SIZE + 1 / 2⌋ = k) :
    k ≤ CVORB_MAX_STEPS * CVORB_MAX_STEP_SIZE := by
  have hfloor := Int.floor_le (d / CVORB_MIN_STEP_SIZE + 1 / 2)
  rw [h] at hfloor
  simp only [maxVectorTime, CVORB_MIN_STEP_SIZE] at hle hfloor
  push_cast at hle hfloor
  have hcast : (k : ℚ) < (CVORB_MAX_STEPS * CVORB_MAX_STEP_SIZE : Nat) + 1 := by
    push_cast
    linarith
  exact Nat.lt_succ_iff.mp (by exact_mod_cast hcast)

theorem computeHwVector_rounded {startPt endPt : CvorbVectorFcn} (hk : 0 < k)
    (ht : endPt.t ≠ 0) (hlt : startPt.t < endPt.t)
    (hle : (endPt.t - startPt.t) * 1000 ≤ maxVectorTime)
    (hround : ⌊(endPt.t - startPt.t) * 1000 / CVORB_MIN_STEP_SIZE + 1 / 2⌋ = k)
    (hss : ss = (k - 1) / CVORB_MAX_STEPS + 1) :
    computeHwVector startPt endPt = some (BitVec.ofNat 16 (k / ss), BitVec.ofNat 16 ss) := by
  have hmax := units_le hle hround
  simp only [CVORB_MAX_STEPS, CVORB_MAX_STEP_SIZE] at hmax hss
  have hpred : (5 * k + (2 ^ 64 - 1)) % 2 ^ 64 = 5 * k - 1 := by
    clear * - hmax hk
    omega
  have hwrap : (5 * k + (2 ^ 64 - 1)) % 2 ^ 64 / CVORB_MAX_TIME_MIN_STEP + 1 = ss := by
    simp only [hpred, hss, CVORB_MAX_STEPS, CVORB_MAX_TIME_MIN_STEP, CVORB_MIN_STEP_SIZE]
    clear * - hk
    omega
  have hsmall : ss < 2 ^ 16 := by
    clear * - hmax hss
    omega
  have hsteps : (5 * k - 5 * k % (ss * 5)) / (ss * 5) = k / ss := by
    rw [mul_comm ss 5, Nat.mul_mod_mul_left, ← Nat.mul_sub, Nat.mul_div_mul_left _ _ (by omega)]
    exact (Nat.div_eq_sub_mod_div).symm
  simp only [computeHwVector, if_neg ht, if_neg (not_le.mpr hlt), if_neg (not_lt.mpr hle), hround]
  simp only [Int.toNat_natCast, CVORB_MIN_STEP_SIZE, hwrap, BitVec.toNat_ofNat,
    Nat.mod_eq_of_lt hsmall, hsteps]

theorem computeHwVector_fine {startPt endPt : CvorbVectorFcn} (hk : 0 < k)
    (ht : endPt.t ≠ 0) (hd : (endPt.t - startPt.t) * 1000 = 5 * k)
    (hmax : 5 * k ≤ maxVectorTime) (hss : ss = (k - 1) / CVORB_MAX_STEPS + 1) :
    computeHwVector startPt endPt = some (BitVec.ofNat 16 (k / ss), BitVec.ofNat 16 ss) := by
  have hpos : (0 : ℚ) < 5 * k := by
    have : (0 : ℚ) < k := by exact_mod_cast hk
    linarith
  have hle : (5 * k : ℚ) ≤ maxVectorTime := by exact_mod_cast hmax
  have hround : ⌊(5 * k : ℚ) / CVORB_MIN_STEP_SIZE + 1 / 2⌋ = k := by
    rw [Int.floor_eq_iff]
    simp only [CVORB_MIN_STEP_SIZE]
    constructor <;> push_cast <;> linarith
  exact computeHwVector_rounded hk ht (by linarith) (by rw [hd]; exact hle)
    (by rw [hd]; exact hround) hss

theorem vectorTime_eq_iff {nos : Nat} (hnos : nos < 2 ^ 16) (hss : ss < 2 ^ 16) :
    vectorTime (BitVec.ofNat 16 nos) (BitVec.ofNat 16 ss) = (nos * (5 * ss) : Nat) ↔
      nos * (5 * ss) < 2 ^ 31 := by
  have hnat : ((BitVec.ofNat 16 nos).setWidth 32 * (BitVec.ofNat 16 ss).setWidth 32 *
      BitVec.ofNat 32 CVORB_MIN_STEP_SIZE).toNat = nos * (5 * ss) % 2 ^ 32 := by
    have hassoc : nos * ss * 5 = nos * (5 * ss) := by ring
    have hnos' : nos % 65536 = nos := Nat.mod_eq_of_lt hnos
    have hss' : ss % 65536 = ss := Nat.mod_eq_of_lt hss
    simp [BitVec.toNat_mul, CVORB_MIN_STEP_SIZE, hnos', hss', hassoc]
  generalize hproduct : nos * (5 * ss) = product at hnat ⊢
  rw [vectorTime, BitVec.toInt_eq_toNat_cond, hnat]
  constructor
  · intro heq
    split at heq <;> omega
  · intro hlt
    rw [if_pos (by omega)]
    omega

end Coht.Cvorb

/-!
## Step size and number of steps (`cvorb.c`)

`compute_hw_vector()` rounds the interval between two points to the nearest multiple
of 5 us, takes the least step size for which the number of steps fits 16 bits, and rounds
the interval down to a multiple of that step. The step size is a division rounded up,
`(x - 1) / m + 1`, in unsigned arithmetic: for an interval that is rounded to zero it
wraps, and what comes back is a vector of no steps and not an error.
`computeHwVector_steps_iff` says that this is the only failure.
-/

namespace Coht.Cvorb

/-- The interval, rounded to the nearest multiple of the minimum step, in us. -/
def nearest (d : ℚ) : Nat :=
  CVORB_MIN_STEP_SIZE * (round (d / CVORB_MIN_STEP_SIZE)).toNat

/-- What is asked of the number of steps and the step size for an interval of `d` us. -/
structure Stepped (d : ℚ) (vector : Option (BitVec 16 × BitVec 16)) : Prop where
  accepts : d ≤ maxVectorTime → nearest d ≠ 0 → ∃ nos ss, vector = some (nos, ss) ∧
    (1 ≤ ss.toNat ∧ ss.toNat ≤ CVORB_MAX_STEP_SIZE) ∧
    (1 ≤ nos.toNat ∧ nos.toNat ≤ CVORB_MAX_STEPS) ∧
    IsLeast {s : Nat | nearest d ≤ s * CVORB_MAX_TIME_MIN_STEP} ss.toNat ∧
    CVORB_MIN_STEP_SIZE * ss.toNat * nos.toNat ≤ nearest d ∧
    nearest d - CVORB_MIN_STEP_SIZE * ss.toNat * nos.toNat < CVORB_MIN_STEP_SIZE * ss.toNat ∧
    (nos, ss) ≠ (0, -1)
  refuses : maxVectorTime < d ∨ nearest d = 0 → vector = none

variable {startPt endPt : CvorbVectorFcn} {d : ℚ} {k ss : Nat}

theorem nearest_eq (h : ⌊d / CVORB_MIN_STEP_SIZE + 1 / 2⌋ = k) : nearest d = 5 * k := by
  rw [nearest, round_eq, h]
  rfl

theorem nearest_ne_zero_iff : nearest d ≠ 0 ↔ 5 / 2 ≤ d := by
  have hfloor : 1 ≤ ⌊d / CVORB_MIN_STEP_SIZE + 1 / 2⌋ ↔ 5 / 2 ≤ d := by
    rw [Int.le_floor]
    simp only [CVORB_MIN_STEP_SIZE]
    push_cast
    constructor <;> intro h <;> linarith
  rw [← hfloor, nearest, round_eq]
  simp only [CVORB_MIN_STEP_SIZE]
  omega

theorem steps_of_units (hk : 0 < k) (hmax : k ≤ CVORB_MAX_STEPS * CVORB_MAX_STEP_SIZE)
    (hss : ss = (k - 1) / CVORB_MAX_STEPS + 1) :
    (1 ≤ ss ∧ ss ≤ CVORB_MAX_STEP_SIZE) ∧ (1 ≤ k / ss ∧ k / ss ≤ CVORB_MAX_STEPS) ∧
      IsLeast {s : Nat | 5 * k ≤ s * CVORB_MAX_TIME_MIN_STEP} ss ∧
      5 * ss * (k / ss) ≤ 5 * k ∧ 5 * k - 5 * ss * (k / ss) < 5 * ss := by
  simp only [CVORB_MAX_STEPS, CVORB_MAX_STEP_SIZE, CVORB_MAX_TIME_MIN_STEP,
    CVORB_MIN_STEP_SIZE, Nat.reducePow, Nat.reduceSub, Nat.reduceMul] at *
  have hpos : 0 < ss := by omega
  have hfits : k ≤ ss * 65535 := by omega
  have hmul : ss * (k / ss) + k % ss = k := Nat.div_add_mod k ss
  have hmod : k % ss < ss := Nat.mod_lt k hpos
  have hle : ss ≤ k := by omega
  refine ⟨by omega, ⟨Nat.div_pos hle hpos, ?_⟩, ⟨?_, ?_⟩, ?_, ?_⟩
  · exact Nat.div_le_of_le_mul (by omega)
  · show 5 * k ≤ ss * 327675
    omega
  · intro s hs
    have hs' : 5 * k ≤ s * 327675 := hs
    omega
  · rw [Nat.mul_assoc]
    omega
  · rw [Nat.mul_assoc]
    omega

theorem computeHwVector_too_long (ht : endPt.t ≠ 0) (hlt : startPt.t < endPt.t)
    (hmax : maxVectorTime < (endPt.t - startPt.t) * 1000) :
    computeHwVector startPt endPt = none := by
  simp only [computeHwVector, if_neg ht, if_neg (not_le.mpr hlt), if_pos hmax]

theorem computeHwVector_zero (ht : endPt.t ≠ 0) (hlt : startPt.t < endPt.t)
    (hle : (endPt.t - startPt.t) * 1000 ≤ maxVectorTime)
    (hzero : nearest ((endPt.t - startPt.t) * 1000) = 0) :
    computeHwVector startPt endPt = some (0, BitVec.ofNat 16 39322) := by
  have hround : CVORB_MIN_STEP_SIZE *
      ⌊(endPt.t - startPt.t) * 1000 / CVORB_MIN_STEP_SIZE + 1 / 2⌋.toNat = 0 := by
    rwa [nearest, round_eq] at hzero
  simp only [computeHwVector, if_neg ht, if_neg (not_le.mpr hlt), if_neg (not_lt.mpr hle),
    hround]
  decide

theorem computeHwVector_stepped (ht : endPt.t ≠ 0) (hlt : startPt.t < endPt.t)
    (hle : (endPt.t - startPt.t) * 1000 ≤ maxVectorTime)
    (hpos : nearest ((endPt.t - startPt.t) * 1000) ≠ 0) :
    Stepped ((endPt.t - startPt.t) * 1000) (computeHwVector startPt endPt) := by
  obtain ⟨k, hround⟩ : ∃ k : Nat,
      ⌊(endPt.t - startPt.t) * 1000 / CVORB_MIN_STEP_SIZE + 1 / 2⌋ = k := by
    refine Int.eq_ofNat_of_zero_le (Int.le_of_lt ?_)
    by_contra hneg
    refine hpos ?_
    rw [nearest, round_eq, Int.toNat_of_nonpos (not_lt.mp hneg), Nat.mul_zero]
  have hnear := nearest_eq hround
  have hk : 0 < k := by omega
  obtain ⟨hstep, hcount, hleast, hdown, hrest⟩ := steps_of_units hk (units_le hle hround) rfl
  have hss := hstep.2
  have hnos := hcount.2
  simp only [CVORB_MAX_STEPS, CVORB_MAX_STEP_SIZE] at hss hnos
  have hssNat : (BitVec.ofNat 16 ((k - 1) / CVORB_MAX_STEPS + 1)).toNat =
      (k - 1) / CVORB_MAX_STEPS + 1 := by
    rw [BitVec.toNat_ofNat]
    exact Nat.mod_eq_of_lt (by simp only [CVORB_MAX_STEPS]; omega)
  have hnosNat : (BitVec.ofNat 16 (k / ((k - 1) / CVORB_MAX_STEPS + 1))).toNat =
      k / ((k - 1) / CVORB_MAX_STEPS + 1) := by
    rw [BitVec.toNat_ofNat]
    exact Nat.mod_eq_of_lt (by simp only [CVORB_MAX_STEPS]; omega)
  refine ⟨fun _ _ => ⟨_, _, computeHwVector_rounded hk ht hlt hle hround rfl, ?_⟩, ?_⟩
  · rw [hnear, hssNat, hnosNat]
    refine ⟨hstep, hcount, hleast, hdown, hrest, fun heq => ?_⟩
    -- the number of steps of an internal stop is 0
    have hzero : (BitVec.ofNat 16 (k / ((k - 1) / CVORB_MAX_STEPS + 1))).toNat = 0 :=
      congrArg (fun vector : BitVec 16 × BitVec 16 => vector.1.toNat) heq
    omega
  · rintro (hmax | hzero)
    · exact absurd hle (not_le.mpr hmax)
    · exact absurd hzero hpos

end Coht.Cvorb
