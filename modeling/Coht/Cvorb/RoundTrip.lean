import Coht.Cvorb.Transfer

/-!
# A function that is stored and loaded

A function survives a store and a load exactly if each of its intervals fits an int in
microseconds, which the conversion back needs, and the store covers the words of the
function: by ioctl it does, through sysfs only if the driver's stack happens to hold a
size that is large enough (`survives_iff`).
-/

namespace Coht.Cvorb

open Coht.Lib

variable {transport : Transport} {o o' : Outcomes} {sram sram' : Sram} {chnr fcnnr : Nat}
  {value buff buff' : Nat → CvorbVectorFcn} {user : Halves} {fcn : CvorbHwFcn}
  {i j n sz32 fcnSz : Nat} {stray : BitVec 16}

/-- A legal table: times are multiples of 5 us, and each is 0, an internal stop, or exceeds
the one before by at most the maximum. -/
structure Table (value : Nat → CvorbVectorFcn) (n : Nat) : Prop where
  two : 2 ≤ n
  fits : n ≤ CVORB_MAX_VECTOR
  first : (value 0).t = 0
  fine : ∀ i < n, ∃ k : Int, (value i).t * 1000 = CVORB_MIN_STEP_SIZE * k
  later : ∀ i, 0 < i → i < n → (value i).t = 0 ∨
    (value (i - 1)).t < (value i).t ∧
      ((value i).t - (value (i - 1)).t) * 1000 ≤ maxVectorTime

/-- The requested interval, in us. -/
def interval (value : Nat → CvorbVectorFcn) (i : Nat) : ℚ :=
  ((value i).t - (value (i - 1)).t) * 1000

/-- What is asked of a function that is stored and loaded. -/
structure RoundTrip (value : Nat → CvorbVectorFcn) (n fcnSz : Nat)
    (buff : Nat → CvorbVectorFcn) : Prop where
  size : fcnSz = n
  amplitudes : ∀ i < n, (buff i).v = (value i).v
  stops : ∀ i < n, (value i).t = 0 → (buff i).t = 0
  times : ∀ i, 0 < i → i < n → (value i).t ≠ 0 → ∃ ss, IsStepSize (interval value i) ss ∧
    (buff i).t = (buff (i - 1)).t + roundDown (interval value i) ss / 1000

/-- Every run that stores the function and loads it again, both without an error, gives
it back, whatever the SRAM held before. -/
def Survives (transport : Transport) (stray : BitVec 16) (chnr fcnnr : Nat)
    (value : Nat → CvorbVectorFcn) (n : Nat) : Prop :=
  ∀ (o o' : Outcomes) (sram sram' : Sram) (buff buff' : Nat → CvorbVectorFcn) (fcnSz : Nat),
    o.stray = stray →
    (cvorbChSetFcn transport o sram chnr fcnnr value (BitVec.ofNat 32 n)).value = (0, sram') →
    (cvorbChGetFcn transport o' sram' chnr fcnnr buff (BitVec.ofNat 32 n)).value =
      .ok (fcnSz, buff') →
    RoundTrip value n fcnSz buff'

/-- The intervals that are no stops come to less than `2 ^ 31` us. -/
def Short (value : Nat → CvorbVectorFcn) (n : Nat) : Prop :=
  ∀ i, 0 < i → i < n → (value i).t ≠ 0 → ∀ ss, IsStepSize (interval value i) ss →
    roundDown (interval value i) ss < 2 ^ 31

/-- The 32-bit words with a header and `nVtr` vectors in them. -/
def usedWords (nVtr : Nat) : Nat := (3 + 3 * nVtr + 1) / 2

/-- A store covers the words that a load uses. -/
def Covered (transport : Transport) (stray : BitVec 16) (n : Nat) : Prop :=
  transport = .sysfs → usedWords (n - 1) ≤ stray.toNat

/-! ## The table of the hardware -/

theorem Table.start (h : Table value n) (hi : i < n) : 0 ≤ (value i).t := by
  induction i with
  | zero => rw [h.first]
  | succ i ih =>
    rcases h.later (i + 1) (Nat.succ_pos i) hi with hzero | ⟨hlt, -⟩
    · rw [hzero]
    · exact (ih (by omega)).trans hlt.le

theorem Table.steps (h : Table value n) (hi : 0 < i) (hlt : i < n) (ht : (value i).t ≠ 0) :
    ∃ k : Nat, 0 < k ∧ interval value i = 5 * k ∧ 5 * k ≤ maxVectorTime := by
  obtain ⟨a, ha⟩ := h.fine i hlt
  obtain ⟨b, hb⟩ := h.fine (i - 1) (by omega)
  obtain hzero | ⟨hgt, hmax⟩ := h.later i hi hlt
  · exact absurd hzero ht
  · simp only [CVORB_MIN_STEP_SIZE, Nat.cast_ofNat] at ha hb
    have hd : interval value i = 5 * (a - b : Int) := by
      rw [interval]
      push_cast
      linarith
    have hpos : (0 : ℚ) < (a - b : Int) := by
      have hinterval : 0 < interval value i := by
        rw [interval]
        linarith
      linarith
    have hlt : 0 < a - b := by exact_mod_cast hpos
    have hcast : (((a - b).toNat : Int) : ℚ) = (a - b : Int) := by
      rw [Int.toNat_of_nonneg hlt.le]
    refine ⟨(a - b).toNat, by omega, ?_, ?_⟩
    · rw [hd, ← hcast]
      rfl
    · have hle : interval value i ≤ maxVectorTime := hmax
      rw [hd, ← hcast] at hle
      exact_mod_cast hle

theorem Table.vector (h : Table value n) (hi : 0 < i) (hlt : i < n) (ht : (value i).t ≠ 0) :
    ∃ nos ss : Nat, nos < 2 ^ 16 ∧ ss < 2 ^ 15 ∧
      computeHwVector (value (i - 1)) (value i) =
        some (BitVec.ofNat 16 nos, BitVec.ofNat 16 ss) ∧
      IsStepSize (interval value i) ss ∧
      roundDown (interval value i) ss = (nos * (5 * ss) : Nat) := by
  obtain ⟨k, hk, hd, hmax⟩ := h.steps hi hlt ht
  obtain ⟨ss, hss⟩ : ∃ ss, ss = (k - 1) / CVORB_MAX_STEPS + 1 := ⟨_, rfl⟩
  have hpos : 0 < ss := hss ▸ Nat.succ_pos _
  refine ⟨k / ss, ss, ?_, ?_, computeHwVector_fine hk ht hd hmax hss, ?_, ?_⟩
  · rw [Nat.div_lt_iff_lt_mul hpos]
    simp only [CVORB_MAX_STEPS] at hss
    omega
  · simp only [maxVectorTime, CVORB_MAX_STEPS, CVORB_MAX_STEP_SIZE, CVORB_MIN_STEP_SIZE]
      at hss hmax
    omega
  · rw [hd, isStepSize_iff hk]
    exact hss
  · rw [hd, roundDown_eq hpos]

structure Filled (value : Nat → CvorbVectorFcn) (n : Nat) (hw : Halves) : Prop where
  size : hw 0 = BitVec.ofNat 16 (n - 1)
  unused : hw 1 = 0
  first : hw 2 = (value 0).v
  vectors : ∀ i, 0 < i → i < n →
    computeHwVector (value (i - 1)) (value i) = some (hw (3 * i), hw (3 * i + 1)) ∧
      hw (3 * i + 2) = (value i).v

theorem Table.filled (h : Table value n) :
    ∃ user, (fillVectors value 1 (n - 1)
      (put (fun _ => 0) 0 (BitVec.ofNat 16 (n - 1)) 0 (value 0).v)).value = some user ∧
      Filled value n user := by
  have hlegal : ∀ i, 1 ≤ i → i < 1 + (n - 1) → computeHwVector (value (i - 1)) (value i) =
      some ((computeHwVector (value (i - 1)) (value i)).getD 0) := by
    intro i hi hlt
    by_cases ht : (value i).t = 0
    · simp [computeHwVector, ht]
    · obtain ⟨nos, ss, -, -, hvector, -⟩ := h.vector hi (by omega) ht
      simp [hvector]
  obtain ⟨user, hvalue, hbefore, hafter⟩ := fillVectors_value hlegal
  obtain ⟨hsize, hunused, hfirst⟩ :=
    @put_words (fun _ => 0) 0 (BitVec.ofNat 16 (n - 1)) 0 (value 0).v
  refine ⟨user, hvalue, ?_, ?_, ?_, ?_⟩
  · rw [hbefore 0 (by omega), hsize]
  · rw [hbefore 1 (by omega)]
    exact hunused
  · rw [hbefore 2 (by omega)]
    exact hfirst
  · intro i hi hlt
    obtain ⟨hnos, hss, hv⟩ := hafter i hi (by omega)
    refine ⟨?_, hv⟩
    rw [hnos, hss]
    exact hlegal i hi (by omega)

/-! ## The way through the SRAM -/

variable {m : Nat} {hw : Halves}

theorem hwNVector_laid (hm : 0 < m) (hsize : hw 0 = BitVec.ofNat 16 n) (hunused : hw 1 = 0)
    (hle : n < CVORB_MAX_VECTOR) : fcn.hwNVector (laid sram fcn m hw) = n := by
  have hword : word hw 0 = (0 : BitVec 16) ++ BitVec.ofNat 16 n := by
    simp [word, hsize, hunused]
  rw [CvorbHwFcn.hwNVector, laid, if_pos ⟨rfl, le_refl _, by omega⟩, Nat.sub_self, hword]
  simp only [CVORB_MAX_VECTOR] at hle
  have happend := @BitVec.toNat_append 16 16 0 (BitVec.ofNat 16 n)
  refine happend.trans ?_
  simp only [BitVec.ofNat_eq_ofNat, BitVec.toNat_ofNat, Nat.zero_mod, Nat.zero_shiftLeft,
    Nat.zero_or]
  omega

theorem loaded_laid (hm : j / 2 < m)
    (hj : j < 2 * hwFcnSz32 (fcn.hwNVector (laid sram fcn m hw))) :
    loaded (laid sram fcn m hw) fcn j = hw j := by
  have hinside : fcn.submodulenr.toNat = fcn.submodulenr.toNat ∧
      fcn.ramaddr ≤ fcn.ramaddr + j / 2 ∧ fcn.ramaddr + j / 2 < fcn.ramaddr + m :=
    ⟨rfl, by omega, by omega⟩
  rw [loaded, if_pos hj, laid, if_pos hinside, Nat.add_sub_cancel_left, half_word]

theorem converted_value : converted buff hw n 0 = { t := 0, v := hw 2 } ∧
    ∀ k, 0 < k → k < n + 1 →
      converted buff hw n k = convert hw k (converted buff hw n (k - 1)).t := by
  obtain ⟨hbefore, hafter⟩ := @convertVectors_value hw 1 n
    (Function.update buff 0 { t := 0, v := hw 2 }) Nat.one_pos
  refine ⟨?_, fun k hk hlt => hafter k hk (by omega)⟩
  rw [converted, hbefore 0 Nat.one_pos, Function.update_self]

theorem used_le (hj : j < 3 + 3 * n) : j / 2 < usedWords n ∧ j < 2 * hwFcnSz32 n := by
  rw [usedWords, hwFcnSz32, sz16_eq]
  omega

theorem converted_filled {hw' : Halves} (hfilled : Filled value n hw) (hn : 2 ≤ n)
    (hsame : ∀ j < 3 + 3 * (n - 1), hw' j = hw j) (hi : 0 < i) (hlt : i < n) :
    (converted buff hw' (n - 1) i).v = (value i).v ∧
      ∀ nos ss, computeHwVector (value (i - 1)) (value i) = some (nos, ss) →
        (converted buff hw' (n - 1) i).t = if ss = -1 then 0
          else (vectorTime nos ss : ℚ) / 1000 + (converted buff hw' (n - 1) (i - 1)).t := by
  obtain ⟨-, hvectors⟩ := @converted_value buff (n - 1) hw'
  obtain ⟨hvector, hv⟩ := hfilled.vectors i hi hlt
  rw [hvectors i hi (by omega)]
  simp only [convert, hsame (3 * i) (by omega), hsame (3 * i + 1) (by omega),
    hsame (3 * i + 2) (by omega)]
  refine ⟨hv, ?_⟩
  intro nos ss hcompute
  rw [hvector] at hcompute
  obtain ⟨hnos, hss⟩ := Prod.mk.inj (Option.some.inj hcompute)
  rw [hnos, hss]

theorem ofNat_ne_stop {ss : Nat} (hss : ss < 2 ^ 15) : BitVec.ofNat 16 ss ≠ -1 := by
  intro heq
  have hnat := congrArg BitVec.toNat heq
  simp only [BitVec.toNat_ofNat, BitVec.reduceNeg] at hnat
  omega

theorem time_iff {hw' : Halves} {ss : Nat} (htable : Table value n) (hfilled : Filled value n hw)
    (hsame : ∀ j < 3 + 3 * (n - 1), hw' j = hw j) (hi : 0 < i) (hlt : i < n)
    (ht : (value i).t ≠ 0) (hss : IsStepSize (interval value i) ss) :
    (converted buff hw' (n - 1) i).t = (converted buff hw' (n - 1) (i - 1)).t +
      roundDown (interval value i) ss / 1000 ↔ roundDown (interval value i) ss < 2 ^ 31 := by
  obtain ⟨nos, ss', hnos, hsmall, hcompute, hstep, hdown⟩ := htable.vector hi hlt ht
  obtain rfl : ss' = ss := hstep.unique hss
  have htime := (@converted_filled value buff i n hw hw' hfilled htable.two hsame hi hlt).2 _ _
    hcompute
  rw [if_neg (ofNat_ne_stop hsmall)] at htime
  have hfits := vectorTime_eq_iff hnos (hsmall.trans (by decide))
  rw [htime, hdown]
  constructor
  · intro heq
    have hrat : (vectorTime (BitVec.ofNat 16 nos) (BitVec.ofNat 16 ss') : ℚ) =
        ((nos * (5 * ss') : Nat) : Int) := by linarith
    have hint := hfits.mp (by exact_mod_cast hrat)
    exact_mod_cast hint
  · intro hlt31
    rw [hfits.mpr (by exact_mod_cast hlt31)]
    ring

theorem roundTrip_iff {hw' : Halves} (htable : Table value n) (hfilled : Filled value n hw)
    (hsame : ∀ j < 3 + 3 * (n - 1), hw' j = hw j) :
    RoundTrip value n n (converted buff hw' (n - 1)) ↔ Short value n := by
  obtain ⟨hfirst, -⟩ := @converted_value buff (n - 1) hw'
  constructor
  · intro hround i hi hlt ht ss hss
    obtain ⟨ss', hstep, htime⟩ := hround.times i hi hlt ht
    obtain rfl : ss' = ss := hstep.unique hss
    exact (time_iff htable hfilled hsame hi hlt ht hss).mp htime
  · intro hshort
    refine ⟨rfl, ?_, ?_, ?_⟩
    · intro i hlt
      rcases Nat.eq_zero_or_pos i with rfl | hi
      · rw [hfirst]
        exact (hsame 2 (by omega)).trans hfilled.first
      · exact (converted_filled hfilled htable.two hsame hi hlt).1
    · intro i hlt ht
      rcases Nat.eq_zero_or_pos i with rfl | hi
      · rw [hfirst]
      · have hstop : computeHwVector (value (i - 1)) (value i) = some (0, -1) := by
          rw [computeHwVector, if_pos ht]
        rw [(converted_filled hfilled htable.two hsame hi hlt).2 _ _ hstop, if_pos rfl]
    · intro i hi hlt ht
      obtain ⟨nos, ss, -, -, -, hstep, -⟩ := htable.vector hi hlt ht
      exact ⟨ss, hstep, (time_iff htable hfilled hsame hi hlt ht hstep).mpr
        (hshort i hi hlt ht ss hstep)⟩

/-! ## Stores and loads -/

theorem loaded_covered {hw' : Halves} (htable : Table value n) (hfilled : Filled value n hw)
    (hcovered : usedWords (n - 1) ≤ m) (hsame : ∀ j < 3 + 3 * (n - 1), hw' j = hw j) :
    fcn.hwNVector (laid sram fcn m hw') = n - 1 ∧
      ∀ j < 3 + 3 * (n - 1), loaded (laid sram fcn m hw') fcn j = hw j := by
  have hn := htable.two
  have hfits := htable.fits
  have hpos : 0 < usedWords (n - 1) := by
    rw [usedWords]
    omega
  have hnumber : fcn.hwNVector (laid sram fcn m hw') = n - 1 := by
    refine hwNVector_laid (by omega) ?_ ?_ (by omega)
    · rw [hsame 0 (by omega), hfilled.size]
    · rw [hsame 1 (by omega), hfilled.unused]
  refine ⟨hnumber, fun j hj => ?_⟩
  obtain ⟨hused, hsize⟩ := used_le hj
  rw [loaded_laid (by omega) (by rw [hnumber]; exact hsize), hsame j hj]

theorem storedHalves_same (htable : Table value n) (hj : j < 3 + 3 * (n - 1)) :
    storedHalves transport o (hwFcnSz32 (n - 1)) user j = user j := by
  have hfits := htable.fits
  have hsize := (used_le hj).2
  cases transport with
  | ioctl => rfl
  | sysfs =>
    simp only [CVORB_MAX_VECTOR] at hfits
    have hpage : j < min (2 * hwFcnSz32 (n - 1)) (PAGE_SIZE / 2) := by
      simp only [PAGE_SIZE]
      omega
    rw [storedHalves, pageOf, if_pos hpage]

theorem covered_words (h : Covered transport o.stray n) :
    usedWords (n - 1) ≤ storedWords transport o (hwFcnSz32 (n - 1)) := by
  cases transport with
  | sysfs => exact h rfl
  | ioctl =>
    simp only [storedWords, usedWords, hwFcnSz32, sz16_eq]
    omega

def slotOf (chnr fcnnr n : Nat) : CvorbHwFcn :=
  hwFcn chnr fcnnr (BitVec.ofNat 32 n - 1).toNat (getHwFcnSize32 0)

theorem laid_slotOf {a b : Nat} : laid sram (hwFcn chnr fcnnr a b) = laid sram (slotOf chnr fcnnr n) :=
  rfl

theorem run_covered (htable : Table value n) (hrange : withinRange chnr fcnnr)
    (hcovered : Covered transport o.stray n)
    (hset : (cvorbChSetFcn transport o sram chnr fcnnr value (BitVec.ofNat 32 n)).value =
      (0, sram'))
    (hget : (cvorbChGetFcn transport o' sram' chnr fcnnr buff (BitVec.ofNat 32 n)).value =
      .ok (fcnSz, buff')) :
    RoundTrip value n fcnSz buff' ↔ Short value n := by
  obtain ⟨user, hfill, hfilled⟩ := htable.filled
  have hsram := cvorbChSetFcn_ok htable.two htable.fits hrange hfill rfl rfl hset
  rw [laid_slotOf (n := n)] at hsram
  obtain ⟨-, rfl, rfl⟩ := cvorbChGetFcn_ok (rfl : _ = slotOf chnr fcnnr n) hget
  obtain ⟨hnumber, hloaded⟩ : (slotOf chnr fcnnr n).hwNVector sram' = n - 1 ∧
      ∀ j < 3 + 3 * (n - 1), loaded sram' (slotOf chnr fcnnr n) j = user j := by
    rw [hsram]
    exact loaded_covered htable hfilled (covered_words hcovered)
      fun j hj => storedHalves_same htable hj
  have hsize : n - 1 + 1 = n := by
    have := htable.two
    omega
  rw [hnumber, hsize]
  exact roundTrip_iff htable hfilled hloaded

theorem run_good {sram : Sram} (htable : Table value n) (hrange : withinRange chnr fcnnr)
    (hgood : o.Good) (hfill : (fillVectors value 1 (n - 1)
      (put (fun _ => 0) 0 (BitVec.ofNat 16 (n - 1)) 0 (value 0).v)).value = some user)
    (hsram : sram' = laid sram (slotOf chnr fcnnr n)
      (storedWords transport o (hwFcnSz32 (n - 1)))
      (storedHalves transport o (hwFcnSz32 (n - 1)) user))
    (hnumber : (slotOf chnr fcnnr n).hwNVector sram' = n - 1) :
    (cvorbChSetFcn transport o sram chnr fcnnr value (BitVec.ofNat 32 n)).value = (0, sram') ∧
      (cvorbChGetFcn transport {} sram' chnr fcnnr buff (BitVec.ofNat 32 n)).value =
        .ok (n - 1 + 1, converted buff (loaded sram' (slotOf chnr fcnnr n)) (n - 1)) := by
  have hn := htable.two
  have hfits := htable.fits
  constructor
  · rw [hsram, ← laid_slotOf]
    exact cvorbChSetFcn_good hgood htable.two htable.fits hrange hfill rfl rfl
  · have hbad : badSlot ((slotOf chnr fcnnr n).hwNVector sram') = false := by
      rw [hnumber]
      simp only [badSlot, Bool.or_eq_false_iff, decide_eq_false_iff_not, not_le]
      omega
    have hroom : (slotOf chnr fcnnr n).hwNVector sram' ≤ (BitVec.ofNat 32 n).toNat := by
      rw [hnumber, BitVec.toNat_ofNat]
      simp only [CVORB_MAX_VECTOR] at hfits
      omega
    have hget := @cvorbChGetFcn_good transport {} sram' chnr fcnnr buff (BitVec.ofNat 32 n) _
      ⟨rfl, rfl, rfl, rfl, rfl, rfl, rfl, rfl⟩ hrange rfl hbad hroom
    rw [← hnumber]
    exact hget

theorem hwNVector_laid_none {m : Nat} (hm : m = 0) :
    fcn.hwNVector (laid sram fcn m hw) = fcn.hwNVector sram := by
  rw [CvorbHwFcn.hwNVector, laid, if_neg (by omega), CvorbHwFcn.hwNVector]

theorem not_survives (htable : Table value n) (hrange : withinRange chnr fcnnr)
    (hshort : stray.toNat < usedWords (n - 1)) :
    ¬ Survives .sysfs stray chnr fcnnr value n := by
  intro hsurvives
  have hn := htable.two
  have hfits := htable.fits
  obtain ⟨user, hfill, hfilled⟩ := htable.filled
  obtain ⟨old, hold⟩ : ∃ old : Halves,
      old = Function.update user (3 * (n - 1) + 2) ((value (n - 1)).v + 1) := ⟨_, rfl⟩
  have hsize : old 0 = BitVec.ofNat 16 (n - 1) := by
    rw [hold, Function.update_of_ne (by omega), hfilled.size]
  have hunused : old 1 = 0 := by
    rw [hold, Function.update_of_ne (by omega), hfilled.unused]
  obtain ⟨sram, hsram⟩ : ∃ sram : Sram,
      sram = laid (fun _ _ => 0) (slotOf chnr fcnnr n) (usedWords (n - 1)) old := ⟨_, rfl⟩
  obtain ⟨sram', hsram'⟩ : ∃ sram' : Sram,
      sram' = laid sram (slotOf chnr fcnnr n) stray.toNat
        (pageOf { stray := stray } (hwFcnSz32 (n - 1)) user) := ⟨_, rfl⟩
  have hnumber : (slotOf chnr fcnnr n).hwNVector sram' = n - 1 := by
    rw [hsram']
    rcases Nat.eq_zero_or_pos stray.toNat with hzero | hpos
    · rw [hwNVector_laid_none hzero, hsram]
      exact hwNVector_laid (by omega) hsize hunused (by omega)
    · have hsame := fun j hj => @storedHalves_same .sysfs { stray := stray } value user j n
        htable hj
      exact hwNVector_laid hpos ((hsame 0 (by omega)).trans hfilled.size)
        ((hsame 1 (by omega)).trans hfilled.unused) (by omega)
  have hlast : loaded sram' (slotOf chnr fcnnr n) (3 * (n - 1) + 2) =
      (value (n - 1)).v + 1 := by
    obtain ⟨hused, hwords⟩ := @used_le (3 * (n - 1) + 2) (n - 1) (by omega)
    have hbehind : stray.toNat ≤ (3 * (n - 1) + 2) / 2 := by
      rw [usedWords] at hshort
      omega
    rw [loaded, hnumber, if_pos hwords, hsram', laid, if_neg (by omega), hsram, laid,
      if_pos ⟨rfl, by omega, by omega⟩, Nat.add_sub_cancel_left, half_word, hold,
      Function.update_self]
  obtain ⟨hset, hget⟩ := @run_good .sysfs { stray := stray } sram' chnr fcnnr value (fun _ => {})
    user n sram htable hrange ⟨rfl, rfl, rfl, rfl, rfl, rfl, rfl, rfl⟩ hfill hsram' hnumber
  have hround := hsurvives _ _ _ _ _ _ _ rfl hset hget
  have hv := hround.amplitudes (n - 1) (by omega)
  rw [(@converted_value (fun _ => {}) (n - 1) _).2 (n - 1) (by omega) (by omega), convert,
    hlast] at hv
  exact absurd hv (by simp)

theorem short_of_survives (htable : Table value n) (hrange : withinRange chnr fcnnr)
    (hcovered : Covered transport stray n)
    (hsurvives : Survives transport stray chnr fcnnr value n) : Short value n := by
  obtain ⟨user, hfill, hfilled⟩ := htable.filled
  have hwords := @covered_words transport { stray := stray } n hcovered
  obtain ⟨hnumber, -⟩ := @loaded_covered (fun _ _ => 0) value (slotOf chnr fcnnr n) n _ user _
    htable hfilled hwords fun j hj => storedHalves_same htable hj
  obtain ⟨hset, hget⟩ := @run_good transport { stray := stray } _ chnr fcnnr value
    (fun _ => {}) user n (fun _ _ => 0) htable hrange
    ⟨rfl, rfl, rfl, rfl, rfl, rfl, rfl, rfl⟩ hfill rfl hnumber
  exact (run_covered htable hrange hcovered hset hget).mp
    (hsurvives _ _ _ _ _ _ _ rfl hset hget)

/-- The functions that survive a store and a load. -/
theorem survives_iff (htable : Table value n) (hrange : withinRange chnr fcnnr) :
    Survives transport stray chnr fcnnr value n ↔
      Short value n ∧ Covered transport stray n := by
  constructor
  · intro hsurvives
    have hcovered : Covered transport stray n := by
      rintro rfl
      by_contra hshort
      exact not_survives htable hrange (by omega) hsurvives
    exact ⟨short_of_survives htable hrange hcovered hsurvives, hcovered⟩
  · rintro ⟨hshort, hcovered⟩ o o' sram sram' buff buff' fcnSz rfl hset hget
    exact (run_covered htable hrange hcovered hset hget).mpr hshort

/-- A function with one vector that takes `5 * k` us. -/
def ramp (k : Nat) (i : Nat) : CvorbVectorFcn :=
  if i = 1 then { t := k / 200, v := 8 } else { t := 0, v := 7 }

theorem ramp_table {k : Nat} (hk : 0 < k) (hmax : 5 * k ≤ maxVectorTime) : Table (ramp k) 2 where
  two := le_refl 2
  fits := by decide
  first := rfl
  fine i hi := by
    by_cases h1 : i = 1
    · exact ⟨k, by simp only [ramp, if_pos h1, CVORB_MIN_STEP_SIZE]; push_cast; ring⟩
    · exact ⟨0, by simp [ramp, if_neg h1]⟩
  later i hi hlt := by
    obtain rfl : i = 1 := by omega
    have hpos : (0 : ℚ) < k := by exact_mod_cast hk
    have hcast : (5 * k : ℚ) ≤ maxVectorTime := by exact_mod_cast hmax
    refine .inr ⟨?_, ?_⟩
    · simp only [ramp, if_pos, if_neg Nat.zero_ne_one, Nat.sub_self]
      positivity
    · simp only [ramp, if_pos, if_neg Nat.zero_ne_one, Nat.sub_self]
      linarith

theorem survives_iff_ramp : Survives .ioctl 0 1 1 (ramp 200) 2 ↔
    Short (ramp 200) 2 ∧ Covered .ioctl 0 2 :=
  survives_iff (ramp_table (by decide) (by decide)) rfl

/-- 36 min 40 s by ioctl, and 1 ms through sysfs when the driver's stack holds a 0. -/
theorem ramps_lost : ¬ Survives .ioctl 0 1 1 (ramp 440000000) 2 ∧
    ¬ Survives .sysfs 0 1 1 (ramp 200) 2 := by
  constructor
  · intro hsurvives
    have hshort := short_of_survives (ramp_table (by decide) (by decide)) rfl
      (fun h => by cases h) hsurvives
    have hd : interval (ramp 440000000) 1 = 5 * (440000000 : Nat) := by
      norm_num [interval, ramp]
    have hlt := hshort 1 Nat.one_pos (by decide) (by norm_num [ramp]) 6714 (by
      rw [hd, isStepSize_iff (by decide)]
      decide)
    rw [hd, roundDown_eq (by decide)] at hlt
    exact absurd hlt (by decide)
  · exact not_survives (ramp_table (by decide) (by decide)) rfl (by decide)

end Coht.Cvorb
