import Coht.Cvorg.PllConf
import Coht.Cvorg.StoreSeq
import Mathlib.Algebra.Order.Field.Rat
import Mathlib.Tactic.Linarith

/-!
# Waiting for the sampling frequency (`cvorg-func.c`)

After a configuration of the PLL has been applied, `cvorg_poll_sampfreq()` reads
the frequency at the output until it is the one that it expects. It works in
units of 10 kHz: the input frequency is brought to that unit, multiplied by
`p * b + a` in 32 bits, and divided by one divider after the other. The
quotients lose less than a unit together, however many there are, since they
are the quotient by the product. Nothing checks the multiplication
(`pollFreq_close`): with the oscillator on the board it always fits.
-/

namespace Coht.Cvorg

def ETIME : Int := 62

def CVORG_FREQ_DIV : U32 := 10000

def AD9516_OSCILLATOR_FREQ : U32 := 40000000

/-! ## What the code waits for -/

/-- Some dividers may be bypassed. -/
def divBy (freq d : Int) : Int := if d ≠ 0 then freq.tdiv d else freq

/-- `extClkPll` is the field `ext_clk_pll` of the configuration. -/
def pllInput (pll : Ad9516Pll) (extClkPll : Int) : U32 :=
  if extClkPll ≠ 0 then BitVec.ofInt 32 pll.inputFreq else AD9516_OSCILLATOR_FREQ

def pllN (pll : Ad9516Pll) : U32 := BitVec.ofInt 32 (pll.p * pll.b + pll.a)

/-- `freq` before it is divided. -/
def vcoFreq (pll : Ad9516Pll) (extClkPll : Int) : Int :=
  (pllInput pll extClkPll / CVORG_FREQ_DIV * pllN pll).toInt

def pollFreq (pll : Ad9516Pll) (extClkPll : Int) : Int :=
  divBy (divBy (divBy (divBy (vcoFreq pll extClkPll) pll.r) pll.dvco) pll.d1)
    pll.d2

/-- The loop from read `i` on, with `left` rounds to go. -/
def pollLoop (freq : Int) (reads : Nat → U32) : (left i : Nat) → Int
  | 0, i =>
    if cvorgAbsdiff (reads i / CVORG_FREQ_DIV).toInt freq > 1 then -ETIME else 0
  | left + 1, i =>
    if cvorgAbsdiff (reads i / CVORG_FREQ_DIV).toInt freq > 1 then
      pollLoop freq reads left (i + 1)
    else 0

/-- `cvorg_poll_sampfreq()`, with what the register of the sampling frequency
says at each read. -/
def cvorgPollSampfreq (pll : Ad9516Pll) (extClkPll : Int) (reads : Nat → U32) :
    Int :=
  if pll.external ≠ 0 then 0
  else pollLoop (pollFreq pll extClkPll) reads 100 0

/-! ## What it should wait for -/

/-- The frequency of the input, as it is configured. -/
def inputHz (pll : Ad9516Pll) (extClkPll : Int) : Int :=
  if extClkPll ≠ 0 then pll.inputFreq else 40000000

/-- The product of the dividers. -/
def divisor (pll : Ad9516Pll) : Nat :=
  asked pll.r * asked pll.dvco * asked pll.d1 * asked pll.d2

/-- The frequency at the output in units of 10 kHz, from that of the input in
such units. -/
def outputOf (pll : Ad9516Pll) (input : ℚ) : ℚ :=
  input * (pll.p * pll.b + pll.a : Int) / divisor pll

/-- What becomes of each computation of the function, without the wrap. -/
def intermediates (pll : Ad9516Pll) (extClkPll : Int) : List Int :=
  let input := pllInput pll extClkPll
  let n := pllN pll
  let freq := vcoFreq pll extClkPll
  [pll.p * pll.b, pll.p * pll.b + pll.a, n.toNat, input.toNat,
    (input / CVORG_FREQ_DIV).toNat,
    (input / CVORG_FREQ_DIV).toNat * n.toNat,
    divBy freq pll.r, divBy (divBy freq pll.r) pll.dvco,
    divBy (divBy (divBy freq pll.r) pll.dvco) pll.d1,
    pollFreq pll extClkPll]

def InInt32 (x : Int) : Prop := -2 ^ 31 ≤ x ∧ x < 2 ^ 31

/-- A read of the register is as good as the frequency waited for. -/
def Settled (freq : Int) (read : U32) : Prop :=
  |(read.toNat / 10000 : Int) - freq| ≤ 1

/-- The frequency that is waited for is right, and was computed without
overflow. -/
structure Expects (pll : Ad9516Pll) (extClkPll : Int) : Prop where
  waits : ∀ reads, cvorgPollSampfreq pll extClkPll reads = 0 ↔
    ∃ k ≤ 100, Settled (pollFreq pll extClkPll) (reads k)
  fits : ∀ x ∈ intermediates pll extClkPll, InInt32 x
  close :
    let exact := outputOf pll (inputHz pll extClkPll / 10000)
    let rounded := outputOf pll (inputHz pll extClkPll / 10000 : Int)
    |pollFreq pll extClkPll - exact| < 2 + |exact - rounded|

section Poll

variable {freq d x y : Int} {reads : Nat → U32} {pll : Ad9516Pll}
  {extClkPll : Int}

/-! ## The loop -/

theorem settled_iff (read : U32) :
    ¬cvorgAbsdiff (read / CVORG_FREQ_DIV).toInt freq > 1 ↔
      Settled freq read := by
  have hlt : read.toNat < 2 ^ 32 := read.isLt
  have hdiv : (read / CVORG_FREQ_DIV).toNat = read.toNat / 10000 :=
    BitVec.toNat_udiv
  have hint : (read / CVORG_FREQ_DIV).toInt = (read.toNat / 10000 : Int) := by
    rw [BitVec.toInt_eq_toNat_of_lt (by omega), hdiv]
    rfl
  rw [hint, cvorgAbsdiff, Settled, Int.abs_eq_natAbs]
  omega

theorem pollLoop_iff (left i : Nat) :
    pollLoop freq reads left i = 0 ↔
      ∃ k, i ≤ k ∧ k ≤ i + left ∧ Settled freq (reads k) := by
  induction left generalizing i with
  | zero =>
    rw [pollLoop]
    split
    · rename_i h
      refine iff_of_false (by decide) ?_
      rintro ⟨k, hlo, hhi, hset⟩
      have hk : k = i := by omega
      rw [hk] at hset
      exact (settled_iff _).mpr hset h
    · rename_i h
      exact iff_of_true rfl
        ⟨i, Nat.le_refl i, Nat.le_refl i, (settled_iff _).mp h⟩
  | succ left ih =>
    rw [pollLoop]
    split
    · rename_i h
      rw [ih]
      constructor
      · rintro ⟨k, hlo, hhi, hset⟩
        exact ⟨k, by omega, by omega, hset⟩
      · rintro ⟨k, hlo, hhi, hset⟩
        have hne : k ≠ i := by
          intro hk
          rw [hk] at hset
          exact (settled_iff _).mpr hset h
        exact ⟨k, by omega, by omega, hset⟩
    · rename_i h
      exact iff_of_true rfl
        ⟨i, Nat.le_refl i, by omega, (settled_iff _).mp h⟩

theorem cvorgPollSampfreq_iff (hext : pll.external = 0) :
    cvorgPollSampfreq pll extClkPll reads = 0 ↔
      ∃ k ≤ 100, Settled (pollFreq pll extClkPll) (reads k) := by
  rw [cvorgPollSampfreq, if_neg (fun h => h hext), pollLoop_iff]
  constructor
  · rintro ⟨k, -, hk, hset⟩
    exact ⟨k, by omega, hset⟩
  · rintro ⟨k, hk, hset⟩
    exact ⟨k, by omega, by omega, hset⟩

/-! ## The divisions -/

theorem divBy_eq (hfreq : 0 ≤ freq) (hd : 0 ≤ d) :
    divBy freq d = freq / asked d := by
  unfold divBy asked
  by_cases h : d = 0
  · rw [if_neg (not_not.mpr h), if_pos h, Nat.cast_one, Int.ediv_one]
  · rw [if_pos h, if_neg h, Int.toNat_of_nonneg hd,
      Int.tdiv_eq_ediv_of_nonneg hfreq]

theorem ediv_asked_nonneg (hfreq : 0 ≤ freq) : 0 ≤ freq / asked d :=
  Int.ediv_nonneg hfreq (Int.natCast_nonneg _)

theorem pollFreq_eq (hfreq : 0 ≤ vcoFreq pll extClkPll) (hr : 0 ≤ pll.r)
    (hdvco : 0 ≤ pll.dvco) (hd1 : 0 ≤ pll.d1) (hd2 : 0 ≤ pll.d2) :
    pollFreq pll extClkPll = vcoFreq pll extClkPll / divisor pll := by
  have h1 : 0 ≤ vcoFreq pll extClkPll / asked pll.r := ediv_asked_nonneg hfreq
  have h2 : 0 ≤ vcoFreq pll extClkPll / asked pll.r / asked pll.dvco :=
    ediv_asked_nonneg h1
  have h3 : 0 ≤ vcoFreq pll extClkPll / asked pll.r / asked pll.dvco /
      asked pll.d1 := ediv_asked_nonneg h2
  rw [pollFreq, divBy_eq hfreq hr, divBy_eq h1 hdvco, divBy_eq h2 hd1,
    divBy_eq h3 hd2, Int.ediv_ediv_of_nonneg (Int.natCast_nonneg _),
    ← Int.natCast_mul, Int.ediv_ediv_of_nonneg (Int.natCast_nonneg _),
    ← Int.natCast_mul, Int.ediv_ediv_of_nonneg (Int.natCast_nonneg _),
    ← Int.natCast_mul, divisor, Nat.mul_assoc, Nat.mul_assoc]

theorem asked_pos (hd : 0 ≤ d) : 0 < asked d := by
  unfold asked
  split <;> omega

theorem close_of_eq {q p rounded : Int} {den : Nat} {input n : ℚ}
    (hden : 0 < den) (hq : q = p / den) (hp : (p : ℚ) = rounded * n)
    (hn : 0 ≤ n) (hle : (rounded : ℚ) ≤ input) :
    |q - input * n / den| < 2 + |input * n / den - rounded * n / den| := by
  have hden' : (0 : ℚ) < den := Nat.cast_pos.mpr hden
  have hlo : (q : ℚ) ≤ rounded * n / den := by
    rw [le_div_iff₀ hden', ← hp, hq]
    exact_mod_cast Int.ediv_mul_le p (by omega)
  have hhi : rounded * n / den < (q : ℚ) + 1 := by
    rw [div_lt_iff₀ hden', ← hp, hq]
    exact_mod_cast Int.lt_ediv_add_one_mul_self p (by omega)
  have hle' : rounded * n / den ≤ input * n / den := by gcongr
  rw [abs_of_nonpos (by linarith), abs_of_nonneg (by linarith)]
  linarith

/-! ## The multiplication -/

/-- What nothing in the code checks. -/
def ProductFits (pll : Ad9516Pll) (extClkPll : Int) : Prop :=
  0 ≤ inputHz pll extClkPll ∧ 0 ≤ pll.p * pll.b + pll.a ∧
    inputHz pll extClkPll / 10000 * (pll.p * pll.b + pll.a) < 2 ^ 31

theorem check_bounds (hcheck : clkgenCheckPll pll = 0) :
    0 < pll.p * pll.b ∧ pll.p * pll.b ≤ 262112 ∧ pll.a ≤ 63 ∧ 0 < pll.r := by
  unfold clkgenCheckPll at hcheck
  split at hcheck
  · exact absurd hcheck (by decide)
  · rename_i h
    have hp : pll.p = 4 ∨ pll.p = 8 ∨ pll.p = 16 ∨ pll.p = 32 := by omega
    rcases hp with hp | hp | hp | hp <;> rw [hp] <;> omega

theorem pllInput_toNat (h0 : 0 ≤ inputHz pll extClkPll)
    (hmax : pll.inputFreq < 2 ^ 31) :
    ((pllInput pll extClkPll).toNat : Int) = inputHz pll extClkPll := by
  unfold pllInput inputHz at *
  split
  · rename_i h
    rw [if_pos h] at h0
    rw [BitVec.toNat_ofInt]
    omega
  · rfl

theorem pllN_toNat (h0 : 0 ≤ pll.p * pll.b + pll.a)
    (hcheck : clkgenCheckPll pll = 0) :
    ((pllN pll).toNat : Int) = pll.p * pll.b + pll.a := by
  obtain ⟨hlo, hhi, ha, -⟩ := check_bounds hcheck
  rw [pllN, BitVec.toNat_ofInt]
  omega

theorem vcoFreq_eq (hcheck : clkgenCheckPll pll = 0)
    (hmax : pll.inputFreq < 2 ^ 31) (hfits : ProductFits pll extClkPll) :
    vcoFreq pll extClkPll =
      inputHz pll extClkPll / 10000 * (pll.p * pll.b + pll.a) := by
  obtain ⟨hin, hn, hprod⟩ := hfits
  have hin' := pllInput_toNat hin hmax
  have hn' := pllN_toNat hn hcheck
  have hdiv : (pllInput pll extClkPll / CVORG_FREQ_DIV).toNat =
      (pllInput pll extClkPll).toNat / 10000 := BitVec.toNat_udiv
  have hmul : ((pllInput pll extClkPll / CVORG_FREQ_DIV).toNat *
      (pllN pll).toNat : Int) =
      inputHz pll extClkPll / 10000 * (pll.p * pll.b + pll.a) := by
    rw [hdiv, hn', Int.natCast_ediv, hin']
    rfl
  have hnat : (pllInput pll extClkPll / CVORG_FREQ_DIV).toNat *
      (pllN pll).toNat < 2 ^ 31 := by
    zify
    rw [hmul]
    exact hprod
  rw [vcoFreq, BitVec.toInt_eq_toNat_of_lt, BitVec.toNat_mul,
    Nat.mod_eq_of_lt (by omega), ← hmul, Int.natCast_mul]
  rw [BitVec.toNat_mul, Nat.mod_eq_of_lt (by omega)]
  omega

theorem Expects.productFits (hcheck : clkgenCheckPll pll = 0)
    (hmin : -2 ^ 31 ≤ pll.inputFreq) (hmax : pll.inputFreq < 2 ^ 31)
    (h : Expects pll extClkPll) : ProductFits pll extClkPll := by
  have hfits := h.fits
  simp only [intermediates, List.forall_mem_cons] at hfits
  obtain ⟨-, ⟨hlo, hhi⟩, ⟨-, hn⟩, ⟨-, hin⟩, -, ⟨-, hprod⟩, -⟩ := hfits
  have hn0 : 0 ≤ pll.p * pll.b + pll.a := by
    rw [pllN, BitVec.toNat_ofInt] at hn
    omega
  have hin0 : 0 ≤ inputHz pll extClkPll := by
    unfold inputHz
    split
    · rename_i hext
      rw [pllInput, if_pos hext, BitVec.toNat_ofInt] at hin
      omega
    · decide
  have hdiv : (pllInput pll extClkPll / CVORG_FREQ_DIV).toNat =
      (pllInput pll extClkPll).toNat / 10000 := BitVec.toNat_udiv
  rw [hdiv, pllN_toNat hn0 hcheck, Int.natCast_ediv,
    pllInput_toNat hin0 hmax] at hprod
  exact ⟨hin0, hn0, hprod⟩

theorem divBy_bounds (hd : 0 ≤ d) (h0 : 0 ≤ freq) :
    0 ≤ divBy freq d ∧ divBy freq d ≤ freq := by
  rw [divBy_eq h0 hd]
  exact ⟨ediv_asked_nonneg h0, Int.ediv_le_self _ h0⟩

theorem ProductFits.fits (hcheck : clkgenCheckPll pll = 0)
    (hmax : pll.inputFreq < 2 ^ 31) (hdvco : 0 ≤ pll.dvco) (hd1 : 0 ≤ pll.d1)
    (hd2 : 0 ≤ pll.d2) (h : ProductFits pll extClkPll) :
    ∀ x ∈ intermediates pll extClkPll, InInt32 x := by
  have hvco := vcoFreq_eq hcheck hmax h
  obtain ⟨hin, hn, hprod⟩ := h
  obtain ⟨hlo, hhi, ha, hr⟩ := check_bounds hcheck
  have hin' := pllInput_toNat hin hmax
  have hn' := pllN_toNat hn hcheck
  have hin32 : inputHz pll extClkPll < 2 ^ 31 := by
    unfold inputHz
    split
    · exact hmax
    · decide
  have hdiv : (pllInput pll extClkPll / CVORG_FREQ_DIV).toNat =
      (pllInput pll extClkPll).toNat / 10000 := BitVec.toNat_udiv
  have hvco0 : 0 ≤ vcoFreq pll extClkPll := by
    rw [hvco]
    exact Int.mul_nonneg (Int.ediv_nonneg hin (by decide)) hn
  obtain ⟨hr0, hr1⟩ := divBy_bounds (Int.le_of_lt hr) hvco0
  obtain ⟨hv0, hv1⟩ := divBy_bounds hdvco hr0
  obtain ⟨h10, h11⟩ := divBy_bounds hd1 hv0
  obtain ⟨h20, h21⟩ := divBy_bounds hd2 h10
  have hpoll : pollFreq pll extClkPll = divBy (divBy (divBy (divBy
    (vcoFreq pll extClkPll) pll.r) pll.dvco) pll.d1) pll.d2 := rfl
  rw [← hvco] at hprod
  have hmul : ((pllInput pll extClkPll / CVORG_FREQ_DIV).toNat : Int) *
      (pllN pll).toNat = vcoFreq pll extClkPll := by
    rw [hdiv, hn', Int.natCast_ediv, hin', hvco]
    rfl
  simp only [intermediates, List.forall_mem_cons, InInt32]
  refine ⟨?_, ?_, ?_, ?_, ?_, ?_, ?_, ?_, ?_, ?_, by simp⟩ <;> omega

/-- Of the configurations that pass the checks, with dividers that are not
negative, the ones whose product fits are waited for at the right frequency. -/
theorem pollFreq_expects (pll : Ad9516Pll) (extClkPll : Int)
    (hcheck : clkgenCheckPll pll = 0) (hdvco : 0 ≤ pll.dvco)
    (hd1 : 0 ≤ pll.d1) (hd2 : 0 ≤ pll.d2) (hext : pll.external = 0)
    (hmin : -2 ^ 31 ≤ pll.inputFreq) (hmax : pll.inputFreq < 2 ^ 31) :
    Expects pll extClkPll ↔ ProductFits pll extClkPll := by
  constructor
  · exact Expects.productFits hcheck hmin hmax
  · intro h
    obtain ⟨-, -, -, hr⟩ := check_bounds hcheck
    refine ⟨fun reads => cvorgPollSampfreq_iff hext,
      h.fits hcheck hmax hdvco hd1 hd2, ?_⟩
    have hvco := vcoFreq_eq hcheck hmax h
    obtain ⟨hin, hn, hprod⟩ := h
    have hvco0 : 0 ≤ vcoFreq pll extClkPll := by
      rw [hvco]
      exact Int.mul_nonneg (Int.ediv_nonneg hin (by decide)) hn
    have hden : 0 < divisor pll := by
      unfold divisor
      have := asked_pos (Int.le_of_lt hr)
      have := asked_pos hdvco
      have := asked_pos hd1
      have := asked_pos hd2
      positivity
    dsimp only [outputOf]
    apply close_of_eq hden
      (pollFreq_eq hvco0 (Int.le_of_lt hr) hdvco hd1 hd2)
    · rw [hvco]
      push_cast
      rfl
    · exact_mod_cast hn
    · rw [le_div_iff₀ (by norm_num)]
      exact_mod_cast Int.ediv_mul_le _ (by norm_num)

/-- The configuration that the driver starts with. -/
theorem pollFreq_expects_default :
    Expects { a := 0, b := 4375, p := 16, r := 1000, dvco := 2, d1 := 14,
              d2 := 1, external := 0, inputFreq := 40000000 } 0 :=
  (pollFreq_expects _ 0 (by decide) (by decide) (by decide) (by decide) rfl
    (by decide) (by decide)).mpr (by unfold ProductFits; decide)

/-- An external clock of 100 MHz for the PLL, with the VCO at 2.56 GHz. -/
theorem pollFreq_100MHz :
    ¬∀ (pll : Ad9516Pll) (extClkPll : Int), clkgenCheckPll pll = 0 →
      0 ≤ pll.dvco → 0 ≤ pll.d1 → 0 ≤ pll.d2 → pll.external = 0 →
      0 ≤ pll.inputFreq → pll.inputFreq < 2 ^ 31 → Expects pll extClkPll := by
  intro h
  have hfits := (h
    { a := 0, b := 8000, p := 32, r := 10000, dvco := 2, d1 := 14, d2 := 1,
      external := 0, inputFreq := 100000000 } 1 (by decide) (by decide)
    (by decide) (by decide) rfl (by decide) (by decide)).productFits
      (by decide) (by decide) (by decide)
  revert hfits
  unfold ProductFits
  decide

end Poll

end Coht.Cvorg
