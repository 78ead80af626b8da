import Coht.Cvorg.Clkgen
import Coht.Lib.Word
import Mathlib.Algebra.Group.Int.Defs

/-!
# What a configuration does to the chip

`clkgenApplyPllConf_programs` follows a configuration that
`clkgen_check_pll()` accepts into the registers and back out: the counters of
the PLL are the requested ones, the dividers divide by what was requested for
them, in either order, and `get_pll_conf()` returns what the chip makes of the
registers.

Two values are replaced on the way, with a warning. A VCO divider of more than
6, or one that is to be bypassed while the internal PLL is used, becomes 2
(`dvcoSet`), and a prescaler other than 16 and 32 is read back as 1. Where a
parameter is out of the range that its type documents, below 0 for `a` and
above 32 for `d1` and `d2`, nothing is said; nor is anything about reading back
a second stage that is not bypassed.
-/

namespace Coht.Cvorg

open Coht.Lib

/-- What a divider is asked to divide by. -/
def asked (d : Int) : Nat := if d = 0 then 1 else d.toNat

/-- The VCO divider that is set. -/
def dvcoSet (pll : Ad9516Pll) : Nat :=
  if 2 ≤ pll.dvco ∧ pll.dvco ≤ 6 then pll.dvco.toNat
  else if pll.dvco ≤ 1 ∧ pll.external ≠ 0 then 1
  else 2

/-- What the registers say after a configuration has been applied. -/
structure Programs (pll : Ad9516Pll) (regs : Regs) : Prop where
  n : 0 ≤ pll.a → (Ad9516.n regs : Int) = pll.p * pll.b + pll.a
  r : (Ad9516.r regs : Int) = pll.r
  total : pll.d1 ≤ 32 → pll.d2 ≤ 32 →
    ∀ addrs ∈ [divider3, divider4],
      Ad9516.total regs addrs = dvcoSet pll * asked pll.d1 * asked pll.d2
  readA : 0 ≤ pll.a → (getPllConf regs pll).a = pll.a
  readB : (getPllConf regs pll).b = pll.b
  readR : (getPllConf regs pll).r = pll.r
  readP : (getPllConf regs pll).p =
    if pll.p = 16 ∨ pll.p = 32 then pll.p else 1
  readDvco : (getPllConf regs pll).dvco = dvcoSet pll
  readD1 : (getPllConf regs pll).d1 = Ad9516.stage1 regs divider3
  readD2 : (regs AD9516_CMOSDIV3_BYPASS).getLsbD 5 = true →
    (getPllConf regs pll).d2 = Ad9516.stage2 regs divider3

/-! ## Frames -/

section Frames

variable {regs : Regs} {addr : Nat} {v : U8} {pll : Ad9516Pll} {d : Int}
  {s b : Nat} {m : U8}

theorem wr_self : clkgenWr regs addr v addr = v := Function.update_self _ _ _

theorem wr_of_ne (h : addr ≠ s) : clkgenWr regs s v addr = regs addr :=
  Function.update_of_ne h _ _

theorem writeB_of_ne (hlsb : addr ≠ AD9516_BCOUNT_LSB)
    (hmsb : addr ≠ AD9516_BCOUNT_MSB) : clkgenWriteB regs d addr = regs addr :=
  (wr_of_ne hmsb).trans (wr_of_ne hlsb)

theorem writeR_of_ne (hlsb : addr ≠ AD9516_RCOUNT_LSB)
    (hmsb : addr ≠ AD9516_RCOUNT_MSB) : clkgenWriteR regs d addr = regs addr :=
  (wr_of_ne hmsb).trans (wr_of_ne hlsb)

theorem writeP_of_ne (h : addr ≠ AD9516_PLL1) :
    clkgenWriteP regs d addr = regs addr :=
  (wr_of_ne h).trans (wr_of_ne h)

theorem writeDvco_of_ne (hclks : addr ≠ AD9516_INPUT_CLKS)
    (hdvco : addr ≠ AD9516_VCO_DIVIDER) :
    clkgenWriteDvco regs pll addr = regs addr := by
  unfold clkgenWriteDvco
  split
  · exact wr_of_ne hclks
  · exact (wr_of_ne hclks).trans (wr_of_ne hdvco)

theorem writeStage_of_ne (hs : addr ≠ s) (hb : addr ≠ b) :
    clkgenWriteStage regs s b m d addr = regs addr := by
  unfold clkgenWriteStage
  split
  · exact wr_of_ne hb
  · exact (wr_of_ne hb).trans (wr_of_ne hs)

end Frames

/-! ## One stage of a divider -/

section Stage

variable {regs : Regs} {d : Int} {s s' b bit bit' : Nat} {m : U8}

structure MaskOf (m : U8) (bit : Nat) : Prop where
  set : ∀ x : U8, (x ||| m).getLsbD bit = true
  clear : ∀ x : U8, (x &&& ~~~m).getLsbD bit = false
  others : ∀ bit', bit' < 8 → bit' ≠ bit → m.getLsbD bit' = false

theorem maskOf (hm : m = 1#8 <<< bit) (hbit : bit < 8) : MaskOf m bit := by
  have hone : ∀ bit', m.getLsbD bit' = decide (bit' = bit ∧ bit' < 8) := by
    intro bit'
    rw [hm, getLsbD_one_shiftLeft]
  constructor
  · intro x
    rw [BitVec.getLsbD_or, hone]
    simp [hbit]
  · intro x
    rw [BitVec.getLsbD_and, BitVec.getLsbD_not, hone]
    simp [hbit]
  · intro bit' _ hne
    rw [hone]
    simp [hne]

theorem nibbles (hlo : 2 ≤ d) (hhi : d ≤ 32) :
    let m := BitVec.ofInt 8 ((d - 2).tdiv 2 + (d - 2).tmod 2)
    let n := BitVec.ofInt 8 ((d - 2).tdiv 2)
    let x : U8 := (m &&& 0xf) <<< 4 ||| n &&& 0xf
    x.toNat / 2 ^ 4 + x.toNat % 2 ^ 4 + 2 = d.toNat := by
  have hall : ∀ k : Fin 31,
      let m := BitVec.ofInt 8 ((k.val : Int).tdiv 2 + (k.val : Int).tmod 2)
      let n := BitVec.ofInt 8 ((k.val : Int).tdiv 2)
      let x : U8 := (m &&& 0xf) <<< 4 ||| n &&& 0xf
      x.toNat / 2 ^ 4 + x.toNat % 2 ^ 4 + 2 = k.val + 2 := by decide
  have hk : ((d - 2).toNat : Int) = d - 2 := Int.toNat_of_nonneg (by omega)
  have h := hall ⟨(d - 2).toNat, by omega⟩
  dsimp only at h ⊢
  rw [hk] at h
  omega

theorem stage_self (hm : MaskOf m bit) (hsb : s ≠ b)
    (hd : d = 0 ∨ 2 ≤ d ∧ d ≤ 32) :
    Ad9516.stage (clkgenWriteStage regs s b m d) s b bit = asked d := by
  unfold Ad9516.stage clkgenWriteStage asked
  by_cases h0 : d = 0
  · simp only [if_pos h0, clkgenOr, wr_self]
    rw [if_pos (hm.set _)]
  · simp only [if_neg h0, clkgenAnd, wr_self]
    rw [if_neg (by rw [hm.clear]; decide), wr_of_ne hsb, wr_self]
    exact nibbles (by omega) (by omega)

theorem bypass_other (hm : MaskOf m bit) (hbit : bit' < 8) (hne : bit' ≠ bit)
    (hsb : s ≠ b) :
    (clkgenWriteStage regs s b m d b).getLsbD bit' = (regs b).getLsbD bit' := by
  unfold clkgenWriteStage
  split
  · rw [clkgenOr, wr_self, BitVec.getLsbD_or, hm.others bit' hbit hne,
      Bool.or_false]
    rfl
  · rw [clkgenAnd, wr_self, BitVec.getLsbD_and, BitVec.getLsbD_not,
      hm.others bit' hbit hne, clkgenRd, wr_of_ne (Ne.symm hsb)]
    simp [hbit]

end Stage

/-! ## The registers in the end -/

section Written

variable {regs : Regs} {pll : Ad9516Pll}

theorem mask4 : MaskOf 0x10 4 := maskOf rfl (by decide)

theorem mask5 : MaskOf 0x20 5 := maskOf rfl (by decide)

theorem writeD_eq {d : Int} :
    clkgenWriteD regs 3 1 d = clkgenWriteStage regs AD9516_CMOSDIV3_1
        AD9516_CMOSDIV3_BYPASS 0x10 d ∧
      clkgenWriteD regs 3 2 d = clkgenWriteStage regs AD9516_CMOSDIV3_2
        AD9516_CMOSDIV3_BYPASS 0x20 d ∧
      clkgenWriteD regs 4 1 d = clkgenWriteStage regs AD9516_CMOSDIV4_1
        AD9516_CMOSDIV4_BYPASS 0x10 d ∧
      clkgenWriteD regs 4 2 d = clkgenWriteStage regs AD9516_CMOSDIV4_2
        AD9516_CMOSDIV4_BYPASS 0x20 d :=
  ⟨rfl, rfl, rfl, rfl⟩

/-! The register that a part of the configuration goes to is not written by the
other parts. -/

theorem writePll_acount (regs : Regs) (pll : Ad9516Pll) :
    writePll regs pll AD9516_ACOUNT = BitVec.ofInt 8 pll.a &&& 0x3f := by
  unfold writePll
  simp (disch := decide) only [writeD_eq, wr_of_ne, writeStage_of_ne,
    writeDvco_of_ne, writeP_of_ne, writeR_of_ne, writeB_of_ne]
  exact wr_self

theorem writePll_bcount (regs : Regs) (pll : Ad9516Pll) :
    writePll regs pll AD9516_BCOUNT_LSB = BitVec.ofInt 8 pll.b ∧
      writePll regs pll AD9516_BCOUNT_MSB =
        BitVec.ofInt 8 (pll.b.shiftRight 8) &&& 0x3f := by
  unfold writePll
  simp (disch := decide) only [writeD_eq, wr_of_ne, writeStage_of_ne,
    writeDvco_of_ne, writeP_of_ne, writeR_of_ne]
  exact ⟨(wr_of_ne (by decide)).trans wr_self, wr_self⟩

theorem writePll_rcount (regs : Regs) (pll : Ad9516Pll) :
    writePll regs pll AD9516_RCOUNT_LSB = BitVec.ofInt 8 pll.r ∧
      writePll regs pll AD9516_RCOUNT_MSB =
        BitVec.ofInt 8 (pll.r.shiftRight 8) &&& 0x3f := by
  unfold writePll
  simp (disch := decide) only [writeD_eq, wr_of_ne, writeStage_of_ne,
    writeDvco_of_ne, writeP_of_ne]
  exact ⟨(wr_of_ne (by decide)).trans wr_self, wr_self⟩

theorem writePll_pll1 (regs : Regs) (pll : Ad9516Pll) :
    ∃ x : U8, writePll regs pll AD9516_PLL1 =
      (x &&& ~~~0x07) ||| prescalerOf pll.p := by
  unfold writePll
  simp (disch := decide) only [writeD_eq, wr_of_ne, writeStage_of_ne,
    writeDvco_of_ne]
  unfold clkgenWriteP clkgenOr clkgenAnd clkgenRd
  rw [wr_self, wr_self]
  exact ⟨_, rfl⟩

theorem writeDvco_dvco (hdvco : 0 ≤ pll.dvco) (hone : pll.dvco ≠ 1) :
    Ad9516.dvco (clkgenWriteDvco regs pll) = dvcoSet pll := by
  have hclear : ∀ x : U8, ¬ (x &&& ~~~0x1).getLsbD 0 = true := by
    intro x
    rw [BitVec.getLsbD_and]
    simp
  have hcode : ∀ k : Fin 5,
      (BitVec.ofInt 8 ((k.val : Int)) &&& 0x7).toNat % 2 ^ 3 = k.val := by decide
  have hset : ∀ dvco : Int, 2 ≤ dvco → dvco ≤ 6 →
      Ad9516.dvco (clkgenAnd (clkgenWr regs AD9516_VCO_DIVIDER
        (BitVec.ofInt 8 (dvco - 2) &&& 0x7)) AD9516_INPUT_CLKS (~~~0x1)) =
      dvco.toNat := by
    intro dvco hlo hhi
    have hk : ((dvco - 2).toNat : Int) = dvco - 2 :=
      Int.toNat_of_nonneg (by omega)
    have h := hcode ⟨(dvco - 2).toNat, by omega⟩
    dsimp only at h
    rw [hk] at h
    unfold Ad9516.dvco clkgenAnd
    rw [wr_self, if_neg (hclear _), wr_of_ne (by decide), wr_self, h]
    omega
  unfold clkgenWriteDvco dvcoSet
  by_cases hbypass : pll.dvco = 0 ∧ pll.external ≠ 0
  · rw [if_pos hbypass, if_neg (by omega), if_pos (by omega)]
    unfold Ad9516.dvco clkgenOr
    rw [wr_self, if_pos]
    rw [BitVec.getLsbD_or]
    simp
  · rw [if_neg hbypass]
    dsimp only
    by_cases hin : 2 ≤ pll.dvco ∧ pll.dvco ≤ 6
    · rw [if_pos hin, if_neg (c := pll.dvco = 0) (by omega), if_neg (by omega)]
      exact hset _ hin.1 hin.2
    · rw [if_neg hin, if_neg (c := pll.dvco ≤ 1 ∧ pll.external ≠ 0) (by omega)]
      by_cases h0 : pll.dvco = 0
      · rw [if_pos h0, if_neg (by decide)]
        exact hset 2 (by decide) (by decide)
      · rw [if_neg h0, if_pos (by omega)]
        exact hset 2 (by decide) (by decide)

theorem writePll_dvco (hdvco : 0 ≤ pll.dvco) (hone : pll.dvco ≠ 1) :
    Ad9516.dvco (writePll regs pll) = dvcoSet pll := by
  unfold writePll Ad9516.dvco
  simp (disch := decide) only [writeD_eq, wr_of_ne, writeStage_of_ne]
  exact writeDvco_dvco hdvco hone

def InRange (d : Int) : Prop := d = 0 ∨ 2 ≤ d ∧ d ≤ 32

theorem writePll_stage1 (hd : InRange pll.d1) :
    ∀ addrs ∈ [divider3, divider4],
      Ad9516.stage1 (writePll regs pll) addrs = asked pll.d1 := by
  simp only [List.forall_mem_cons, List.not_mem_nil, false_imp_iff,
    implies_true, and_true]
  constructor <;>
    unfold Ad9516.stage1 Ad9516.stage writePll <;>
    simp (disch := decide) only [writeD_eq, wr_of_ne, writeStage_of_ne]
  · have hbit : ∀ regs : Regs, (clkgenWriteStage regs AD9516_CMOSDIV3_2
        AD9516_CMOSDIV3_BYPASS 0x20 pll.d2 divider3.bypass).getLsbD 4 =
        (regs divider3.bypass).getLsbD 4 := fun _ =>
      bypass_other mask5 (by decide) (by decide) (by decide)
    rw [hbit]
    exact stage_self mask4 (by decide) hd
  · have hbit : ∀ regs : Regs, (clkgenWriteStage regs AD9516_CMOSDIV4_2
        AD9516_CMOSDIV4_BYPASS 0x20 pll.d2 divider4.bypass).getLsbD 4 =
        (regs divider4.bypass).getLsbD 4 := fun _ =>
      bypass_other mask5 (by decide) (by decide) (by decide)
    rw [hbit]
    exact stage_self mask4 (by decide) hd

theorem writePll_stage2 (hd : InRange pll.d2) :
    ∀ addrs ∈ [divider3, divider4],
      Ad9516.stage2 (writePll regs pll) addrs = asked pll.d2 := by
  simp only [List.forall_mem_cons, List.not_mem_nil, false_imp_iff,
    implies_true, and_true]
  constructor <;>
    unfold Ad9516.stage2 Ad9516.stage writePll <;>
    simp (disch := decide) only [writeD_eq, wr_of_ne, writeStage_of_ne] <;>
    exact stage_self mask5 (by decide) hd

end Written

/-! ## Putting the dividers in order -/

section Order

variable {pll : Ad9516Pll}

theorem checkPllDividers_keeps (pll : Ad9516Pll) :
    (checkPllDividers pll).a = pll.a ∧ (checkPllDividers pll).b = pll.b ∧
      (checkPllDividers pll).p = pll.p ∧ (checkPllDividers pll).r = pll.r ∧
      (checkPllDividers pll).external = pll.external ∧
      (checkPllDividers pll).dvco = unsetOne pll.dvco := by
  unfold checkPllDividers
  dsimp only
  split
  · exact ⟨rfl, rfl, rfl, rfl, rfl, rfl⟩
  · split
    · exact ⟨rfl, rfl, rfl, rfl, rfl, rfl⟩
    · split <;> exact ⟨rfl, rfl, rfl, rfl, rfl, rfl⟩

theorem checkPllDividers_stages (pll : Ad9516Pll) :
    (checkPllDividers pll).d1 = unsetOne pll.d1 ∧
        (checkPllDividers pll).d2 = unsetOne pll.d2 ∨
      (checkPllDividers pll).d1 = unsetOne pll.d2 ∧
        (checkPllDividers pll).d2 = unsetOne pll.d1 := by
  unfold checkPllDividers
  dsimp only
  split
  · exact .inl ⟨rfl, rfl⟩
  · split
    · next h => exact .inr ⟨rfl, h.1.symm⟩
    · split
      · exact .inr ⟨rfl, rfl⟩
      · exact .inl ⟨rfl, rfl⟩

theorem asked_unsetOne (d : Int) : asked (unsetOne d) = asked d := by
  unfold asked unsetOne
  by_cases h1 : d = 1
  · subst h1
    rfl
  · rw [if_neg h1]

theorem inRange_unsetOne {d : Int} (hlo : 0 ≤ d) (hhi : d ≤ 32) :
    InRange (unsetOne d) := by
  unfold InRange unsetOne
  split
  · exact .inl rfl
  · omega

theorem dvcoSet_checkPllDividers :
    dvcoSet (checkPllDividers pll) = dvcoSet pll := by
  obtain ⟨-, -, -, -, hext, hdvco⟩ := checkPllDividers_keeps pll
  unfold dvcoSet
  rw [hext, hdvco]
  unfold unsetOne
  by_cases h1 : pll.dvco = 1
  · rw [if_pos h1, h1]
    simp
  · rw [if_neg h1]

end Order

/-! ## Counters -/

section Counters

variable {regs : Regs} {pll : Ad9516Pll}

theorem bytes_toNat (x y : U8) :
    (x.zeroExtend 32 ||| y.zeroExtend 32 <<< 8).toNat =
      x.toNat + y.toNat * 2 ^ 8 := by
  have hx : x.toNat < 2 ^ 8 := x.isLt
  have hy : y.toNat < 2 ^ 8 := y.isLt
  have hshift : (y.zeroExtend 32 <<< 8).toNat = y.toNat <<< 8 := by
    rw [BitVec.toNat_shiftLeft, BitVec.toNat_setWidth]
    rw [Nat.mod_eq_of_lt (a := y.toNat) (by omega), Nat.shiftLeft_eq]
    omega
  rw [BitVec.toNat_or, hshift, BitVec.toNat_setWidth,
    Nat.mod_eq_of_lt (by omega), Nat.or_comm,
    ← Nat.shiftLeft_add_eq_or_of_lt hx, Nat.shiftLeft_eq, Nat.add_comm]

theorem counter_split {v : Int} {k : Nat} (hk : k ≤ 6) (hlo : 0 ≤ v)
    (hhi : v < 2 ^ (8 + k)) :
    ((BitVec.ofInt 8 v).toNat : Int) +
      ((BitVec.ofInt 8 (v.shiftRight 8) &&& 0x3f).toNat % 2 ^ k * 2 ^ 8 : Nat) = v := by
  obtain ⟨n, rfl⟩ := Int.eq_ofNat_of_zero_le hlo
  have hn : n < 2 ^ (8 + k) := by exact_mod_cast hhi
  have hpow : 2 ^ k ≤ 2 ^ 6 := Nat.pow_le_pow_right (by decide) hk
  have hhigh : n / 2 ^ 8 < 2 ^ k := by
    rw [Nat.div_lt_iff_lt_mul (by decide), Nat.mul_comm, ← Nat.pow_add]
    exact hn
  have hshift : (n : Int).shiftRight 8 = ((n / 2 ^ 8 : Nat) : Int) := by
    rw [← Nat.shiftRight_eq_div_pow]
    rfl
  rw [hshift, BitVec.ofInt_natCast, BitVec.ofInt_natCast,
    toNat_and_low (k := 6) rfl, BitVec.toNat_ofNat, BitVec.toNat_ofNat,
    Nat.mod_eq_of_lt (a := n / 2 ^ 8) (by omega),
    Nat.mod_eq_of_lt (a := n / 2 ^ 8) (by omega),
    Nat.mod_eq_of_lt (a := n / 2 ^ 8) hhigh]
  omega

theorem prescaler_decoded {p : Int} (hp : p = 4 ∨ p = 8 ∨ p = 16 ∨ p = 32)
    {x : U8} (hx : regs AD9516_PLL1 = (x &&& ~~~0x07) ||| prescalerOf p) :
    (Ad9516.prescaler regs : Int) = p ∧
      clkgenReadP regs = if p = 16 ∨ p = 32 then p else 1 := by
  have hlow : ∀ c : U8, c &&& 0x7 = c →
      ((x &&& ~~~0x07) ||| c) &&& 0x7 = c := by
    intro c hc
    have hclear : (~~~0x07 : U8) &&& 0x7 = 0#8 := by decide
    rw [BitVec.and_comm, BitVec.and_or_distrib_left, BitVec.and_comm _ c, hc,
      BitVec.and_comm, BitVec.and_assoc, hclear, BitVec.and_zero, BitVec.zero_or]
  have hread : clkgenRd regs AD9516_PLL1 &&& 0x7 = prescalerOf p := by
    rw [clkgenRd, hx]
    apply hlow
    rcases hp with rfl | rfl | rfl | rfl <;> rfl
  have hmod : (regs AD9516_PLL1).toNat % 8 = (prescalerOf p).toNat := by
    rw [← hread, clkgenRd, toNat_and_low (k := 3) rfl]
    rfl
  unfold Ad9516.prescaler clkgenReadP
  rw [hmod, hread]
  rcases hp with rfl | rfl | rfl | rfl <;> exact ⟨rfl, rfl⟩

theorem acount_decoded {a : Int} (hlo : 0 ≤ a) (hhi : a ≤ 63) :
    ((BitVec.ofInt 8 a &&& 0x3f).toNat : Int) = a := by
  obtain ⟨n, rfl⟩ := Int.eq_ofNat_of_zero_le hlo
  rw [BitVec.ofInt_natCast, toNat_and_low (k := 6) rfl, BitVec.toNat_ofNat]
  omega

end Counters

/-! ## Reading back -/

section Read

variable {regs : Regs}

theorem readDvco_eq (h : Ad9516.dvco regs ≤ 6) :
    clkgenReadDvco regs = Ad9516.dvco regs := by
  have hbit : ∀ x : U8, x &&& 0x1 ≠ 0 ↔ x.getLsbD 0 = true := by decide
  unfold clkgenReadDvco clkgenRd
  unfold Ad9516.dvco at h ⊢
  by_cases hbypass : (regs AD9516_INPUT_CLKS).getLsbD 0 = true
  · rw [if_pos ((hbit _).mpr hbypass), if_pos hbypass]
    rfl
  · rw [if_neg hbypass] at h
    rw [if_neg (fun hne => hbypass ((hbit _).mp hne)), if_neg hbypass]
    rw [toNat_and_low (k := 3) rfl, if_neg (by omega)]
    omega

theorem nibbles_read (x : U8) :
    ((((x &&& 0xf0) >>> 4).toNat : Int) + (x &&& 0x0f).toNat + 2) =
      (x.toNat / 2 ^ 4 + x.toNat % 2 ^ 4 + 2 : Nat) := by
  have hhigh : ((x &&& 0xf0) >>> 4) = x >>> 4 := by
    have hall : ∀ x : U8, (x &&& 0xf0) >>> 4 = x >>> 4 := by decide
    exact hall x
  rw [hhigh, BitVec.toNat_ushiftRight, Nat.shiftRight_eq_div_pow,
    toNat_and_low (k := 4) rfl]
  omega

theorem readD1_eq :
    clkgenReadD regs AD9516_CMOSDIV3_1 1 = Ad9516.stage1 regs divider3 := by
  have hbit : ∀ x : U8, x &&& ((1 : U8) <<< 4) ≠ 0 ↔ x.getLsbD 4 = true := by
    decide
  have hchip : Ad9516.stage1 regs divider3 =
      if (regs AD9516_CMOSDIV3_BYPASS).getLsbD 4 then 1
      else (regs AD9516_CMOSDIV3_1).toNat / 2 ^ 4 +
        (regs AD9516_CMOSDIV3_1).toNat % 2 ^ 4 + 2 := rfl
  rw [hchip]
  by_cases hbypass : (regs AD9516_CMOSDIV3_BYPASS).getLsbD 4 = true
  · rw [if_pos hbypass]
    exact if_pos ((hbit _).mpr hbypass)
  · rw [if_neg hbypass]
    refine (if_neg fun hne => hbypass ((hbit _).mp hne)).trans ?_
    exact nibbles_read _

theorem readD2_eq (h : (regs AD9516_CMOSDIV3_BYPASS).getLsbD 5 = true) :
    clkgenReadD regs AD9516_CMOSDIV3_1 2 = Ad9516.stage2 regs divider3 := by
  have hbit : ∀ x : U8, x.getLsbD 5 = true → x &&& ((1 : U8) <<< 5) ≠ 0 := by
    decide
  have hchip : Ad9516.stage2 regs divider3 = 1 := if_pos h
  rw [hchip]
  exact if_pos (hbit _ h)

end Read

theorem clkgenCheckPll_zero {pll : Ad9516Pll} (h : clkgenCheckPll pll = 0) :
    pll.a ≤ 63 ∧ (pll.p = 4 ∨ pll.p = 8 ∨ pll.p = 16 ∨ pll.p = 32) ∧
      (0 < pll.b ∧ pll.b ≤ 8191) ∧ 0 < pll.r ∧ pll.r ≤ 16383 := by
  unfold clkgenCheckPll at h
  split at h
  · cases h
  · omega

/-- A configuration that is accepted is programmed. -/
theorem clkgenApplyPllConf_programs {pll : Ad9516Pll} {readback : U8}
    {regs regs' : Regs} {ret : Int} (hcheck : clkgenCheckPll pll = 0)
    (hdvco : 0 ≤ pll.dvco) (hd1 : 0 ≤ pll.d1) (hd2 : 0 ≤ pll.d2)
    (happly : clkgenApplyPllConf readback regs pll = some (ret, regs')) :
    Programs pll regs' := by
  obtain ⟨ha, hp, hb, hr⟩ := clkgenCheckPll_zero hcheck
  have hregs : regs' = writePll regs (checkPllDividers pll) := by
    unfold clkgenApplyPllConf at happly
    dsimp only at happly
    split at happly
    · cases happly
    · cases happly
      rfl
  obtain ⟨hka, hkb, hkp, hkr, -, hkdvco⟩ := checkPllDividers_keeps pll
  obtain ⟨hblsb, hbmsb⟩ := writePll_bcount regs (checkPllDividers pll)
  obtain ⟨hrlsb, hrmsb⟩ := writePll_rcount regs (checkPllDividers pll)
  obtain ⟨x, hpll1⟩ := writePll_pll1 regs (checkPllDividers pll)
  have hacount := writePll_acount regs (checkPllDividers pll)
  have hdv : Ad9516.dvco regs' = dvcoSet pll := by
    rw [hregs, writePll_dvco, dvcoSet_checkPllDividers]
    · rw [hkdvco]
      unfold unsetOne
      split <;> omega
    · rw [hkdvco]
      unfold unsetOne
      split <;> omega
  have hdvle : Ad9516.dvco regs' ≤ 6 := by
    rw [hdv]
    unfold dvcoSet
    split
    · omega
    · split <;> decide
  rw [← hregs] at hblsb hbmsb hrlsb hrmsb hpll1 hacount
  rw [hkb] at hblsb hbmsb
  rw [hkr] at hrlsb hrmsb
  rw [hkp] at hpll1
  rw [hka] at hacount
  obtain ⟨hprescaler, hreadP⟩ := prescaler_decoded hp hpll1
  have hbcount : (Ad9516.b regs' : Int) = pll.b := by
    unfold Ad9516.b
    rw [hblsb, hbmsb, Int.natCast_add]
    exact counter_split (by decide) (by omega) (by omega)
  have hrcount : (Ad9516.r regs' : Int) = pll.r := by
    unfold Ad9516.r
    rw [hrlsb, hrmsb, Int.natCast_add]
    exact counter_split (by decide) (by omega) (by omega)
  have hcount : 0 ≤ pll.a → (Ad9516.a regs' : Int) = pll.a := by
    intro hlo
    unfold Ad9516.a
    rw [hacount, Nat.mod_eq_of_lt, acount_decoded hlo ha]
    rw [toNat_and_low (k := 6) rfl]
    exact Nat.mod_lt _ (by decide)
  exact {
    n := by
      intro hlo
      unfold Ad9516.n
      rw [Int.natCast_add, Int.natCast_mul, hprescaler, hbcount, hcount hlo]
    r := hrcount
    total := by
      intro h1 h2 addrs haddrs
      have hin1 := inRange_unsetOne hd1 h1
      have hin2 := inRange_unsetOne hd2 h2
      unfold Ad9516.total
      rw [hdv, hregs]
      rcases checkPllDividers_stages pll with ⟨hs1, hs2⟩ | ⟨hs1, hs2⟩
      · rw [← hs1] at hin1
        rw [← hs2] at hin2
        rw [writePll_stage1 hin1 addrs haddrs, writePll_stage2 hin2 addrs haddrs,
          hs1, hs2, asked_unsetOne, asked_unsetOne]
      · rw [← hs2] at hin1
        rw [← hs1] at hin2
        rw [writePll_stage1 hin2 addrs haddrs, writePll_stage2 hin1 addrs haddrs,
          hs1, hs2, asked_unsetOne, asked_unsetOne, Nat.mul_assoc, Nat.mul_assoc,
          Nat.mul_comm (asked pll.d2)]
    readA := by
      intro hlo
      show clkgenReadA regs' = _
      unfold clkgenReadA clkgenRd
      rw [hacount, BitVec.and_assoc, BitVec.and_self]
      exact acount_decoded hlo ha
    readB := by
      rw [← hbcount]
      show clkgenReadB regs' = _
      unfold clkgenReadB clkgenRd Ad9516.b
      rw [bytes_toNat, toNat_and_low (k := 5) rfl]
    readR := by
      rw [← hrcount]
      show clkgenReadR regs' = _
      unfold clkgenReadR clkgenRd Ad9516.r
      rw [bytes_toNat, toNat_and_low (k := 6) rfl]
    readP := hreadP
    readDvco := by
      rw [← hdv]
      exact readDvco_eq hdvle
    readD1 := readD1_eq
    readD2 := readD2_eq }

/-! The VCO divider cannot be bypassed while the internal PLL is used: the
outputs run at half of the requested frequency, and the call succeeds. -/

/-- What was asked for: all parameters, and the division at the outputs. -/
structure AsAsked (pll : Ad9516Pll) (regs : Regs) : Prop where
  n : (Ad9516.n regs : Int) = pll.p * pll.b + pll.a
  r : (Ad9516.r regs : Int) = pll.r
  total : ∀ addrs ∈ [divider3, divider4],
    Ad9516.total regs addrs = asked pll.dvco * asked pll.d1 * asked pll.d2

def vcoBypassed : Ad9516Pll :=
  { a := 0, b := 4375, p := 16, r := 1000, dvco := 1, d1 := 14, d2 := 1
    external := 0, inputFreq := 40000000 }

theorem vco_bypass_replaced :
    ¬ ∀ (pll : Ad9516Pll) (readback : U8) (regs regs' : Regs) (ret : Int),
        clkgenCheckPll pll = 0 → 0 ≤ pll.dvco → 0 ≤ pll.d1 → 0 ≤ pll.d2 →
        clkgenApplyPllConf readback regs pll = some (ret, regs') →
        (AsAsked pll regs' ∨ ret ≠ 0) ∧
          (getPllConf regs' pll).p = pll.p ∧ (getPllConf regs' pll).a = pll.a ∧
          (getPllConf regs' pll).b = pll.b ∧ (getPllConf regs' pll).r = pll.r ∧
          (getPllConf regs' pll).dvco = Ad9516.dvco regs' ∧
          (getPllConf regs' pll).d1 = Ad9516.stage1 regs' divider3 ∧
          (getPllConf regs' pll).d2 = Ad9516.stage2 regs' divider3 := by
  intro h
  have hclaim := h vcoBypassed 0x40 (fun _ => 0) _ 0 (by decide) (by decide)
    (by decide) (by decide) rfl
  rcases hclaim.1 with hasked | hret
  · have htotal := hasked.total divider3 List.mem_cons_self
    revert htotal
    decide +kernel
  · exact hret rfl

theorem clkgenApplyPllConf_programs_default :
    Programs { vcoBypassed with dvco := 2 }
      (writePll (fun _ => 0)
        (checkPllDividers { vcoBypassed with dvco := 2 })) :=
  @clkgenApplyPllConf_programs { vcoBypassed with dvco := 2 } 0x40 (fun _ => 0) _
    0 (by decide) (by decide) (by decide) (by decide) rfl

/-!
## The rules for the dividers of an output

`check_pll_dividers()` quotes two rules of the data sheet about the two
dividers of an output. The first is about a divider that is bypassed, which is
written 0; the second about an even one. The code takes a bypassed divider for
an even one, and where the second rule puts the even divider behind the odd one
the code puts it before. So the rules come out right exactly when there is
nothing to do for the second, `checkPllDividers_normalises`. The total division
is kept whatever happens, since all that is done to the dividers is to exchange
them (`checkPllDividers_of_swaps`).
-/

/-- What the frequency of the VCO is divided by, with 1 for a bypassed
divider. -/
def totalDivision (pll : Ad9516Pll) : Nat :=
  asked pll.dvco * asked pll.d1 * asked pll.d2

/-- "if only one divider is bypassed, it must be d2" -/
def BypassRule (pll : Ad9516Pll) : Prop :=
  (pll.d1 = 0 ↔ ¬pll.d2 = 0) → pll.d2 = 0

/-- "if only one divider has an even divide by, it must be d2", for dividers
that are not bypassed. -/
def EvenRule (pll : Ad9516Pll) : Prop :=
  pll.d1 ≠ 0 → pll.d2 ≠ 0 → (pll.d1 % 2 = 0 ↔ ¬pll.d2 % 2 = 0) →
    pll.d2 % 2 = 0

/-- What `check_pll_dividers()` is for. -/
structure Normalises (pll : Ad9516Pll) : Prop where
  total : totalDivision (checkPllDividers pll) = totalDivision pll
  again : checkPllDividers (checkPllDividers pll) = checkPllDividers pll
  bypass : BypassRule (checkPllDividers pll)
  even : EvenRule (checkPllDividers pll)

section Dividers

variable {pll : Ad9516Pll} {d : Int}

/-! ### A divider of 1 -/

@[simp]
theorem unsetOne_unsetOne : unsetOne (unsetOne d) = unsetOne d := by
  unfold unsetOne
  split <;> simp_all

/-! ### The exchange -/

def unsetOnes (pll : Ad9516Pll) : Ad9516Pll :=
  { pll with
    dvco := unsetOne pll.dvco
    d1 := unsetOne pll.d1
    d2 := unsetOne pll.d2 }

def swapped (pll : Ad9516Pll) : Ad9516Pll :=
  { pll with
    dvco := unsetOne pll.dvco
    d1 := unsetOne pll.d2
    d2 := unsetOne pll.d1 }

def Swaps (d1 d2 : Int) : Prop :=
  d1 = 0 ∧ d2 ≠ 0 ∨ d1 % 2 ≠ 0 ∧ d2 % 2 = 0

theorem tmod_two_iff : d.tmod 2 = 0 ↔ d % 2 = 0 := by
  rw [← Int.dvd_iff_tmod_eq_zero, ← Int.dvd_iff_emod_eq_zero]

theorem checkPllDividers_of_swaps (h : Swaps (unsetOne pll.d1) (unsetOne pll.d2)) :
    checkPllDividers pll = swapped pll := by
  unfold checkPllDividers swapped
  simp only [tmod_two_iff, ne_eq]
  obtain ⟨h1, h2⟩ | ⟨h1, h2⟩ := h
  · rw [if_neg (fun hb => h2 hb.2), if_pos ⟨h1, h2⟩, h1]
  · have hne : unsetOne pll.d1 ≠ 0 := by
      intro h0
      simp [h0] at h1
    rw [if_neg (fun hb => hne hb.1), if_neg (fun hb => hne hb.1),
      if_pos ⟨h1, h2⟩]

theorem checkPllDividers_of_not_swaps
    (h : ¬Swaps (unsetOne pll.d1) (unsetOne pll.d2)) :
    checkPllDividers pll = unsetOnes pll := by
  unfold checkPllDividers unsetOnes
  simp only [tmod_two_iff, ne_eq]
  split
  · rfl
  · rw [if_neg (fun hb => h (.inl hb)), if_neg (fun hb => h (.inr hb))]

theorem totalDivision_check :
    totalDivision (checkPllDividers pll) = totalDivision pll := by
  by_cases h : Swaps (unsetOne pll.d1) (unsetOne pll.d2)
  · rw [checkPllDividers_of_swaps h]
    simp only [totalDivision, swapped, asked_unsetOne]
    exact Nat.mul_right_comm _ _ _
  · rw [checkPllDividers_of_not_swaps h]
    simp only [totalDivision, unsetOnes, asked_unsetOne]

/-! ### The two rules -/

theorem Normalises.of_parity
    (h : unsetOne pll.d1 % 2 = unsetOne pll.d2 % 2) : Normalises pll := by
  by_cases hs : Swaps (unsetOne pll.d1) (unsetOne pll.d2)
  · obtain ⟨h1, h2⟩ | ⟨h1, h2⟩ := hs
    · have heq : checkPllDividers pll = swapped pll :=
        checkPllDividers_of_swaps (.inl ⟨h1, h2⟩)
      have hback : ¬Swaps (unsetOne (swapped pll).d1) (unsetOne (swapped pll).d2) := by
        simp only [swapped, unsetOne_unsetOne, Swaps]
        omega
      refine ⟨totalDivision_check, ?_, ?_, ?_⟩
      · rw [heq, checkPllDividers_of_not_swaps hback]
        simp [unsetOnes, swapped]
      · rw [heq]
        exact fun _ => h1
      · rw [heq]
        exact fun _ hne => absurd h1 hne
    · omega
  · have heq : checkPllDividers pll = unsetOnes pll :=
      checkPllDividers_of_not_swaps hs
    have hback : ¬Swaps (unsetOne (unsetOnes pll).d1) (unsetOne (unsetOnes pll).d2) := by
      simpa [unsetOnes] using hs
    refine ⟨totalDivision_check, ?_, ?_, ?_⟩
    · rw [heq, checkPllDividers_of_not_swaps hback]
      simp [unsetOnes]
    · rw [heq]
      intro hone
      simp only [unsetOnes, Swaps] at hone hs ⊢
      omega
    · rw [heq]
      intro _ _ hone
      simp only [unsetOnes] at hone ⊢
      omega

theorem Normalises.parity (h : Normalises pll) :
    unsetOne pll.d1 % 2 = unsetOne pll.d2 % 2 := by
  by_contra hne
  have hagain := h.again
  have hbypass := h.bypass
  have heven := h.even
  by_cases hs : Swaps (unsetOne pll.d1) (unsetOne pll.d2)
  · rw [checkPllDividers_of_swaps hs] at hagain hbypass heven
    obtain ⟨h1, h2⟩ | ⟨h1, h2⟩ := hs
    · -- An odd divider that has been put first is exchanged again.
      have hback : Swaps (unsetOne (swapped pll).d1) (unsetOne (swapped pll).d2) := by
        simp only [swapped, unsetOne_unsetOne, Swaps]
        omega
      rw [checkPllDividers_of_swaps hback] at hagain
      have hd1 := congrArg Ad9516Pll.d1 hagain
      simp only [swapped, unsetOne_unsetOne] at hd1
      exact h2 (hd1.symm.trans h1)
    · simp only [BypassRule, EvenRule, swapped] at hbypass heven
      omega
  · rw [checkPllDividers_of_not_swaps hs] at heven
    simp only [EvenRule, unsetOnes] at heven
    simp only [Swaps] at hs
    omega

/-- The dividers come out as the data sheet wants them if and only if both are
even, counting bypassed ones, or both are odd. -/
theorem checkPllDividers_normalises (pll : Ad9516Pll) :
    Normalises pll ↔ unsetOne pll.d1 % 2 = unsetOne pll.d2 % 2 :=
  ⟨Normalises.parity, Normalises.of_parity⟩

/-- An odd divider followed by a bypassed one, as in the default configuration
but for the parity. -/
theorem checkPllDividers_odd_bypassed :
    ¬∀ pll : Ad9516Pll, 0 ≤ pll.dvco → 0 ≤ pll.d1 → 0 ≤ pll.d2 →
      Normalises pll := by
  intro h
  have hrule := (h
    { a := 0, b := 4375, p := 16, r := 1000, dvco := 2, d1 := 7, d2 := 1,
      external := 0, inputFreq := 40000000 } (by decide) (by decide)
    (by decide)).bypass
  revert hrule
  unfold BypassRule
  decide

end Dividers

end Coht.Cvorg
