import Coht.Cvorg.Channel

/-!
# The clock generator (`clkgen.c`, `ad9516_priv.h`)

The AD9516 has 8-bit registers behind a serial interface; a transfer is taken
to arrive. `clkgen_apply_pll_conf()` puts a configuration into them, after
`check_pll_dividers()` has put the dividers in order, and `get_pll_conf()` takes
it out again.

`Ad9516` is how the chip itself reads its registers: the counters of the PLL,
the VCO divider and the two stages of the dividers of the CMOS outputs.
-/

namespace Coht.Cvorg

abbrev U8 := BitVec 8

def AD9516_RCOUNT_LSB : Nat := 0x11
def AD9516_RCOUNT_MSB : Nat := 0x12
def AD9516_ACOUNT : Nat := 0x13
def AD9516_BCOUNT_LSB : Nat := 0x14
def AD9516_BCOUNT_MSB : Nat := 0x15
def AD9516_PLL1 : Nat := 0x16
def AD9516_PLL3 : Nat := 0x18
def AD9516_CMOSDIV3_1 : Nat := 0x199
def AD9516_CMOSDIV3_2 : Nat := 0x19B
def AD9516_CMOSDIV3_BYPASS : Nat := 0x19C
def AD9516_CMOSDIV4_1 : Nat := 0x19E
def AD9516_CMOSDIV4_2 : Nat := 0x1A0
def AD9516_CMOSDIV4_BYPASS : Nat := 0x1A1
def AD9516_VCO_DIVIDER : Nat := 0x1E0
def AD9516_INPUT_CLKS : Nat := 0x1E1
def AD9516_UPDATE_ALL : Nat := 0x232

structure Ad9516Pll where
  a : Int
  b : Int
  p : Int
  r : Int
  dvco : Int
  d1 : Int
  d2 : Int
  external : Int
  inputFreq : Int
  deriving DecidableEq, Repr

/-- The registers of the chip, by address. -/
abbrev Regs := Nat → U8

/-! ## Serial transfers -/

def clkgenRd (regs : Regs) (addr : Nat) : U8 := regs addr

def clkgenWr (regs : Regs) (addr : Nat) (data : U8) : Regs :=
  Function.update regs addr data

def clkgenOr (regs : Regs) (addr : Nat) (data : U8) : Regs :=
  clkgenWr regs addr (clkgenRd regs addr ||| data)

def clkgenAnd (regs : Regs) (addr : Nat) (data : U8) : Regs :=
  clkgenWr regs addr (clkgenRd regs addr &&& data)

/-! ## Writing a configuration -/

/-- 1 and 0 both mean that a divider is bypassed. -/
def unsetOne (d : Int) : Int := if d = 1 then 0 else d

def checkPllDividers (pll : Ad9516Pll) : Ad9516Pll :=
  let pll :=
    { pll with
      dvco := unsetOne pll.dvco
      d1 := unsetOne pll.d1
      d2 := unsetOne pll.d2 }
  if pll.d1 = 0 ∧ pll.d2 = 0 then pll
  else if pll.d1 = 0 ∧ pll.d2 ≠ 0 then { pll with d1 := pll.d2, d2 := 0 }
  else if pll.d1.tmod 2 ≠ 0 ∧ pll.d2.tmod 2 = 0 then
    { pll with d1 := pll.d2, d2 := pll.d1 }
  else pll

def clkgenWriteA (regs : Regs) (a : Int) : Regs :=
  clkgenWr regs AD9516_ACOUNT (BitVec.ofInt 8 a &&& 0x3f)

def clkgenWriteB (regs : Regs) (b : Int) : Regs :=
  clkgenWr (clkgenWr regs AD9516_BCOUNT_LSB (BitVec.ofInt 8 b))
    AD9516_BCOUNT_MSB (BitVec.ofInt 8 (b.shiftRight 8) &&& 0x3f)

def clkgenWriteR (regs : Regs) (r : Int) : Regs :=
  clkgenWr (clkgenWr regs AD9516_RCOUNT_LSB (BitVec.ofInt 8 r))
    AD9516_RCOUNT_MSB (BitVec.ofInt 8 (r.shiftRight 8) &&& 0x3f)

def prescalerOf (p : Int) : U8 :=
  if p = 2 then 0x2
  else if p = 4 then 0x3
  else if p = 8 then 0x4
  else if p = 16 then 0x5
  else 0x6

def clkgenWriteP (regs : Regs) (p : Int) : Regs :=
  clkgenOr (clkgenAnd regs AD9516_PLL1 (~~~0x07)) AD9516_PLL1 (prescalerOf p)

def clkgenWriteDvco (regs : Regs) (pll : Ad9516Pll) : Regs :=
  if pll.dvco = 0 ∧ pll.external ≠ 0 then
    clkgenOr regs AD9516_INPUT_CLKS 0x1
  else
    let dvco := if pll.dvco = 0 then 2 else pll.dvco
    let dvco := if 2 > dvco ∨ dvco > 6 then 2 else dvco
    clkgenAnd
      (clkgenWr regs AD9516_VCO_DIVIDER (BitVec.ofInt 8 (dvco - 2) &&& 0x7))
      AD9516_INPUT_CLKS (~~~0x1)

/-- The addresses of a CMOS divider, 3 or 4: its two stages and the bypass
bits. -/
structure DividerAddrs where
  stage1 : Nat
  stage2 : Nat
  bypass : Nat

def divider3 : DividerAddrs :=
  ⟨AD9516_CMOSDIV3_1, AD9516_CMOSDIV3_2, AD9516_CMOSDIV3_BYPASS⟩

def divider4 : DividerAddrs :=
  ⟨AD9516_CMOSDIV4_1, AD9516_CMOSDIV4_2, AD9516_CMOSDIV4_BYPASS⟩

/-- `clkgen_write_d()` for one stage, with the addresses that it looks up. -/
def clkgenWriteStage (regs : Regs) (dividerAddr bypassAddr : Nat)
    (bypassMask : U8) (d : Int) : Regs :=
  if d = 0 then
    clkgenOr regs bypassAddr bypassMask
  else
    let d := d - 2
    let m := BitVec.ofInt 8 (d.tdiv 2 + d.tmod 2)
    let n := BitVec.ofInt 8 (d.tdiv 2)
    clkgenAnd
      (clkgenWr regs dividerAddr ((m &&& 0xf) <<< 4 ||| n &&& 0xf))
      bypassAddr (~~~bypassMask)

def clkgenWriteD (regs : Regs) (divider nr : Nat) (d : Int) : Regs :=
  if 3 > divider ∨ divider > 4 then regs
  else if 1 > nr ∨ nr > 2 then regs
  else
    let addrs := if divider = 3 then divider3 else divider4
    if nr = 1 then clkgenWriteStage regs addrs.stage1 addrs.bypass 0x10 d
    else clkgenWriteStage regs addrs.stage2 addrs.bypass 0x20 d

/-- What `clkgen_apply_pll_conf()` has written when it comes to the
calibration. -/
def writePll (regs : Regs) (pll : Ad9516Pll) : Regs :=
  let regs := clkgenWr regs AD9516_INPUT_CLKS
    (if pll.external ≠ 0 then 0x9 else 0x2)
  let regs := clkgenWriteA regs pll.a
  let regs := clkgenWriteB regs pll.b
  let regs := clkgenWriteR regs pll.r
  let regs := clkgenWriteP regs pll.p
  let regs := clkgenWriteDvco regs pll
  let regs := clkgenWriteD regs 3 1 pll.d1
  let regs := clkgenWriteD regs 3 2 pll.d2
  let regs := clkgenWriteD regs 4 1 pll.d1
  let regs := clkgenWriteD regs 4 2 pll.d2
  let regs := clkgenWr regs AD9516_PLL3 0x00
  let regs := clkgenWr regs AD9516_UPDATE_ALL 0x01
  let regs := clkgenWr regs AD9516_PLL3 0x01
  clkgenWr regs AD9516_UPDATE_ALL 0x01

/-- `calib_vco_sleep()`: what it returns, by the read-back register after the
wait, or `none` if the computation of the wait divides by zero. -/
def calibVcoSleep (readback : U8) (freqref : Int) : Option Int :=
  let freqref := freqref.tdiv 1000 + (if freqref.tmod 1000 ≠ 0 then 1 else 0)
  if freqref = 0 then none
  else some (if readback &&& 0x40 ≠ 0 then 0 else -1)

/-- `clkgen_apply_pll_conf()`, with the read-back register as the calibration
leaves it. -/
def clkgenApplyPllConf (readback : U8) (regs : Regs) (pll : Ad9516Pll) :
    Option (Int × Regs) :=
  let pll := checkPllDividers pll
  let regs := writePll regs pll
  match calibVcoSleep readback pll.inputFreq with
  | none => none
  | some ret => some (if ret ≠ 0 then -EAGAIN else 0, regs)

def clkgenCheckPll (pll : Ad9516Pll) : Int :=
  if pll.a > pll.b ∨ pll.a > 63 ∨
      (pll.p ≠ 4 ∧ pll.p ≠ 8 ∧ pll.p ≠ 16 ∧ pll.p ≠ 16 ∧ pll.p ≠ 32) ∨
      (pll.b ≤ 0 ∨ pll.b > 8191) ∨ (pll.r ≤ 0 ∨ pll.r > 16383) then -EINVAL
  else 0

/-! ## Reading a configuration -/

def clkgenReadDvco (regs : Regs) : Int :=
  if clkgenRd regs AD9516_INPUT_CLKS &&& 0x1 ≠ 0 then 1
  else
    let retval : Int := (clkgenRd regs AD9516_VCO_DIVIDER &&& 0x7).toNat + 2
    if retval ≥ 7 then 1 else retval

/-- The stages of a divider are read from consecutive registers. -/
def clkgenReadD (regs : Regs) (offset nr : Nat) : Int :=
  let bypass := clkgenRd regs (offset + 3)
  let nr := if 1 > nr ∨ nr > 2 then 1 else nr
  let val := clkgenRd regs (offset + (nr - 1))
  let m := (val &&& 0xf0) >>> 4
  let n := val &&& 0x0f
  if bypass &&& ((1 : U8) <<< (4 + (nr - 1))) ≠ 0 then 1
  else (m.toNat : Int) + n.toNat + 2

def clkgenReadA (regs : Regs) : Int := (clkgenRd regs AD9516_ACOUNT &&& 0x3f).toNat

def clkgenReadB (regs : Regs) : Int :=
  ((clkgenRd regs AD9516_BCOUNT_LSB).zeroExtend 32 |||
    (clkgenRd regs AD9516_BCOUNT_MSB &&& 0x1f).zeroExtend 32 <<< 8).toNat

def clkgenReadR (regs : Regs) : Int :=
  ((clkgenRd regs AD9516_RCOUNT_LSB).zeroExtend 32 |||
    (clkgenRd regs AD9516_RCOUNT_MSB &&& 0x3f).zeroExtend 32 <<< 8).toNat

def clkgenReadP (regs : Regs) : Int :=
  let prescaler := clkgenRd regs AD9516_PLL1 &&& 0x7
  if prescaler = 5 then 16 else if prescaler = 6 then 32 else 1

/-- `get_pll_conf()`; the other fields of the structure stay. -/
def getPllConf (regs : Regs) (pll : Ad9516Pll) : Ad9516Pll :=
  { pll with
    a := clkgenReadA regs
    b := clkgenReadB regs
    r := clkgenReadR regs
    p := clkgenReadP regs
    dvco := clkgenReadDvco regs
    d1 := clkgenReadD regs AD9516_CMOSDIV3_1 1
    d2 := clkgenReadD regs AD9516_CMOSDIV3_1 2 }

/-! ## The chip -/

namespace Ad9516

variable (regs : Regs)

def prescaler : Nat :=
  match (regs AD9516_PLL1).toNat % 8 with
  | 0 => 1
  | 1 => 2
  | 2 => 2
  | 3 => 4
  | 4 => 8
  | 5 => 16
  | 6 => 32
  | _ => 3

def a : Nat := (regs AD9516_ACOUNT).toNat % 2 ^ 6

def b : Nat :=
  (regs AD9516_BCOUNT_LSB).toNat + (regs AD9516_BCOUNT_MSB).toNat % 2 ^ 5 * 2 ^ 8

def r : Nat :=
  (regs AD9516_RCOUNT_LSB).toNat + (regs AD9516_RCOUNT_MSB).toNat % 2 ^ 6 * 2 ^ 8

/-- The divider of the feedback path. -/
def n : Nat := prescaler regs * b regs + a regs

def dvco : Nat :=
  if (regs AD9516_INPUT_CLKS).getLsbD 0 then 1
  else (regs AD9516_VCO_DIVIDER).toNat % 2 ^ 3 + 2

/-- One stage: low cycles in the high nibble, high cycles in the low one, and
its bypass bit. -/
def stage (addr bypass bit : Nat) : Nat :=
  if (regs bypass).getLsbD bit then 1
  else (regs addr).toNat / 2 ^ 4 + (regs addr).toNat % 2 ^ 4 + 2

def stage1 (addrs : DividerAddrs) : Nat := stage regs addrs.stage1 addrs.bypass 4

def stage2 (addrs : DividerAddrs) : Nat := stage regs addrs.stage2 addrs.bypass 5

/-- What the frequency of the VCO or of the external clock is divided by at the
outputs of a divider. -/
def total (addrs : DividerAddrs) : Nat :=
  dvco regs * stage1 regs addrs * stage2 regs addrs

end Ad9516

end Coht.Cvorg
