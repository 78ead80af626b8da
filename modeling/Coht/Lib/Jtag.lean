import Mathlib.Data.List.Basic

/-!
# A JTAG port

A test access port is an automaton with sixteen states that is clocked through one pin
and steered through another. In a shift state each rising edge moves one bit from TDI
into a register and one bit out of it, the edge that leaves the state too. The bit that
is next to come out is put on TDO by the falling edge before it.

`Tap` is the port with its pins as a program that writes them one after the other meets
it, and `clock` is the pair of edges of one transfer. What comes in and goes out is kept
in histories. The facts about a scan are `Shifting.clock` for one bit and
`Shifting.scan` for a row of them.
-/

namespace Coht.Lib

inductive TapState
  | testLogicReset
  | runTestIdle
  | selectDr
  | captureDr
  | shiftDr
  | exit1Dr
  | pauseDr
  | exit2Dr
  | updateDr
  | selectIr
  | captureIr
  | shiftIr
  | exit1Ir
  | pauseIr
  | exit2Ir
  | updateIr
  deriving DecidableEq, Repr

/-- The state after a rising edge with TMS at `tms`. -/
def TapState.next (tms : Bool) : TapState → TapState
  | testLogicReset => if tms then testLogicReset else runTestIdle
  | runTestIdle => if tms then selectDr else runTestIdle
  | selectDr => if tms then selectIr else captureDr
  | captureDr => if tms then exit1Dr else shiftDr
  | shiftDr => if tms then exit1Dr else shiftDr
  | exit1Dr => if tms then updateDr else pauseDr
  | pauseDr => if tms then exit2Dr else pauseDr
  | exit2Dr => if tms then updateDr else shiftDr
  | updateDr => if tms then selectDr else runTestIdle
  | selectIr => if tms then testLogicReset else captureIr
  | captureIr => if tms then exit1Ir else shiftIr
  | shiftIr => if tms then exit1Ir else shiftIr
  | exit1Ir => if tms then updateIr else pauseIr
  | pauseIr => if tms then exit2Ir else pauseIr
  | exit2Ir => if tms then updateIr else shiftIr
  | updateIr => if tms then selectDr else runTestIdle

/-- The port: its state, the level of TCK, the bit on TDO and the two registers, with the
bit that comes out next in front. The device loads `capture` into the data register. The
histories are the bits that have gone into the instruction register, and into and out of
the data register. -/
structure Tap where
  state : TapState := .testLogicReset
  tck : Bool := false
  tdo : Bool := false
  ir : List Bool := []
  dr : List Bool := []
  capture : List Bool := []
  irIn : List Bool := []
  drIn : List Bool := []
  drOut : List Bool := []
  deriving DecidableEq, Repr

namespace Tap

/-- The rising edge of TCK. -/
def rise (tdi tms : Bool) (tap : Tap) : Tap :=
  let moved :=
    match tap.state with
    | .captureDr => { tap with dr := tap.capture }
    | .shiftDr =>
      { tap with
        dr := tap.dr.tail ++ [tdi]
        drIn := tap.drIn ++ [tdi]
        drOut := tap.drOut ++ [tap.dr.headD false] }
    | .shiftIr => { tap with ir := tap.ir.tail ++ [tdi], irIn := tap.irIn ++ [tdi] }
    | _ => tap
  { moved with state := tap.state.next tms, tck := true }

/-- The falling edge of TCK. -/
def fall (tap : Tap) : Tap :=
  { tap with
    tck := false
    tdo :=
      match tap.state with
      | .shiftDr => tap.dr.headD false
      | .shiftIr => tap.ir.headD false
      | _ => tap.tdo }

/-- The pins are set; TRST is active low and does not wait for an edge. -/
def drive (trst tck tdi tms : Bool) (tap : Tap) : Tap :=
  if !trst then { tap with state := .testLogicReset, tck := tck }
  else if tck && !tap.tck then tap.rise tdi tms
  else if !tck && tap.tck then tap.fall
  else tap

/-- TCK is let down. -/
def lower (tap : Tap) : Tap := if tap.tck then tap.fall else tap

/-- Both edges. -/
def clock (tdi tms : Bool) (tap : Tap) : Tap := (tap.rise tdi tms).fall

/-- A row of transfers, and the bits that are on TDO before their edges. -/
def scan : List (Bool × Bool) → Tap → List Bool × Tap
  | [], tap => ([], tap)
  | (tdi, tms) :: rest, tap =>
    let tail := scan rest (tap.clock tdi tms)
    (tap.tdo :: tail.1, tail.2)

section

variable {tap : Tap} {tdi tms : Bool} {l l' : List (Bool × Bool)}

theorem lower_tck : tap.lower.tck = false := by
  unfold lower
  cases h : tap.tck with
  | true => rfl
  | false => exact h

theorem lower_of_tck (h : tap.tck = false) : tap.lower = tap := by
  unfold lower
  rw [h]
  rfl

/-- The falling edge changes TDO only. -/
theorem lower_quiet (tap : Tap) : tap.lower.state = tap.state ∧ tap.lower.irIn = tap.irIn ∧
    tap.lower.drIn = tap.drIn ∧ tap.lower.drOut = tap.drOut := by
  unfold lower
  cases tap.tck <;> exact ⟨rfl, rfl, rfl, rfl⟩

theorem drive_lower : tap.drive true false tdi tms = tap.lower := by
  unfold drive lower
  cases tap.tck <;> rfl

theorem drive_rise (h : tap.tck = false) :
    tap.drive true true tdi tms = tap.rise tdi tms := by
  unfold drive
  rw [h]
  rfl

theorem drive_fall (h : tap.tck = true) : tap.drive true false tdi tms = tap.fall := by
  rw [drive_lower, lower, h]
  rfl

/-- TDO does not move with a rising edge. -/
theorem rise_tdo : (tap.rise tdi tms).tdo = tap.tdo := by
  unfold rise
  cases tap.state <;> rfl

@[simp] theorem clock_state : (tap.clock tdi tms).state = tap.state.next tms := by
  unfold clock rise fall
  cases tap.state <;> rfl

@[simp] theorem clock_tck : (tap.clock tdi tms).tck = false := rfl

/-- Only a rising edge in Shift-DR moves the bits of the data register. -/
theorem clock_drIn : (tap.clock tdi tms).drIn =
    if tap.state = .shiftDr then tap.drIn ++ [tdi] else tap.drIn := by
  unfold clock rise fall
  cases tap.state <;> rfl

theorem clock_drOut : (tap.clock tdi tms).drOut =
    if tap.state = .shiftDr then tap.drOut ++ [tap.dr.headD false] else tap.drOut := by
  unfold clock rise fall
  cases tap.state <;> rfl

theorem clock_irIn : (tap.clock tdi tms).irIn =
    if tap.state = .shiftIr then tap.irIn ++ [tdi] else tap.irIn := by
  unfold clock rise fall
  cases tap.state <;> rfl

theorem scan_append : scan (l ++ l') tap =
    ((scan l tap).1 ++ (scan l' (scan l tap).2).1, (scan l' (scan l tap).2).2) := by
  induction l generalizing tap with
  | nil => rfl
  | cons t l ih =>
    rw [List.cons_append, scan, ih]
    rfl

theorem scan_length : (scan l tap).1.length = l.length := by
  induction l generalizing tap with
  | nil => rfl
  | cons t l ih => exact congrArg (· + 1) ih

/-! ## Scanning -/

/-- TCK is low in Shift-DR, and the next bit is on TDO. -/
structure Shifting (tap : Tap) : Prop where
  state : tap.state = .shiftDr
  tck : tap.tck = false
  tdo : tap.tdo = tap.dr.headD false

/-- Shift-DR is entered with the first bit on TDO. -/
theorem shifting_clock (h : tap.state.next false = .shiftDr) :
    Shifting (tap.clock tdi false) where
  state := by rw [clock_state, h]
  tck := rfl
  tdo := by
    unfold clock rise fall
    cases hs : tap.state <;> rw [hs] at h <;> first | rfl | cases h

/-- What a row of bits does to the histories, with `outs` coming out. -/
structure Shifted (tap tap' : Tap) (ins outs : List Bool) : Prop where
  drIn : tap'.drIn = tap.drIn ++ ins
  drOut : tap'.drOut = tap.drOut ++ outs
  irIn : tap'.irIn = tap.irIn
  count : outs.length = ins.length

/-- One bit. -/
theorem Shifting.clock (h : Shifting tap) :
    Shifted tap (tap.clock tdi tms) [tdi] [tap.tdo] where
  drIn := by rw [clock_drIn, if_pos h.state]
  drOut := by rw [clock_drOut, if_pos h.state, h.tdo]
  irIn := by
    rw [clock_irIn, if_neg]
    rw [h.state]
    nofun
  count := rfl

theorem Shifted.trans {tap₁ tap₂ : Tap} {ins outs ins' outs' : List Bool}
    (h : Shifted tap tap₁ ins outs) (h' : Shifted tap₁ tap₂ ins' outs') :
    Shifted tap tap₂ (ins ++ ins') (outs ++ outs') where
  drIn := by rw [h'.drIn, h.drIn, List.append_assoc]
  drOut := by rw [h'.drOut, h.drOut, List.append_assoc]
  irIn := by rw [h'.irIn, h.irIn]
  count := by rw [List.length_append, List.length_append, h.count, h'.count]

/-- A row of bits that is not the end of the scan. -/
theorem Shifting.scan (h : Shifting tap) (bits : List Bool) :
    Shifting (tap.scan (bits.map (·, false))).2 ∧
      Shifted tap (tap.scan (bits.map (·, false))).2 bits
        (tap.scan (bits.map (·, false))).1 := by
  induction bits generalizing tap with
  | nil =>
    refine ⟨h, ?_, ?_, rfl, rfl⟩
    · exact (List.append_nil _).symm
    · exact (List.append_nil _).symm
  | cons b bits ih =>
    have hnext : Shifting (tap.clock b false) := shifting_clock (by rw [h.state]; rfl)
    obtain ⟨hlast, hrest⟩ := ih hnext
    exact ⟨hlast, h.clock.trans hrest⟩

/-- The last bit goes with the edge that leaves the state. -/
theorem Shifting.scan_last (h : Shifting tap) (bits : List Bool) (b : Bool) :
    (tap.scan (bits.map (·, false) ++ [(b, true)])).2.state = .exit1Dr ∧
      (tap.scan (bits.map (·, false) ++ [(b, true)])).2.tck = false ∧
      Shifted tap (tap.scan (bits.map (·, false) ++ [(b, true)])).2 (bits ++ [b])
        (tap.scan (bits.map (·, false) ++ [(b, true)])).1 := by
  obtain ⟨hlast, hrest⟩ := h.scan bits
  rw [scan_append]
  refine ⟨?_, rfl, hrest.trans hlast.clock⟩
  show (Tap.clock b true _).state = _
  rw [clock_state, hlast.state]
  rfl

/-! ## The end of a scan

Two edges with TMS up and then down lead from Exit1-DR through Update-DR to
Run-Test/Idle.
-/

def finish : List (Bool × Bool) := [(false, true), (false, false)]

theorem Shifting.scan_finish (h : Shifting tap) (bits : List Bool) (b : Bool) :
    (tap.scan (bits.map (·, false) ++ [(b, true)] ++ finish)).2.state = .runTestIdle ∧
      Shifted tap (tap.scan (bits.map (·, false) ++ [(b, true)] ++ finish)).2 (bits ++ [b])
        (tap.scan (bits.map (·, false) ++ [(b, true)])).1 := by
  obtain ⟨hexit, -, hshifted⟩ := h.scan_last bits b
  rw [scan_append]
  generalize (tap.scan (bits.map (·, false) ++ [(b, true)])).1 = outs at hshifted ⊢
  generalize (tap.scan (bits.map (·, false) ++ [(b, true)])).2 = last at hexit hshifted ⊢
  obtain ⟨state, tck, tdo, ir, dr, capture, irIn, drIn, drOut⟩ := last
  cases hexit
  exact ⟨rfl, hshifted.drIn, hshifted.drOut, hshifted.irIn, hshifted.count⟩

/-- Where they lead to Run-Test/Idle they have not shifted anything. -/
theorem finish_drIn (hidle : (tap.scan finish).2.state = .runTestIdle) :
    (tap.scan finish).2.drIn = tap.drIn := by
  obtain ⟨state, tck, tdo, ir, dr, capture, irIn, drIn, drOut⟩ := tap
  cases state <;> first | rfl | cases hidle

/-! ## Counting bits -/

/-- An edge moves at most one bit. -/
theorem drIn_length_scan_le : (tap.scan l).2.drIn.length ≤ tap.drIn.length + l.length := by
  induction l generalizing tap with
  | nil => exact Nat.le_refl _
  | cons t l ih =>
    obtain ⟨tdi, tms⟩ := t
    have hrest := @ih (tap.clock tdi tms)
    have hfirst : (tap.clock tdi tms).drIn.length ≤ tap.drIn.length + 1 := by
      rw [clock_drIn]
      split
      · exact Nat.le_of_eq (List.length_append ..)
      · exact Nat.le_succ _
    rw [List.length_cons]
    show (Tap.scan l (tap.clock tdi tms)).2.drIn.length ≤ _
    omega

end

end Tap

end Coht.Lib
