import Coht.Ctr.HptdcJtag

/-!
# A command of the HPTDC at its port (`ctrdrvr-vme.c`)

The register of the module has a test access port behind it, and `HptdcCommand()` walks
through its states: the command and its parity go into the instruction register, and the
bits of all registers into the data register. The last bit of the data has to go with the
edge that leaves Shift-DR. With `Pflg` it is the parity bit. Without, every register ends
with that edge, and the next one begins outside of Shift-DR.

The port starts in Run-Test/Idle, or anywhere if `Rflg` is set.
-/

namespace Coht.Ctr

open Coht.Lib

/-- The register with a port behind it. -/
def tapRegister : JtagRegister Tap where
  hWr jwd tap := tap.drive (jwd.getLsbD 0) (jwd.getLsbD 1) (jwd.getLsbD 2) (jwd.getLsbD 4)
  hRd tap := if tap.tdo then HptdcJTAG_TDO else 0

theorem tap_hWr (tdi tms : Bool) (tap : Tap) :
    tapRegister.hWr (HptdcJTAG_TRST ||| pin HptdcJTAG_TDI tdi ||| pin HptdcJTAG_TMS tms) tap =
      tap.drive true false tdi tms := by
  cases tdi <;> cases tms <;> rfl

theorem tap_hWr_tck (tdi tms : Bool) (tap : Tap) :
    tapRegister.hWr (HptdcJTAG_TRST ||| HptdcJTAG_TCK ||| pin HptdcJTAG_TDI tdi |||
      pin HptdcJTAG_TMS tms) tap = tap.drive true true tdi tms := by
  cases tdi <;> cases tms <;> rfl

theorem tap_transfer (tdi tms : Bool) (tap : Tap) :
    tapRegister.transfer (tdi, tms) tap =
      (if tap.lower.tdo then 1 else 0, tap.lower.clock tdi tms) := by
  have hlow : tap.drive true false tdi tms = tap.lower := Tap.drive_lower ..
  have hhigh : tap.lower.drive true true tdi tms = tap.lower.rise tdi tms :=
    Tap.drive_rise Tap.lower_tck
  unfold JtagRegister.transfer JtagRegister.hptdcBitTransfer
  dsimp only
  have hfall : (tap.lower.rise tdi tms).drive true false tdi tms =
      tap.lower.clock tdi tms := Tap.drive_fall rfl
  rw [tap_hWr, tap_hWr_tck, tap_hWr, hlow, hhigh, hfall]
  congr 1
  show (if (if (tap.lower.rise tdi tms).tdo then HptdcJTAG_TDO else 0) &&& HptdcJTAG_TDO ≠ 0
    then (1 : U32) else 0) = if tap.lower.tdo then 1 else 0
  rw [Tap.rise_tdo]
  cases tap.lower.tdo <;> rfl

theorem tap_run (l : List (Bool × Bool)) (tap : Tap) (htck : tap.tck = false) :
    tapRegister.run l tap = Tap.scan l tap := by
  induction l generalizing tap with
  | nil => rfl
  | cons t l ih =>
    obtain ⟨tdi, tms⟩ := t
    have hbit : decide ((if tap.tdo then (1 : U32) else 0) ≠ 0) = tap.tdo := by
      cases tap.tdo <;> rfl
    rw [JtagRegister.run, tap_transfer, Tap.lower_of_tck htck]
    dsimp only
    rw [ih (tap.clock tdi tms) rfl, hbit]
    rfl

theorem tap_run_lower (l : List (Bool × Bool)) (hl : l ≠ []) (tap : Tap) :
    tapRegister.run l tap = Tap.scan l tap.lower := by
  cases l with
  | nil => exact absurd rfl hl
  | cons t l =>
    obtain ⟨tdi, tms⟩ := t
    rw [← tap_run _ tap.lower Tap.lower_tck, JtagRegister.run, JtagRegister.run,
      tap_transfer, tap_transfer, Tap.lower_of_tck Tap.lower_tck]

theorem tap_hptdcStateReset (tap : Tap) :
    tapRegister.hptdcStateReset tap =
      ({ tap.lower with state := .testLogicReset, tck := true } : Tap).fall.clock false false := by
  have hlow : tapRegister.hWr HptdcJTAG_TRST tap = tap.lower :=
    @Tap.drive_lower tap false false
  have hlast (t : Tap) : (tapRegister.hptdcBitTransfer 0 0 t).2 = t.lower.clock false false :=
    congrArg Prod.snd (tap_transfer false false t)
  unfold JtagRegister.hptdcStateReset
  dsimp only
  rw [hlast, hlow]
  rfl

structure Ready (tap t : Tap) : Prop where
  state : t.state = .runTestIdle
  tck : t.tck = false
  irIn : t.irIn = tap.irIn
  drIn : t.drIn = tap.drIn
  drOut : t.drOut = tap.drOut

theorem begin_ready (rflg : Bool) (tap : Tap)
    (hstart : tap.state = .runTestIdle ∨ rflg = true) :
    Ready tap (tapRegister.begin rflg tap).lower := by
  obtain ⟨hstate, hirIn, hdrIn, hdrOut⟩ := tap.lower_quiet
  cases rflg with
  | true =>
    show Ready tap (tapRegister.hptdcStateReset tap).lower
    rw [tap_hptdcStateReset, Tap.lower_of_tck rfl]
    exact ⟨rfl, rfl, hirIn, hdrIn, hdrOut⟩
  | false =>
    have hidle : tap.state = .runTestIdle := hstart.resolve_right Bool.false_ne_true
    exact ⟨hstate.trans hidle, Tap.lower_tck, hirIn, hdrIn, hdrOut⟩

theorem instruction_scan (hpio : CtrDrvrHptdcIoBuf) {tap t : Tap} (h : Ready tap t) :
    let t' := (Tap.scan (instruction hpio.command) t).2
    Tap.Shifting t' ∧ t'.irIn = tap.irIn ++ hpio.command ++ [parityBit hpio.command] ∧
      t'.drIn = tap.drIn ∧ t'.drOut = tap.drOut := by
  obtain ⟨state, tck, tdo, ir, dr, capture, irIn, drIn, drOut⟩ := t
  obtain ⟨rfl, rfl, rfl, rfl, rfl⟩ := h
  refine ⟨⟨rfl, rfl, rfl⟩, ?_, rfl, rfl⟩
  show _ ++ [_] ++ [_] ++ [_] ++ [_] ++ [_] = _ ++ [_, _, _, _] ++ [_]
  simp only [List.append_assoc, List.cons_append, List.nil_append]
  rfl

/-- The command has been executed by the port. -/
structure Executes (hpio : CtrDrvrHptdcIoBuf) (readBack : Bool) (rreg : List HptdcRegister)
    (tap tap' : Tap) : Prop where
  state : tap'.state = .runTestIdle
  irIn : tap'.irIn = tap.irIn ++ hpio.command ++ [parityBit hpio.command]
  drIn : tap'.drIn = tap.drIn ++ hpio.data ++ lastBit hpio.pflg hpio.data
  rreg : readBack = true → ∃ outs rest, tap'.drOut = tap.drOut ++ outs ++ rest ∧
    rest.length = (lastBit hpio.pflg hpio.data).length ∧ ReadBack hpio.wreg rreg outs

/-! ## The bits of the registers -/

theorem HptdcRegister.data_length (reg : HptdcRegister) : reg.data.length = reg.bits := by
  unfold HptdcRegister.data lowBits
  rw [List.length_map, List.length_range]

theorem HptdcRegister.transfers_length (pflg : Bool) (reg : HptdcRegister) :
    (reg.transfers pflg).length = reg.bits := by
  unfold HptdcRegister.transfers
  rw [List.length_map, List.length_range]

theorem HptdcRegister.transfers_parity (reg : HptdcRegister) :
    reg.transfers true = reg.data.map (·, false) := by
  unfold HptdcRegister.transfers HptdcRegister.data lowBits
  rw [List.map_map]
  rfl

theorem HptdcRegister.transfers_last {reg : HptdcRegister} (hpos : 0 < reg.bits) :
    ∃ bits b, reg.data = bits ++ [b] ∧
      reg.transfers false = bits.map (·, false) ++ [(b, true)] := by
  obtain ⟨n, hn⟩ := Nat.exists_eq_succ_of_ne_zero (Nat.ne_of_gt hpos)
  refine ⟨lowBits reg.value n, reg.value.getLsbD n, ?_, ?_⟩
  · unfold HptdcRegister.data
    rw [hn, lowBits_succ]
  · unfold HptdcRegister.transfers lowBits
    rw [hn, List.range_succ, List.map_append, List.map_map]
    congr 1
    · apply List.map_congr_left
      intro i hi
      have := List.mem_range.mp hi
      have hne : (i == n.succ - 1) = false := beq_eq_false_iff_ne.mpr (by omega)
      rw [hne]
      rfl
    · rw [List.map_singleton, Nat.succ_sub_one, beq_self_eq_true]
      rfl

theorem flatMap_transfers_length (pflg : Bool) (wreg : List HptdcRegister) :
    (wreg.flatMap (·.transfers pflg)).length = (wreg.flatMap (·.data)).length := by
  rw [List.length_flatMap, List.length_flatMap]
  congr 1
  apply List.map_congr_left
  intro reg _
  rw [reg.transfers_length, reg.data_length]

theorem flatMap_transfers_parity (wreg : List HptdcRegister) :
    wreg.flatMap (·.transfers true) = (wreg.flatMap (·.data)).map (·, false) := by
  rw [List.map_flatMap]
  congr 1
  funext reg
  exact reg.transfers_parity

/-! ## What is executed -/

section

variable {hpio : CtrDrvrHptdcIoBuf} {readBack : Bool} {rreg : List HptdcRegister}
  {tap s : Tap}

structure Selected (hpio : CtrDrvrHptdcIoBuf) (tap s : Tap) : Prop where
  shifting : s.Shifting
  irIn : s.irIn = tap.irIn ++ hpio.command ++ [parityBit hpio.command]
  drIn : s.drIn = tap.drIn
  drOut : s.drOut = tap.drOut

theorem executes_of_scan (hs : Selected hpio tap s) (bits : List Bool) (b : Bool)
    (hdata : hpio.data ++ lastBit hpio.pflg hpio.data = bits ++ [b])
    (htransfers : hpio.transfers = bits.map (·, false) ++ [(b, true)] ++ Tap.finish)
    (hread : readBack = true → ReadBack hpio.wreg rreg
      (Tap.scan (hpio.wreg.flatMap (·.transfers hpio.pflg)) s).1) :
    Executes hpio readBack rreg tap (Tap.scan hpio.transfers s).2 := by
  obtain ⟨hidle, hshifted⟩ := hs.shifting.scan_finish bits b
  rw [← htransfers] at hidle hshifted
  refine ⟨hidle, ?_, ?_, fun h => ?_⟩
  · rw [hshifted.irIn, hs.irIn]
  · rw [hshifted.drIn, hs.drIn, List.append_assoc, hdata]
  · have hparts : bits.map (·, false) ++ [(b, true)] =
        hpio.wreg.flatMap (·.transfers hpio.pflg) ++
          (lastBit hpio.pflg hpio.data).map (·, true) :=
      List.append_cancel_right htransfers.symm
    have houts := hshifted.drOut
    rw [hparts, Tap.scan_append] at houts
    generalize (Tap.scan (hpio.wreg.flatMap (·.transfers hpio.pflg)) s).2 = s' at houts
    refine ⟨_, (Tap.scan ((lastBit hpio.pflg hpio.data).map (·, true)) s').1, ?_, ?_,
      hread h⟩
    · rw [houts, hs.drOut, List.append_assoc]
    · rw [Tap.scan_length, List.length_map]

theorem executes_of_parity (hs : Selected hpio tap s) (hpflg : hpio.pflg = true)
    (hread : readBack = true → ReadBack hpio.wreg rreg
      (Tap.scan (hpio.wreg.flatMap (·.transfers hpio.pflg)) s).1) :
    Executes hpio readBack rreg tap (Tap.scan hpio.transfers s).2 := by
  have hlast : lastBit hpio.pflg hpio.data = [parityBit hpio.data] := if_pos hpflg
  refine executes_of_scan hs hpio.data (parityBit hpio.data) (congrArg _ hlast) ?_ hread
  unfold CtrDrvrHptdcIoBuf.transfers
  rw [hlast, hpflg, flatMap_transfers_parity]
  rfl

theorem executes_of_one (hs : Selected hpio tap s) (hpflg : hpio.pflg = false)
    {wreg : HptdcRegister} (hwreg : hpio.wreg = [wreg]) (hpos : 0 < wreg.bits)
    (hread : readBack = true → ReadBack hpio.wreg rreg
      (Tap.scan (hpio.wreg.flatMap (·.transfers hpio.pflg)) s).1) :
    Executes hpio readBack rreg tap (Tap.scan hpio.transfers s).2 := by
  obtain ⟨bits, b, hdata, htransfers⟩ := HptdcRegister.transfers_last hpos
  have hlast : lastBit hpio.pflg hpio.data = [] := if_neg (by rw [hpflg]; nofun)
  refine executes_of_scan hs bits b ?_ ?_ hread
  · rw [hlast, List.append_nil]
    unfold CtrDrvrHptdcIoBuf.data
    rw [hwreg, List.flatMap_singleton, hdata]
  · unfold CtrDrvrHptdcIoBuf.transfers
    rw [hlast, hwreg, hpflg, List.flatMap_singleton, htransfers, List.map_nil,
      List.append_nil]

theorem not_executes_of_none (hs : Selected hpio tap s) (hpflg : hpio.pflg = false)
    (hwreg : hpio.wreg = []) :
    ¬ Executes hpio readBack rreg tap (Tap.scan hpio.transfers s).2 := by
  intro h
  have hstate := h.state
  have hlast : lastBit hpio.pflg hpio.data = [] := if_neg (by rw [hpflg]; nofun)
  unfold CtrDrvrHptdcIoBuf.transfers at hstate
  rw [hlast, hwreg] at hstate
  have hpause : (Tap.scan Tap.finish s).2.state = .pauseDr := by
    show (Tap.clock _ _ (Tap.clock _ _ s)).state = _
    rw [Tap.clock_state, Tap.clock_state, hs.shifting.state]
    rfl
  exact TapState.noConfusion (hpause.symm.trans hstate)

theorem not_executes_of_many (hs : Selected hpio tap s) (hpflg : hpio.pflg = false)
    {reg reg' : HptdcRegister} {wreg : List HptdcRegister}
    (hwreg : hpio.wreg = reg :: reg' :: wreg) (hpos : 0 < reg.bits) (hpos' : 0 < reg'.bits) :
    ¬ Executes hpio readBack rreg tap (Tap.scan hpio.transfers s).2 := by
  intro h
  obtain ⟨bits, b, hdata, htransfers⟩ := HptdcRegister.transfers_last hpos
  have hlast : lastBit hpio.pflg hpio.data = [] := if_neg (by rw [hpflg]; nofun)
  obtain ⟨t, rest, hrest⟩ : ∃ t rest,
      (reg' :: wreg).flatMap (·.transfers false) = t :: rest := by
    apply List.exists_cons_of_ne_nil
    intro hnil
    have hlen := congrArg List.length hnil
    rw [List.flatMap_cons, List.length_append, reg'.transfers_length, List.length_nil] at hlen
    omega
  have hall : hpio.transfers =
      bits.map (·, false) ++ [(b, true)] ++ [t] ++ rest ++ Tap.finish := by
    unfold CtrDrvrHptdcIoBuf.transfers
    rw [hlast, hwreg, hpflg, List.flatMap_cons, hrest, htransfers, List.map_nil,
      List.append_nil, List.append_assoc _ [t], List.singleton_append]
  have hcount : hpio.data.length = bits.length + 1 + (1 + rest.length) := by
    unfold CtrDrvrHptdcIoBuf.data
    rw [hwreg, List.flatMap_cons, List.length_append, hdata, ← flatMap_transfers_length false,
      hrest, List.length_append, List.length_singleton, List.length_cons, Nat.add_comm 1]
  obtain ⟨hexit, -, hshifted⟩ := hs.shifting.scan_last bits b
  have hidle := h.state
  have hdrIn := congrArg List.length h.drIn
  rw [hall, Tap.scan_append] at hidle
  rw [hall, Tap.scan_append, Tap.finish_drIn hidle, Tap.scan_append, Tap.scan_append] at hdrIn
  generalize (Tap.scan (bits.map (·, false) ++ [(b, true)]) s).2 = last at hexit hshifted hdrIn
  have hskip : (Tap.scan [t] last).2.drIn = last.drIn := by
    show (Tap.clock t.1 t.2 last).drIn = _
    rw [Tap.clock_drIn, if_neg (by rw [hexit]; nofun)]
  have hmost := @Tap.drIn_length_scan_le (Tap.scan [t] last).2 rest
  rw [hskip, hshifted.drIn, hs.drIn] at hmost
  rw [hlast, List.append_nil, List.length_append, hcount] at hdrIn
  simp only [List.length_append, List.length_singleton] at hmost
  have : (Tap.scan rest (Tap.scan [t] last).2).2.drIn.length =
    tap.drIn.length + (bits.length + 1 + (1 + rest.length)) := hdrIn
  omega

end

theorem selected_of_begin (hpio : CtrDrvrHptdcIoBuf) (tap : Tap)
    (hstart : tap.state = .runTestIdle ∨ hpio.rflg = true) :
    Selected hpio tap (tapRegister.selected hpio tap) := by
  have hready := begin_ready hpio.rflg tap hstart
  obtain ⟨hshifting, hirIn, hdrIn, hdrOut⟩ := instruction_scan hpio hready
  unfold JtagRegister.selected
  rw [tap_run_lower (instruction hpio.command) nofun]
  exact ⟨hshifting, hirIn, hdrIn, hdrOut⟩

/-- The command is executed if and only if there is a parity bit to end the data with, or
one register. -/
theorem hptdcCommand_executes_iff (hpio : CtrDrvrHptdcIoBuf) (readBack : Bool) (tap : Tap)
    (hwreg : ∀ reg ∈ hpio.wreg,
      reg.startBit ≤ reg.endBit ∧ reg.endBit - reg.startBit < 32)
    (hstart : tap.state = .runTestIdle ∨ hpio.rflg = true) :
    Executes hpio readBack (tapRegister.hptdcCommand hpio readBack tap).1 tap
        (tapRegister.hptdcCommand hpio readBack tap).2 ↔
      hpio.pflg = true ∨ hpio.wreg.length = 1 := by
  have hbits : ∀ reg ∈ hpio.wreg, 0 < reg.bits ∧ reg.bits ≤ 32 := by
    intro reg hreg
    obtain ⟨hle, hlt⟩ := hwreg reg hreg
    rw [HptdcRegister.bits_eq hle hlt]
    omega
  have hs := selected_of_begin hpio tap hstart
  obtain ⟨hrun, hread⟩ := tapRegister.hptdcCommand_run readBack
    (fun reg hreg => (hbits reg hreg).2) tap
  rw [tap_run _ _ hs.shifting.tck] at hrun hread
  rw [hrun]
  by_cases hpflg : hpio.pflg = true
  · exact ⟨fun _ => .inl hpflg, fun _ => executes_of_parity hs hpflg hread⟩
  · have hno : hpio.pflg = false := Bool.eq_false_iff.mpr hpflg
    match hlist : hpio.wreg with
    | [] =>
      refine ⟨fun h => absurd h (not_executes_of_none hs hno hlist), fun h => ?_⟩
      exact absurd h (by simp [hno])
    | [reg] =>
      have hpos := (hbits reg (hlist ▸ List.mem_cons_self ..)).1
      exact ⟨fun _ => .inr rfl, fun _ => executes_of_one hs hno hlist hpos hread⟩
    | reg :: reg' :: wreg =>
      have hpos := (hbits reg (hlist ▸ List.mem_cons_self ..)).1
      have hpos' := (hbits reg'
        (hlist ▸ List.mem_cons_of_mem _ (List.mem_cons_self ..))).1
      refine ⟨fun h => absurd h (not_executes_of_many hs hno hlist hpos hpos'),
        fun h => ?_⟩
      exact absurd h (by simp [hno])

def idleTap : Tap := { state := .runTestIdle, capture := [true, false, true, true] }

def oneRegister : CtrDrvrHptdcIoBuf := { cmd := 5, wreg := [{ value := 9, endBit := 3 }] }

theorem hptdcCommand_executes_one :
    Executes oneRegister true (tapRegister.hptdcCommand oneRegister true idleTap).1 idleTap
      (tapRegister.hptdcCommand oneRegister true idleTap).2 :=
  (hptdcCommand_executes_iff oneRegister true idleTap (by decide) (by decide)).mpr (by decide)

def twoRegisters : CtrDrvrHptdcIoBuf :=
  { cmd := 5, wreg := [{ value := 1 }, { value := 1, endBit := 1, startBit := 1 }] }

/-- The port is left in Capture-DR, with one of the two bits shifted. -/
theorem hptdcCommand_not_executes :
    ¬ ∀ (hpio : CtrDrvrHptdcIoBuf) (readBack : Bool) (tap : Tap),
      (∀ reg ∈ hpio.wreg, reg.startBit ≤ reg.endBit ∧ reg.endBit - reg.startBit < 32) →
      tap.state = .runTestIdle ∨ hpio.rflg = true →
      Executes hpio readBack (tapRegister.hptdcCommand hpio readBack tap).1 tap
        (tapRegister.hptdcCommand hpio readBack tap).2 := by
  intro h
  have hstate := (h twoRegisters true idleTap (by decide) (by decide)).state
  exact absurd hstate (by decide +kernel)

end Coht.Ctr
