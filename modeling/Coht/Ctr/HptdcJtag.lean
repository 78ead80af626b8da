import Coht.Ctr.Ioctl
import Coht.Lib.Jtag
import Coht.Lib.Word

/-!
# The HPTDC chip behind its JTAG register (`ctrdrvr-vme.c`)

`HptdcCommand()` moves every pin of the port by writing a word to one register: three
words are a transfer, and TDO is read back while TCK is up. The functions are stated
over any register that can be written and read. One is the memory map of the module,
and the other has a test access port behind it.

What is written does not depend on what is read, so a command is a list of transfers
and the values of the registers are the bits that come back.

The module answers `PingModule()`.
-/

namespace Coht.Ctr

open Coht.Lib

def HptdcJTAG_TDO : U32 := 0x08

/-- The register, with `HWr()` and `HRd()`. -/
structure JtagRegister (σ : Type) where
  hWr : U32 → σ → σ
  hRd : σ → U32

/-- `bits`, an `uint32_t` -/
def HptdcRegister.bits (reg : HptdcRegister) : Nat :=
  (((reg.endBit : Int) - reg.startBit + 1) % 2 ^ 32).toNat

theorem HptdcRegister.bits_eq {reg : HptdcRegister} (h : reg.startBit ≤ reg.endBit)
    (h' : reg.endBit - reg.startBit < 32) : reg.bits = reg.endBit - reg.startBit + 1 := by
  unfold HptdcRegister.bits
  omega

/-- The variables of `HptdcCommand()` in its loops. -/
structure Shift (σ : Type) where
  parity : U32 := 0
  rval : U32 := 0
  rreg : List HptdcRegister := []
  jtg : σ

namespace JtagRegister

variable {σ : Type} (r : JtagRegister σ)

def hptdcBitTransfer (tdi tms : U32) (jtg : σ) : U32 × σ :=
  let jwd := HptdcJTAG_TRST ||| tdi ||| tms
  let jtg := r.hWr jwd jtg
  let jtg := r.hWr (HptdcJTAG_TRST ||| HptdcJTAG_TCK ||| tdi ||| tms) jtg
  let tdo := r.hRd jtg
  (if tdo &&& HptdcJTAG_TDO ≠ 0 then 1 else 0, r.hWr jwd jtg)

/-- TRST is active on zero. -/
def hptdcStateReset (jtg : σ) : σ :=
  let jtg := r.hWr HptdcJTAG_TRST jtg
  let jtg := r.hWr 0 jtg
  let jtg := r.hWr HptdcJTAG_TCK jtg
  let jtg := r.hWr (HptdcJTAG_TRST ||| HptdcJTAG_TCK) jtg
  let jtg := r.hWr HptdcJTAG_TRST jtg
  (r.hptdcBitTransfer 0 0 jtg).2

/-- A turn of the loops over the bits of `value`. -/
def shiftBit (value : U32) (tms : Nat → U32) (v : Shift σ) (i : Nat) : Shift σ :=
  let msk := 1#32 <<< i
  let tdi := if msk &&& value ≠ 0 then HptdcJTAG_TDI else 0
  let parity := if msk &&& value ≠ 0 then v.parity + 1 else v.parity
  let (tdo, jtg) := r.hptdcBitTransfer tdi (tms i) v.jtg
  { v with
    parity := parity
    rval := if tdo ≠ 0 then v.rval ||| msk else v.rval
    jtg := jtg }

/-- The parity goes with the edge that leaves the shift state. -/
def shiftParity (v : Shift σ) : σ :=
  (r.hptdcBitTransfer (if v.parity &&& 1 ≠ 0 then HptdcJTAG_TDI else 0) HptdcJTAG_TMS
    v.jtg).2

/-- A turn of the loop over the registers; `readBack` is `rreg` not `NULL`. -/
def shiftRegister (readBack pflg : Bool) (v : Shift σ) (wreg : HptdcRegister) : Shift σ :=
  let bits := wreg.bits
  let tms := fun i =>
    if pflg then 0 else if i = bits - 1 then HptdcJTAG_TMS else 0
  let v := (List.range bits).foldl (r.shiftBit wreg.value tms) { v with rval := 0 }
  if readBack then { v with rreg := v.rreg ++ [{ wreg with value := v.rval }] } else v

/-- Select the IR by shifting in the register ID in `cmd`. -/
def shiftCommand (cmd : U32) (jtg : σ) : σ :=
  let jtg := (r.hptdcBitTransfer 0 HptdcJTAG_TMS jtg).2    -- Select DR scan
  let jtg := (r.hptdcBitTransfer 0 HptdcJTAG_TMS jtg).2    -- Select IR scan
  let jtg := (r.hptdcBitTransfer 0 0 jtg).2                -- Capture IR
  let jtg := (r.hptdcBitTransfer 0 0 jtg).2                -- Shift IR
  let v := (List.range HptdcCmdBITS).foldl (r.shiftBit cmd fun _ => 0) { jtg := jtg }
  let jtg := r.shiftParity v                               -- Exit 1 IR
  let jtg := (r.hptdcBitTransfer 0 HptdcJTAG_TMS jtg).2    -- Update IR
  let jtg := (r.hptdcBitTransfer 0 HptdcJTAG_TMS jtg).2    -- Select DR scan
  let jtg := (r.hptdcBitTransfer 0 0 jtg).2                -- Capture DR
  (r.hptdcBitTransfer 0 0 jtg).2                           -- Shift DR

/-- The registers of `Rreg` and the port. -/
def hptdcCommand (hpio : CtrDrvrHptdcIoBuf) (readBack : Bool) (jtg : σ) :
    List HptdcRegister × σ :=
  let jtg := if hpio.rflg then r.hptdcStateReset jtg else jtg
  let jtg := r.shiftCommand hpio.cmd jtg
  let v := hpio.wreg.foldl (r.shiftRegister readBack hpio.pflg) { jtg := jtg }
  let jtg := if hpio.pflg then r.shiftParity v else v.jtg  -- Exit 1 DR
  let jtg := (r.hptdcBitTransfer 0 HptdcJTAG_TMS jtg).2    -- Update DR
  (v.rreg, (r.hptdcBitTransfer 0 0 jtg).2)                 -- Run test/idle

end JtagRegister

/-! ## The transfers of a command -/

/-- The lowest bits of a value, the lowest first. -/
def lowBits (value : U32) (n : Nat) : List Bool := (List.range n).map value.getLsbD

/-- The bit that makes the number of ones even. -/
def parityBit (bits : List Bool) : Bool := decide (bits.count true % 2 = 1)

def HptdcRegister.data (reg : HptdcRegister) : List Bool := lowBits reg.value reg.bits

/-- The transfers of a register: TDI and TMS. -/
def HptdcRegister.transfers (pflg : Bool) (reg : HptdcRegister) : List (Bool × Bool) :=
  (List.range reg.bits).map fun i => (reg.value.getLsbD i, !pflg && i == reg.bits - 1)

/-- From Run-Test/Idle through the instruction register to Shift-DR. -/
def instruction (cmd : List Bool) : List (Bool × Bool) :=
  [(false, true), (false, true), (false, false), (false, false)] ++
  cmd.map (·, false) ++ [(parityBit cmd, true)] ++
  [(false, true), (false, true), (false, false), (false, false)]

/-- The end of the data: the parity if there is to be one. -/
def lastBit (pflg : Bool) (data : List Bool) : List Bool :=
  if pflg then [parityBit data] else []

def CtrDrvrHptdcIoBuf.data (hpio : CtrDrvrHptdcIoBuf) : List Bool :=
  hpio.wreg.flatMap (·.data)

def CtrDrvrHptdcIoBuf.command (hpio : CtrDrvrHptdcIoBuf) : List Bool :=
  lowBits hpio.cmd HptdcCmdBITS

def CtrDrvrHptdcIoBuf.transfers (hpio : CtrDrvrHptdcIoBuf) : List (Bool × Bool) :=
  hpio.wreg.flatMap (·.transfers hpio.pflg) ++
  (lastBit hpio.pflg hpio.data).map (·, true) ++ Tap.finish

def pin (word : U32) (b : Bool) : U32 := if b then word else 0

namespace JtagRegister

variable {σ : Type} (r : JtagRegister σ)

def transfer (t : Bool × Bool) (jtg : σ) : U32 × σ :=
  r.hptdcBitTransfer (pin HptdcJTAG_TDI t.1) (pin HptdcJTAG_TMS t.2) jtg

def run : List (Bool × Bool) → σ → List Bool × σ
  | [], jtg => ([], jtg)
  | t :: rest, jtg =>
    let tail := run rest (r.transfer t jtg).2
    (decide ((r.transfer t jtg).1 ≠ 0) :: tail.1, tail.2)

section

variable {jtg : σ} {l l' : List (Bool × Bool)}

theorem run_append : r.run (l ++ l') jtg =
    ((r.run l jtg).1 ++ (r.run l' (r.run l jtg).2).1, (r.run l' (r.run l jtg).2).2) := by
  induction l generalizing jtg with
  | nil => rfl
  | cons t l ih =>
    have hrest := @ih (r.transfer t jtg).2
    rw [List.cons_append, run, hrest]
    rfl

end

end JtagRegister

/-! ## The loop over the bits of a word -/

theorem and_bit_ne_zero (value : U32) (i : Nat) :
    1#32 <<< i &&& value ≠ 0 ↔ value.getLsbD i = true := by
  rw [BitVec.and_comm, Ne, and_one_shiftLeft_eq_zero, Bool.not_eq_false]

theorem getLsbD_or_bit (value : U32) (i j : Nat) (hi : i < 32) :
    (value ||| 1#32 <<< i).getLsbD j = (value.getLsbD j || decide (j = i)) := by
  rw [BitVec.getLsbD_or, getLsbD_one_shiftLeft_of_lt hi]

theorem lowBits_succ (value : U32) (n : Nat) :
    lowBits value (n + 1) = lowBits value n ++ [value.getLsbD n] := by
  unfold lowBits
  rw [List.range_succ, List.map_append]
  rfl

theorem lowBits_rval (rval : U32) (n : Nat) (hn : n < 32) (tdo : Bool)
    (hsmall : ∀ j, n ≤ j → rval.getLsbD j = false) :
    lowBits (if tdo then rval ||| 1#32 <<< n else rval) (n + 1) =
      lowBits rval n ++ [tdo] := by
  rw [lowBits_succ]
  cases tdo with
  | false => rw [if_neg Bool.false_ne_true, hsmall n (Nat.le_refl _)]
  | true =>
    rw [if_pos rfl, getLsbD_or_bit _ _ _ hn, decide_eq_true rfl, Bool.or_true]
    congr 1
    apply List.map_congr_left
    intro j hj
    have := List.mem_range.mp hj
    rw [getLsbD_or_bit _ _ _ hn, decide_eq_false (by omega), Bool.or_false]

/-- `wreg` has come back as `rreg`, with `outs` read in its place. -/
structure ReadBack (wreg rreg : List HptdcRegister) (outs : List Bool) : Prop where
  ranges : rreg.map (fun reg => (reg.endBit, reg.startBit)) =
    wreg.map fun reg => (reg.endBit, reg.startBit)
  data : rreg.flatMap (·.data) = outs
  small : ∀ reg ∈ rreg, ∀ j, reg.bits ≤ j → reg.value.getLsbD j = false

theorem ReadBack.append {wreg wreg' rreg rreg' : List HptdcRegister} {outs outs' : List Bool}
    (h : ReadBack wreg rreg outs) (h' : ReadBack wreg' rreg' outs') :
    ReadBack (wreg ++ wreg') (rreg ++ rreg') (outs ++ outs') where
  ranges := by rw [List.map_append, List.map_append, h.ranges, h'.ranges]
  data := by rw [List.flatMap_append, h.data, h'.data]
  small := by
    intro reg hreg
    rcases List.mem_append.mp hreg with hreg | hreg
    · exact h.small reg hreg
    · exact h'.small reg hreg

namespace JtagRegister

variable {σ : Type} (r : JtagRegister σ)

def wordTransfers (value : U32) (tms : Nat → Bool) (n : Nat) : List (Bool × Bool) :=
  (List.range n).map fun i => (value.getLsbD i, tms i)

structure ShiftedBits (value : U32) (tms : Nat → Bool) (n : Nat) (v v' : Shift σ) : Prop where
  jtg : v'.jtg = (r.run (wordTransfers value tms n) v.jtg).2
  rval : lowBits v'.rval n = (r.run (wordTransfers value tms n) v.jtg).1
  small : ∀ j, n ≤ j → v'.rval.getLsbD j = false
  parity : v'.parity.toNat % 2 = (v.parity.toNat + (lowBits value n).count true) % 2
  rreg : v'.rreg = v.rreg

theorem shiftBit_shifted {value : U32} {tms : Nat → Bool} {n : Nat} {v v' : Shift σ}
    (hn : n < 32) (h : r.ShiftedBits value tms n v v') :
    r.ShiftedBits value tms (n + 1) v
      (r.shiftBit value (fun i => pin HptdcJTAG_TMS (tms i)) v' n) := by
  have hrun : r.run (wordTransfers value tms (n + 1)) v.jtg =
      ((r.run (wordTransfers value tms n) v.jtg).1 ++
        (r.run [(value.getLsbD n, tms n)] v'.jtg).1,
        (r.run [(value.getLsbD n, tms n)] v'.jtg).2) := by
    unfold wordTransfers
    rw [List.range_succ, List.map_append, run_append, h.jtg]
    rfl
  have htdi : (if 1#32 <<< n &&& value ≠ 0 then HptdcJTAG_TDI else 0) =
      pin HptdcJTAG_TDI (value.getLsbD n) := by
    unfold pin
    exact if_congr (and_bit_ne_zero value n) rfl rfl
  have htransfer : r.hptdcBitTransfer
      (if 1#32 <<< n &&& value ≠ 0 then HptdcJTAG_TDI else 0) (pin HptdcJTAG_TMS (tms n))
      v'.jtg = r.transfer (value.getLsbD n, tms n) v'.jtg := by
    rw [htdi]
    rfl
  have hjtg : (r.shiftBit value (fun i => pin HptdcJTAG_TMS (tms i)) v' n).jtg =
      (r.transfer (value.getLsbD n, tms n) v'.jtg).2 := congrArg Prod.snd htransfer
  have hrval : (r.shiftBit value (fun i => pin HptdcJTAG_TMS (tms i)) v' n).rval =
      if decide ((r.transfer (value.getLsbD n, tms n) v'.jtg).1 ≠ 0) then
        v'.rval ||| 1#32 <<< n
      else v'.rval := by
    rw [← htransfer]
    exact if_congr decide_eq_true_iff.symm rfl rfl
  refine ⟨?_, ?_, ?_, ?_, h.rreg⟩
  · rw [hrun, hjtg]
    rfl
  · rw [hrun, hrval, lowBits_rval _ _ hn _ h.small, h.rval]
    rfl
  · intro j hj
    rw [hrval]
    split
    · rw [getLsbD_or_bit _ _ _ hn, h.small j (by omega), decide_eq_false (by omega)]
      rfl
    · exact h.small j (by omega)
  · have hp := h.parity
    show (if 1#32 <<< n &&& value ≠ 0 then v'.parity + 1 else v'.parity).toNat % 2 = _
    rw [lowBits_succ, List.count_append, if_congr (and_bit_ne_zero value n) rfl rfl]
    cases value.getLsbD n with
    | false =>
      rw [if_neg Bool.false_ne_true, List.count_singleton]
      simpa using hp
    | true =>
      rw [if_pos rfl, BitVec.toNat_add, List.count_singleton]
      have hone : (1 : U32).toNat = 1 := rfl
      simp only [hone, beq_self_eq_true, if_true]
      omega

theorem shiftBits_shifted (value : U32) (tms : Nat → Bool) (n : Nat) (hn : n ≤ 32)
    (v : Shift σ) (hrval : v.rval = 0) :
    r.ShiftedBits value tms n v ((List.range n).foldl
      (r.shiftBit value fun i => pin HptdcJTAG_TMS (tms i)) v) := by
  induction n with
  | zero =>
    refine ⟨rfl, rfl, fun j _ => ?_, rfl, rfl⟩
    show v.rval.getLsbD j = false
    rw [hrval]
    exact BitVec.getLsbD_zero
  | succ n ih =>
    rw [List.range_succ, List.foldl_append]
    exact r.shiftBit_shifted (by omega) (ih (by omega))

/-! ## The loop over the registers -/

structure ShiftedRegisters (readBack pflg : Bool) (wreg : List HptdcRegister)
    (v v' : Shift σ) : Prop where
  jtg : v'.jtg = (r.run (wreg.flatMap (·.transfers pflg)) v.jtg).2
  parity : v'.parity.toNat % 2 =
    (v.parity.toNat + (wreg.flatMap (·.data)).count true) % 2
  rreg : readBack = true → ∃ rreg, v'.rreg = v.rreg ++ rreg ∧
    ReadBack wreg rreg (r.run (wreg.flatMap (·.transfers pflg)) v.jtg).1

theorem shiftRegister_shifted (readBack pflg : Bool) {wreg : HptdcRegister}
    (hbits : wreg.bits ≤ 32) (v : Shift σ) :
    r.ShiftedRegisters readBack pflg [wreg] v (r.shiftRegister readBack pflg v wreg) := by
  have htms : (fun i => if pflg then 0 else if i = wreg.bits - 1 then HptdcJTAG_TMS else 0) =
      fun i => pin HptdcJTAG_TMS (!pflg && i == wreg.bits - 1) := by
    funext i
    cases pflg with
    | true => rfl
    | false => exact (if_neg Bool.false_ne_true).trans (if_congr beq_iff_eq.symm rfl rfl)
  have hloop := r.shiftBits_shifted wreg.value (fun i => !pflg && i == wreg.bits - 1)
    wreg.bits hbits { v with rval := 0 } rfl
  have htransfers : [wreg].flatMap (·.transfers pflg) =
      wordTransfers wreg.value (fun i => !pflg && i == wreg.bits - 1) wreg.bits :=
    List.append_nil _
  have hdata : [wreg].flatMap (·.data) = lowBits wreg.value wreg.bits := List.append_nil _
  rw [← htms] at hloop
  unfold shiftRegister
  constructor
  · rw [htransfers, ← hloop.jtg]
    cases readBack <;> rfl
  · rw [hdata, ← hloop.parity]
    cases readBack <;> rfl
  · intro hread
    subst hread
    refine ⟨_, congrArg (· ++ _) hloop.rreg, rfl, ?_, ?_⟩
    · rw [htransfers, ← hloop.rval]
      exact List.append_nil _
    · intro reg hreg
      rw [List.mem_singleton.mp hreg]
      exact hloop.small

theorem shiftRegisters_shifted (readBack pflg : Bool) (wreg : List HptdcRegister)
    (hbits : ∀ reg ∈ wreg, reg.bits ≤ 32) (v : Shift σ) :
    r.ShiftedRegisters readBack pflg wreg v
      (wreg.foldl (r.shiftRegister readBack pflg) v) := by
  induction wreg generalizing v with
  | nil => exact ⟨rfl, rfl, fun _ => ⟨[], (List.append_nil _).symm, rfl, rfl, nofun⟩⟩
  | cons reg wreg ih =>
    have hfirst := r.shiftRegister_shifted readBack pflg
      (hbits reg (List.mem_cons_self ..)) v
    have hrest := ih (fun reg hreg => hbits reg (List.mem_cons_of_mem _ hreg))
      (r.shiftRegister readBack pflg v reg)
    have hsplit : (reg :: wreg).flatMap (·.transfers pflg) =
        [reg].flatMap (·.transfers pflg) ++ wreg.flatMap (·.transfers pflg) := by
      rw [← List.flatMap_append]
      rfl
    rw [List.foldl_cons]
    constructor
    · rw [hrest.jtg, hfirst.jtg, hsplit, run_append]
    · have hp := hrest.parity
      have hp' := hfirst.parity
      rw [← List.singleton_append, List.flatMap_append, List.count_append]
      omega
    · intro hread
      obtain ⟨rreg, heq, hback⟩ := hfirst.rreg hread
      obtain ⟨rreg', heq', hback'⟩ := hrest.rreg hread
      refine ⟨rreg ++ rreg', by rw [heq', heq, List.append_assoc], ?_⟩
      rw [hsplit, run_append, ← List.singleton_append]
      rw [hfirst.jtg] at hback'
      exact hback.append hback'

theorem shiftParity_eq (bits : List Bool) (v : Shift σ)
    (hparity : v.parity.toNat % 2 = bits.count true % 2) :
    r.shiftParity v = (r.run [(parityBit bits, true)] v.jtg).2 := by
  have hodd : v.parity &&& 1 ≠ 0 ↔ bits.count true % 2 = 1 := by
    rw [← hparity, ne_eq, ← BitVec.toNat_inj, BitVec.toNat_and]
    show ¬ v.parity.toNat &&& 1 = 0 ↔ _
    rw [Nat.and_one_is_mod]
    omega
  have htdi : (if v.parity &&& 1 ≠ 0 then HptdcJTAG_TDI else 0) =
      pin HptdcJTAG_TDI (parityBit bits) := by
    unfold pin parityBit
    exact if_congr (hodd.trans decide_eq_true_iff.symm) rfl rfl
  unfold shiftParity
  rw [htdi]
  rfl

/-! ## The command -/

def begin (rflg : Bool) (jtg : σ) : σ := if rflg then r.hptdcStateReset jtg else jtg

def selected (hpio : CtrDrvrHptdcIoBuf) (jtg : σ) : σ :=
  (r.run (instruction hpio.command) (r.begin hpio.rflg jtg)).2

variable {hpio : CtrDrvrHptdcIoBuf}

theorem shiftCommand_run (jtg : σ) :
    r.shiftCommand hpio.cmd jtg = (r.run (instruction hpio.command) jtg).2 := by
  have hloop (s : σ) := r.shiftBits_shifted hpio.cmd (fun _ => false) HptdcCmdBITS
    (by decide) { jtg := s } rfl
  have hparity (s : σ) := r.shiftParity_eq hpio.command _
    ((hloop s).parity.trans (congrArg (· % 2) (Nat.zero_add _)))
  have hcmd : hpio.command.map (·, false) =
      wordTransfers hpio.cmd (fun _ => false) HptdcCmdBITS := List.map_map ..
  unfold instruction
  rw [run_append, run_append, run_append, hcmd, ← (hloop _).jtg, ← hparity]
  rfl

theorem hptdcCommand_run (readBack : Bool) (hbits : ∀ reg ∈ hpio.wreg, reg.bits ≤ 32)
    (jtg : σ) :
    (r.hptdcCommand hpio readBack jtg).2 = (r.run hpio.transfers (r.selected hpio jtg)).2 ∧
      (readBack = true → ReadBack hpio.wreg (r.hptdcCommand hpio readBack jtg).1
        (r.run (hpio.wreg.flatMap (·.transfers hpio.pflg)) (r.selected hpio jtg)).1) := by
  have hloop := r.shiftRegisters_shifted readBack hpio.pflg hpio.wreg hbits
    { jtg := r.selected hpio jtg }
  have hparity := r.shiftParity_eq hpio.data _
    (hloop.parity.trans (congrArg (· % 2) (Nat.zero_add _)))
  generalize hv : hpio.wreg.foldl (r.shiftRegister readBack hpio.pflg)
    { jtg := r.selected hpio jtg } = v at hloop hparity
  have hlast : (if hpio.pflg then r.shiftParity v else v.jtg) =
      (r.run ((lastBit hpio.pflg hpio.data).map (·, true)) v.jtg).2 := by
    unfold lastBit
    by_cases hp : hpio.pflg = true
    · rw [if_pos hp, if_pos hp]
      exact hparity
    · rw [if_neg hp, if_neg hp]
      rfl
  have hcommand : r.hptdcCommand hpio readBack jtg =
      (v.rreg, (r.run Tap.finish
        (if hpio.pflg then r.shiftParity v else v.jtg)).2) := by
    unfold selected at hv
    rw [← r.shiftCommand_run] at hv
    rw [← hv]
    rfl
  rw [hcommand]
  constructor
  · unfold CtrDrvrHptdcIoBuf.transfers
    rw [run_append, run_append, ← hloop.jtg, hlast]
  · intro hread
    obtain ⟨rreg, heq, hback⟩ := hloop.rreg hread
    rw [heq]
    exact hback

end JtagRegister

/-! ## The memory map of the module -/

namespace ModuleContext

/-- The register of the module, whatever it answers. -/
def jtagRegister (hRd : ModuleContext → U32) : JtagRegister ModuleContext where
  hWr jwd mcon := mcon.hWr jwd mapHptdcJtag
  hRd := hRd

def pins (t : Bool × Bool) : U32 × U32 := (pin HptdcJTAG_TDI t.1, pin HptdcJTAG_TMS t.2)

variable (hRd : ModuleContext → U32)

theorem jtagRegister_transfer (tdi tms : U32) (mcon : ModuleContext) :
    ((jtagRegister hRd).hptdcBitTransfer tdi tms mcon).2 = mcon.hptdcBitTransfer tdi tms := by
  have hword : HptdcJTAG_TRST ||| HptdcJTAG_TCK ||| tdi ||| tms =
      HptdcJTAG_TRST ||| tdi ||| tms ||| HptdcJTAG_TCK := by
    simp only [BitVec.or_assoc, BitVec.or_comm HptdcJTAG_TCK]
  unfold JtagRegister.hptdcBitTransfer
  rw [hword]
  rfl

theorem jtagRegister_run (l : List (Bool × Bool)) (mcon : ModuleContext) :
    ((jtagRegister hRd).run l mcon).2 =
      (l.map pins).foldl (fun mcon t => mcon.hptdcBitTransfer t.1 t.2) mcon := by
  induction l generalizing mcon with
  | nil => rfl
  | cons t l ih =>
    rw [JtagRegister.run, List.map_cons, List.foldl_cons, ← ih, ← jtagRegister_transfer hRd]
    rfl

theorem hptdcBits_eq (value : U32) (n : Nat) :
    hptdcBits value n = (lowBits value n).map (pin HptdcJTAG_TDI) := by
  unfold hptdcBits lowBits
  rw [List.map_map]
  rfl

theorem hptdcParity_eq (bits : List Bool) :
    hptdcParity (bits.map (pin HptdcJTAG_TDI)) = pin HptdcJTAG_TDI (parityBit bits) := by
  have hcount : (bits.map (pin HptdcJTAG_TDI)).countP (· ≠ 0) = bits.count true := by
    rw [List.countP_map]
    apply List.countP_congr
    intro b _
    cases b <;> decide
  unfold hptdcParity parityBit
  rw [hcount]
  exact if_congr decide_eq_true_iff.symm rfl rfl

theorem hptdcRegister_eq (pflg : Bool) {reg : HptdcRegister}
    (hbits : reg.bits = reg.endBit - reg.startBit + 1) :
    hptdcRegister pflg reg = (reg.transfers pflg).map pins := by
  unfold hptdcRegister HptdcRegister.transfers hptdcBits
  rw [hbits]
  apply List.ext_getElem
  · simp only [List.length_map, List.length_zipIdx, List.length_range]
  · intro i hi hi'
    simp only [List.getElem_map, List.getElem_zipIdx, List.getElem_range, List.length_map,
      List.length_range, Nat.zero_add]
    unfold pins pin
    refine Prod.ext rfl ?_
    cases pflg with
    | true => rfl
    | false =>
      refine if_congr ?_ rfl rfl
      rw [Bool.not_false, Bool.true_and, Bool.true_and, decide_eq_true_iff, beq_iff_eq]
      omega

theorem hptdcCommand_transfers (hpio : CtrDrvrHptdcIoBuf)
    (hbits : ∀ reg ∈ hpio.wreg, reg.bits = reg.endBit - reg.startBit + 1)
    (mcon : ModuleContext) :
    mcon.hptdcCommand hpio =
      ((instruction hpio.command ++ hpio.transfers).map pins).foldl
        (fun mcon t => mcon.hptdcBitTransfer t.1 t.2)
        (if hpio.rflg then mcon.hptdcStateReset else mcon) := by
  have hdata : hpio.wreg.flatMap (hptdcRegister hpio.pflg) =
      (hpio.wreg.flatMap (·.transfers hpio.pflg)).map pins := by
    rw [List.map_flatMap]
    exact List.flatMap_congr fun reg hreg => hptdcRegister_eq hpio.pflg (hbits reg hreg)
  have hfirst : ((hpio.wreg.flatMap (·.transfers hpio.pflg)).map pins).map (·.1) =
      hpio.data.map (pin HptdcJTAG_TDI) := by
    rw [List.map_map]
    unfold CtrDrvrHptdcIoBuf.data
    rw [List.map_flatMap, List.map_flatMap]
    congr 1
    funext reg
    unfold HptdcRegister.transfers HptdcRegister.data lowBits
    rw [List.map_map, List.map_map]
    rfl
  have hlast : (if hpio.pflg then
      [(pin HptdcJTAG_TDI (parityBit hpio.data), HptdcJTAG_TMS)] else []) =
      ((lastBit hpio.pflg hpio.data).map (·, true)).map pins := by
    unfold lastBit
    split <;> rfl
  unfold hptdcCommand
  dsimp only
  rw [hptdcBits_eq, hdata, hfirst, hptdcParity_eq, hptdcParity_eq, hlast]
  congr 1
  unfold instruction CtrDrvrHptdcIoBuf.transfers CtrDrvrHptdcIoBuf.command
  simp only [List.map_append, List.append_assoc]
  rfl

theorem hptdcCommand_eq (hpio : CtrDrvrHptdcIoBuf) (readBack : Bool)
    (hwreg : ∀ reg ∈ hpio.wreg,
      reg.startBit ≤ reg.endBit ∧ reg.endBit - reg.startBit < 32) (mcon : ModuleContext) :
    ((jtagRegister hRd).hptdcCommand hpio readBack mcon).2 = mcon.hptdcCommand hpio := by
  have hbits : ∀ reg ∈ hpio.wreg, reg.bits = reg.endBit - reg.startBit + 1 :=
    fun reg hreg => HptdcRegister.bits_eq (hwreg reg hreg).1 (hwreg reg hreg).2
  obtain ⟨hrun, -⟩ := (jtagRegister hRd).hptdcCommand_run readBack
    (fun reg hreg => (hbits reg hreg).trans_le (hwreg reg hreg).2) mcon
  have hbegin : (jtagRegister hRd).begin hpio.rflg mcon =
      if hpio.rflg then mcon.hptdcStateReset else mcon :=
    if_congr Iff.rfl (jtagRegister_transfer hRd 0 0 _) rfl
  unfold JtagRegister.selected at hrun
  rw [hrun, hptdcCommand_transfers hpio hbits, List.map_append, List.foldl_append,
    jtagRegister_run, jtagRegister_run, hbegin]

end ModuleContext

end Coht.Ctr
