import Coht.Icv196.Driver

/-!
# Interrupt lines and directions (`icv196.c`)

A byte is watched for interrupts or it is an output, and the driver should know which: the
pattern masks of the Z8536 are the two bytes of `int_msk`, the direction register is
`out_msk`, and a request that fails changes nothing. `Consistent` is what should hold after
every request, with `last` the mask that is connected.

The requests part from it in five ways. `RESET` clears the pattern masks and not
`int_msk`. `CONNECT` adds lines to the masks and never takes one out, and it adds the low
byte of its argument to both ports. `BYTE_SET_OUTPUT` looks at lines 0 and 1 of `int_msk`
where it means its two bytes. `BYTE_WRITE` has written the bytes before the one it stops
at. And any of them can have been carried out when `copy_to_user()` fails. `Call.meets`
says when none of this happens, and `ioctl_keeps_iff` is the step.
-/

namespace Coht.Icv196

open Coht.Lib

/-- The lines of port A and of port B. -/
def low (msk : U32) : U8 := msk.setWidth 8
def high (msk : U32) : U8 := (msk >>> 8).setWidth 8

structure Consistent (last : U32) (dev : Device) : Prop where
  portA : dev.z8536 PtrMsk_Areg = low dev.intMsk
  portB : dev.z8536 PtrMsk_Breg = high dev.intMsk
  connected : dev.intMsk = last
  direction : dev.csdir.setWidth 32 = dev.outMsk
  inputA : low dev.intMsk ≠ 0 → dev.outMsk.getLsbD 0 = false
  inputB : high dev.intMsk ≠ 0 → dev.outMsk.getLsbD 1 = false

/-- The mask of the last accepted `CONNECT` since the last `RESET`. -/
def lastConnect (last : U32) : Request → Except Errno Unit → U32
  | .reset, .ok () => 0
  | .connect ival, .ok () => ival &&& 0xFFFF
  | _, _ => last

/-- The bytes that `BYTE_WRITE` is to write. -/
def askedBytes (msk : U16) : List Nat := (List.range MAX_BYTES).filter msk.getLsbD

/-- The first of these bytes is refused, or none is. -/
def bytesMeet (dev : Device) (copyTo : Bool) : List Nat → Prop
  | [] => True
  | i :: is =>
    dev.outMsk.getLsbD i = false ∨
      copyTo = true ∧ ∀ j ∈ i :: is, dev.outMsk.getLsbD j = true

/-- The code does not part from the invariant. -/
def Request.meets (dev : Device) (copyTo : Bool) : Request → Prop
  | .reset => copyTo = true ∧ dev.intMsk = 0
  | .connect ival =>
    dev.outMsk &&& 3 ≠ 0 ∨
      copyTo = true ∧ low dev.intMsk ||| low ival = low ival ∧
        high dev.intMsk ||| low ival = high ival
  | .byteSetOutput ival =>
    (dev.intMsk &&& 1 ≠ 0 ∧ ival &&& 1 ≠ 0 ∨ dev.intMsk &&& 2 ≠ 0 ∧ ival &&& 2 ≠ 0) ∨
      copyTo = true ∧ (low dev.intMsk ≠ 0 → ival.getLsbD 0 = false) ∧
        (high dev.intMsk ≠ 0 → ival.getLsbD 1 = false)
  | .byteWrite msk _ => bytesMeet dev copyTo (askedBytes msk)

def Call.meets (dev : Device) (call : Call) : Prop :=
  call.memory = false ∨ call.copyFrom = false ∨ call.request.meets dev call.copyTo

/-! ## Masks -/

theorem toNat_low (msk : U32) : (low msk).toNat = msk.toNat % 2 ^ 8 := BitVec.toNat_setWidth ..

theorem toNat_high (msk : U32) : (high msk).toNat = msk.toNat / 2 ^ 8 % 2 ^ 8 := by
  unfold high
  rw [BitVec.toNat_setWidth, BitVec.toNat_ushiftRight, Nat.shiftRight_eq_div_pow]

theorem low_and (ival : U32) : low (ival &&& 0xFFFF) = low ival := by
  have hand : (ival &&& 0xFFFF).toNat = ival.toNat % 2 ^ 16 := toNat_and_low rfl
  apply BitVec.eq_of_toNat_eq
  rw [toNat_low, toNat_low, hand]
  omega

theorem high_and (ival : U32) : high (ival &&& 0xFFFF) = high ival := by
  have hand : (ival &&& 0xFFFF).toNat = ival.toNat % 2 ^ 16 := toNat_and_low rfl
  apply BitVec.eq_of_toNat_eq
  rw [toNat_high, toNat_high, hand]
  omega

theorem byte_eq_low (ival : U32) : (ival &&& 0x00FF).setWidth 8 = low ival := by
  have hand : (ival &&& 0x00FF).toNat = ival.toNat % 2 ^ 8 := toNat_and_low rfl
  apply BitVec.eq_of_toNat_eq
  rw [toNat_low, BitVec.toNat_setWidth, hand, Nat.mod_mod]

/-! ## The registers after a request -/

namespace Device

variable (dev : Device)

theorem setreg_self (reg valu : U8) : (dev.setreg reg valu).z8536 reg = valu :=
  Function.update_self ..

theorem setreg_of_ne {reg reg' : U8} (valu : U8) (h : reg' ≠ reg) :
    (dev.setreg reg valu).z8536 reg' = dev.z8536 reg' := Function.update_of_ne h ..

structure Same (dev dev' : Device) : Prop where
  outMsk : dev'.outMsk = dev.outMsk
  intMsk : dev'.intMsk = dev.intMsk
  csdir : dev'.csdir = dev.csdir
  writes : dev.writes.length ≤ dev'.writes.length

theorem setregs_same (l : List (U8 × U8)) : Same dev (dev.setregs l) := by
  induction l generalizing dev with
  | nil => exact ⟨rfl, rfl, rfl, Nat.le_refl _⟩
  | cons r l ih =>
    obtain ⟨hout, hint, hdir, hwrites⟩ := ih (dev.setreg r.1 r.2)
    exact ⟨hout, hint, hdir, Nat.le_trans (Nat.le_succ _) hwrites⟩

theorem setregs_z8536 (l : List (U8 × U8)) (reg : U8) :
    (dev.setregs l).z8536 reg = (l.reverse.lookup reg).getD (dev.z8536 reg) := by
  induction l generalizing dev with
  | nil => rfl
  | cons r l ih =>
    show ((dev.setreg r.1 r.2).setregs l).z8536 reg = _
    rw [ih, List.reverse_cons, List.lookup_append]
    cases l.reverse.lookup reg with
    | some v => rfl
    | none =>
      rw [Option.none_or, Option.getD_none, List.lookup_cons]
      by_cases hreg : reg = r.1
      · rw [hreg, setreg_self, beq_self_eq_true]
        rfl
      · rw [setreg_of_ne _ _ hreg, beq_eq_false_iff_ne.mpr hreg]
        rfl

theorem addLines_mask {cst ptrPo ptrTr ptrMsk : U8} (lines : U8) (hcst : ptrMsk ≠ cst)
    (hpo : ptrMsk ≠ ptrPo) (htr : ptrMsk ≠ ptrTr) :
    (dev.addLines cst ptrPo ptrTr ptrMsk lines).z8536 ptrMsk =
      dev.z8536 ptrMsk ||| lines := by
  unfold addLines
  dsimp only
  split
  · rw [setreg_of_ne _ _ hcst, setreg_self, setreg_of_ne _ _ htr, setreg_of_ne _ _ hpo,
      setreg_of_ne _ _ hcst]
  · next h =>
    rw [not_not.mp h]
    exact (BitVec.or_zero ..).symm

theorem addLines_of_ne {cst ptrPo ptrTr ptrMsk reg : U8} (lines : U8) (hcst : reg ≠ cst)
    (hpo : reg ≠ ptrPo) (htr : reg ≠ ptrTr) (hmsk : reg ≠ ptrMsk) :
    (dev.addLines cst ptrPo ptrTr ptrMsk lines).z8536 reg = dev.z8536 reg := by
  unfold addLines
  dsimp only
  split
  · rw [setreg_of_ne _ _ hcst, setreg_of_ne _ _ hmsk, setreg_of_ne _ _ htr,
      setreg_of_ne _ _ hpo, setreg_of_ne _ _ hcst]
  · rfl

theorem addLines_same (cst ptrPo ptrTr ptrMsk lines : U8) :
    Same dev (dev.addLines cst ptrPo ptrTr ptrMsk lines) := by
  unfold addLines
  split
  · exact ⟨rfl, rfl, rfl, by show _ ≤ dev.writes.length + 1 + 1 + 1 + 1 + 1; omega⟩
  · exact ⟨rfl, rfl, rfl, Nat.le_refl _⟩

structure Connected (ival : U32) (dev dev' : Device) : Prop where
  intMsk : dev'.intMsk = ival &&& 0xFFFF
  outMsk : dev'.outMsk = dev.outMsk
  csdir : dev'.csdir = dev.csdir
  portA : dev'.z8536 PtrMsk_Areg = dev.z8536 PtrMsk_Areg ||| low ival
  portB : dev'.z8536 PtrMsk_Breg = dev.z8536 PtrMsk_Breg ||| low ival
  writes : dev.writes.length < dev'.writes.length

theorem connect_connected {ival : U32} (h : dev.outMsk &&& 3 = 0) :
    ∃ dev', dev.connect ival = (.ok (), dev') ∧ Connected ival dev dev' := by
  unfold connect
  rw [if_neg (not_not.mpr h)]
  refine ⟨_, rfl, ?_⟩
  have hbl : (ival &&& (0xFF00 >>> 8)).setWidth 8 = low ival := byte_eq_low ival
  rw [hbl, byte_eq_low]
  generalize hmic : ({ dev with intMsk := ival &&& 0xFFFF } : Device).setreg MIC_reg
    (dev.z8536 MIC_reg ||| b_MIE) = mic
  have hA := mic.addLines_same CSt_Areg PtrPo_Areg PtrTr_Areg PtrMsk_Areg (low ival)
  generalize ha : mic.addLines CSt_Areg PtrPo_Areg PtrTr_Areg PtrMsk_Areg (low ival) = a at hA
  have hB := a.addLines_same CSt_Breg PtrPo_Breg PtrTr_Breg PtrMsk_Breg (low ival)
  have hmask (reg : U8) (hreg : reg ≠ MIC_reg) : mic.z8536 reg = dev.z8536 reg := by
    rw [← hmic, setreg_of_ne _ _ hreg]
  constructor
  · rw [hB.intMsk, hA.intMsk, ← hmic]
    rfl
  · rw [hB.outMsk, hA.outMsk, ← hmic]
    rfl
  · rw [hB.csdir, hA.csdir, ← hmic]
    rfl
  · rw [addLines_of_ne _ _ (by decide) (by decide) (by decide) (by decide), ← ha,
      addLines_mask _ _ (by decide) (by decide) (by decide), hmask _ (by decide)]
  · rw [addLines_mask _ _ (by decide) (by decide) (by decide), ← ha,
      addLines_of_ne _ _ (by decide) (by decide) (by decide) (by decide),
      hmask _ (by decide)]
  · have hmore : mic.writes.length = dev.writes.length + 1 := by
      rw [← hmic]
      rfl
    have := hA.writes
    have := hB.writes
    omega

theorem byteWrite_same (msk : U16) (val : Nat → U8) (is : List Nat) :
    (byteWrite msk val is dev).2.z8536 = dev.z8536 ∧
      Same dev (byteWrite msk val is dev).2 := by
  induction is generalizing dev with
  | nil => exact ⟨rfl, rfl, rfl, rfl, Nat.le_refl _⟩
  | cons i is ih =>
    unfold byteWrite
    split
    · exact ih dev
    · split
      · exact ⟨rfl, rfl, rfl, rfl, Nat.le_refl _⟩
      · obtain ⟨hchip, hsame⟩ := ih (dev.writeGroup i (val i))
        exact ⟨hchip, hsame.outMsk, hsame.intMsk, hsame.csdir,
          Nat.le_trans (Nat.le_succ _) hsame.writes⟩

theorem byteWrite_filter (msk : U16) (val : Nat → U8) (is : List Nat) :
    byteWrite msk val is dev = byteWrite msk val (is.filter msk.getLsbD) dev := by
  induction is generalizing dev with
  | nil => rfl
  | cons i is ih =>
    by_cases hi : msk.getLsbD i = true
    · rw [List.filter_cons_of_pos hi, byteWrite, byteWrite, ih, ih]
    · rw [List.filter_cons_of_neg hi, byteWrite, ih, if_pos (by simpa using hi)]

theorem byteWrite_ok {msk : U16} {val : Nat → U8} {is : List Nat}
    (h : ∀ j ∈ is, msk.getLsbD j = true → dev.outMsk.getLsbD j = true) :
    (byteWrite msk val is dev).1 = .ok () := by
  induction is generalizing dev with
  | nil => rfl
  | cons i is ih =>
    unfold byteWrite
    split
    · exact ih _ fun j hj => h j (List.mem_cons_of_mem _ hj)
    · next hi =>
      rw [if_neg]
      · exact ih (dev.writeGroup i (val i)) fun j hj => h j (List.mem_cons_of_mem _ hj)
      · rw [h i (List.mem_cons_self ..) (by simpa using hi)]
        nofun

theorem byteWrite_error {msk : U16} {val : Nat → U8} {is : List Nat} {j : Nat} (hj : j ∈ is)
    (hasked : msk.getLsbD j = true) (hin : dev.outMsk.getLsbD j = false) :
    (byteWrite msk val is dev).1 = .error .EPERM := by
  induction is generalizing dev with
  | nil => cases hj
  | cons i is ih =>
    unfold byteWrite
    rcases List.mem_cons.mp hj with rfl | hj
    · rw [hasked, hin]
      rfl
    · split
      · exact ih dev hj hin
      · split
        · rfl
        · exact ih (dev.writeGroup i (val i)) hj hin

end Device

/-! ## A request -/

/-- What a request should have done. -/
structure Keeps (last : U32) (dev : Device) (request : Request) (res : Except Errno Unit)
    (dev' : Device) : Prop where
  consistent : Consistent (lastConnect last request res) dev'
  clean : res ≠ .ok () → dev'.writes = dev.writes

section

variable {last : U32} {dev dev' : Device} {request : Request} {e : Errno} {copyTo : Bool}

theorem lastConnect_error : lastConnect last request (.error e) = last := by
  cases request <;> rfl

theorem keeps_of_refused (h : Consistent last dev) :
    Keeps last dev request (.error e) dev where
  consistent := by
    rw [lastConnect_error]
    exact h
  clean _ := rfl

theorem not_keeps_of_written (h : dev.writes.length < dev'.writes.length) :
    ¬ Keeps last dev request (.error e) dev' := by
  intro hkeeps
  rw [hkeeps.clean nofun] at h
  exact Nat.lt_irrefl _ h

theorem keeps_copyTo_iff (h : dev.writes.length < dev'.writes.length) :
    (let r := answer copyTo (.ok (), dev')
     Keeps last dev request r.1 r.2) ↔
      copyTo = true ∧ Consistent (lastConnect last request (.ok ())) dev' := by
  cases copyTo with
  | false => exact ⟨fun hkeeps => absurd hkeeps (not_keeps_of_written h), nofun⟩
  | true => exact ⟨fun hkeeps => ⟨rfl, hkeeps.consistent⟩, fun hc => ⟨hc.2, nofun⟩⟩

theorem reset_cleared (vec : U32) (dev : Device) :
    (dev.reset vec).z8536 PtrMsk_Areg = 0 ∧ (dev.reset vec).z8536 PtrMsk_Breg = 0 ∧
      (dev.reset vec).intMsk = dev.intMsk ∧ (dev.reset vec).csdir = 0 ∧
      (dev.reset vec).outMsk = 0 ∧ dev.writes.length < (dev.reset vec).writes.length := by
  unfold Device.reset
  generalize hd : (dev.resetZ8536.setLevel ICV196_INTERRUPT_LEVEL_2).setDirection 0 = d
  dsimp only
  refine ⟨?_, ?_, ?_, ?_, rfl, ?_⟩
  · rw [Device.setregs_z8536]
    rfl
  · rw [Device.setregs_z8536]
    rfl
  · rw [(d.setregs_same _).intMsk, ← hd]
    rfl
  · rw [(d.setregs_same _).csdir, ← hd]
    rfl
  · refine Nat.lt_of_lt_of_le ?_ (d.setregs_same _).writes
    rw [← hd]
    show _ < dev.writes.length + 1 + 1 + 1 + 1
    omega

theorem reset_consistent_iff (vec : U32) :
    Consistent 0 (dev.reset vec) ↔ dev.intMsk = 0 := by
  obtain ⟨hA, hB, hint, hdir, hout, -⟩ := reset_cleared vec dev
  constructor
  · intro h
    rw [← hint]
    exact h.connected
  · intro h
    rw [h] at hint
    refine ⟨?_, ?_, hint, ?_, fun _ => ?_, fun _ => ?_⟩
    · rw [hA, hint]
      rfl
    · rw [hB, hint]
      rfl
    · rw [hdir, hout]
      rfl
    · rw [hout]
      exact BitVec.getLsbD_zero
    · rw [hout]
      exact BitVec.getLsbD_zero

theorem connected_consistent_iff {ival : U32} (h : Consistent last dev)
    (hin : dev.outMsk &&& 3 = 0) (hdev : Device.Connected ival dev dev') :
    Consistent (ival &&& 0xFFFF) dev' ↔
      low dev.intMsk ||| low ival = low ival ∧ high dev.intMsk ||| low ival = high ival := by
  have hlow : low dev'.intMsk = low ival := by rw [hdev.intMsk, low_and]
  have hhigh : high dev'.intMsk = high ival := by rw [hdev.intMsk, high_and]
  constructor
  · intro hc
    have hA := hc.portA
    have hB := hc.portB
    rw [hdev.portA, h.portA, hlow] at hA
    rw [hdev.portB, h.portB, hhigh] at hB
    exact ⟨hA, hB⟩
  · intro ⟨hA, hB⟩
    refine ⟨?_, ?_, hdev.intMsk, ?_, fun _ => ?_, fun _ => ?_⟩
    · rw [hdev.portA, h.portA, hA, hlow]
    · rw [hdev.portB, h.portB, hB, hhigh]
    · rw [hdev.csdir, hdev.outMsk, h.direction]
    · rw [hdev.outMsk]
      have := congrArg (·.getLsbD 0) hin
      simpa using this
    · rw [hdev.outMsk]
      have := congrArg (·.getLsbD 1) hin
      simpa using this

theorem setOutput_consistent_iff {ival : U32} (h : Consistent last dev) :
    Consistent last ({ dev with outMsk := ival &&& 0xFFF }.setDirection
        ((ival &&& 0xFFF).setWidth 16)) ↔
      (low dev.intMsk ≠ 0 → ival.getLsbD 0 = false) ∧
        (high dev.intMsk ≠ 0 → ival.getLsbD 1 = false) := by
  have hones : ∀ i < 2, (0xFFF : U32).getLsbD i = true := by decide
  have hbit (i : Nat) (hi : i < 2) : (ival &&& 0xFFF).getLsbD i = ival.getLsbD i := by
    rw [BitVec.getLsbD_and, hones i hi, Bool.and_true]
  constructor
  · intro hc
    refine ⟨fun hlow => ?_, fun hhigh => ?_⟩
    · rw [← hbit 0 (by decide)]
      exact hc.inputA hlow
    · rw [← hbit 1 (by decide)]
      exact hc.inputB hhigh
  · intro ⟨hA, hB⟩
    refine ⟨h.portA, h.portB, h.connected, ?_, fun hlow => ?_, fun hhigh => ?_⟩
    · have hand : (ival &&& 0xFFF).toNat = ival.toNat % 2 ^ 12 := toNat_and_low rfl
      apply BitVec.eq_of_toNat_eq
      show (((ival &&& 0xFFF).setWidth 16).setWidth 32).toNat = (ival &&& 0xFFF).toNat
      rw [BitVec.toNat_setWidth, BitVec.toNat_setWidth, hand]
      omega
    · exact (hbit 0 (by decide)).trans (hA hlow)
    · exact (hbit 1 (by decide)).trans (hB hhigh)

theorem byteWrite_consistent (h : Consistent last dev) (msk : U16) (val : Nat → U8)
    (is : List Nat) : Consistent last (Device.byteWrite msk val is dev).2 := by
  obtain ⟨hchip, hsame⟩ := dev.byteWrite_same msk val is
  refine ⟨?_, ?_, ?_, ?_, ?_, ?_⟩
  · rw [hchip, hsame.intMsk, h.portA]
  · rw [hchip, hsame.intMsk, h.portB]
  · rw [hsame.intMsk, h.connected]
  · rw [hsame.csdir, hsame.outMsk, h.direction]
  · rw [hsame.intMsk, hsame.outMsk]
    exact h.inputA
  · rw [hsame.intMsk, hsame.outMsk]
    exact h.inputB

theorem byteWrite_keeps_iff (h : Consistent last dev) (msk : U16) (val : Nat → U8) :
    (let r := answer copyTo (Device.byteWrite msk val (List.range MAX_BYTES) dev)
     Keeps last dev (.byteWrite msk val) r.1 r.2) ↔
      (Request.byteWrite msk val).meets dev copyTo := by
  have hfilter := dev.byteWrite_filter msk val (List.range MAX_BYTES)
  have hasked : ∀ j ∈ askedBytes msk, msk.getLsbD j = true :=
    fun j hj => (List.mem_filter.mp hj).2
  change _ = Device.byteWrite msk val (askedBytes msk) dev at hfilter
  rw [hfilter]
  show _ ↔ bytesMeet dev copyTo (askedBytes msk)
  generalize askedBytes msk = asked at hasked
  cases asked with
  | nil =>
    refine ⟨fun _ => trivial, fun _ => ?_⟩
    cases copyTo with
    | false => exact keeps_of_refused h
    | true => exact ⟨h, nofun⟩
  | cons i is =>
    have hi := hasked i (List.mem_cons_self ..)
    by_cases hout : dev.outMsk.getLsbD i = false
    · rw [Device.byteWrite, hi, hout]
      exact ⟨fun _ => .inl hout, fun _ => keeps_of_refused h⟩
    · have hon : dev.outMsk.getLsbD i = true := Bool.not_eq_false _ ▸ hout
      obtain ⟨hchip, hsame⟩ := (dev.writeGroup i (val i)).byteWrite_same msk val is
      have hwritten : dev.writes.length <
          (Device.byteWrite msk val (i :: is) dev).2.writes.length := by
        rw [Device.byteWrite, hi, hon]
        exact hsame.writes
      have hc := byteWrite_consistent h msk val (i :: is)
      by_cases hall : ∀ j ∈ i :: is, dev.outMsk.getLsbD j = true
      · have hok : (Device.byteWrite msk val (i :: is) dev).1 = .ok () :=
          dev.byteWrite_ok fun j hj _ => hall j hj
        rw [← Prod.eta (Device.byteWrite msk val (i :: is) dev), hok]
        refine (keeps_copyTo_iff hwritten).trans ?_
        exact ⟨fun hk => .inr ⟨hk.1, hall⟩, fun hk => ⟨(hk.resolve_left hout).1, hc⟩⟩
      · obtain ⟨j, hj, hin⟩ : ∃ j ∈ i :: is, dev.outMsk.getLsbD j = false := by
          simpa only [not_forall, Bool.not_eq_true, exists_prop] using hall
        have herror : (Device.byteWrite msk val (i :: is) dev).1 = .error .EPERM :=
          dev.byteWrite_error hj (hasked j hj) hin
        rw [← Prod.eta (Device.byteWrite msk val (i :: is) dev), herror]
        refine ⟨fun hk => absurd hk (not_keeps_of_written hwritten), fun hk => ?_⟩
        exact absurd (hk.resolve_left hout).2 hall

theorem serve_keeps_iff (vec : U32) (h : Consistent last dev) :
    (let r := answer copyTo (dev.serve vec request)
     Keeps last dev request r.1 r.2) ↔ request.meets dev copyTo := by
  cases request with
  | reset =>
    obtain ⟨-, -, -, -, -, hwrites⟩ := reset_cleared vec dev
    exact (keeps_copyTo_iff hwrites).trans (and_congr_right' (reset_consistent_iff vec))
  | connect ival =>
    by_cases hin : dev.outMsk &&& 3 = 0
    · obtain ⟨dev', heq, hdev⟩ := dev.connect_connected hin
      show (let r := answer copyTo (dev.connect ival); Keeps last dev _ r.1 r.2) ↔ _
      rw [heq]
      refine (keeps_copyTo_iff hdev.writes).trans ?_
      exact (and_congr_right' (connected_consistent_iff h hin hdev)).trans
        (or_iff_right (not_not.mpr hin)).symm
    · show (let r := answer copyTo (dev.connect ival); Keeps last dev _ r.1 r.2) ↔ _
      unfold Device.connect
      rw [if_pos hin]
      exact ⟨fun _ => .inl hin, fun _ => keeps_of_refused h⟩
  | byteSetOutput ival =>
    show (let r := answer copyTo (dev.byteSetOutput ival); Keeps last dev _ r.1 r.2) ↔ _
    unfold Device.byteSetOutput
    split
    · next hconn => exact ⟨fun _ => .inl hconn, fun _ => keeps_of_refused h⟩
    · next hconn =>
      refine (keeps_copyTo_iff (Nat.lt_succ_self _)).trans ?_
      exact (and_congr_right' (setOutput_consistent_iff h)).trans
        (or_iff_right hconn).symm
  | byteWrite msk val => exact byteWrite_keeps_iff h msk val

theorem ioctl_keeps_iff (vec : U32) (h : Consistent last dev) (call : Call) :
    (let r := dev.ioctl vec call; Keeps last dev call.request r.1 r.2) ↔ call.meets dev := by
  unfold Device.ioctl
  cases hmem : call.memory with
  | false => exact ⟨fun _ => .inl hmem, fun _ => keeps_of_refused h⟩
  | true =>
    cases hfrom : call.copyFrom with
    | false => exact ⟨fun _ => .inr (.inl hfrom), fun _ => keeps_of_refused h⟩
    | true =>
      refine (serve_keeps_iff vec h).trans ⟨fun hk => .inr (.inr hk), fun hk => ?_⟩
      rcases hk with hk | hk | hk
      · exact absurd (hk.symm.trans hmem) nofun
      · exact absurd (hk.symm.trans hfrom) nofun
      · exact hk

end

/-! ## Runs -/

/-- A request, with the mask that is connected. -/
def step (vec : U32) (s : Device × U32) (call : Call) : Device × U32 :=
  let r := s.1.ioctl vec call
  (r.2, lastConnect s.2 call.request r.1)

theorem install_consistent (vec : U32) (dev : Device) : Consistent 0 (install vec dev) :=
  (reset_consistent_iff vec).mpr rfl

/-- Every request of a run leaves the driver consistent and nothing behind when it fails if
and only if none of them parts from it. -/
theorem requests_keep_iff (vec : U32) (dev : Device) (calls : List Call) :
    Along (step vec)
        (fun s call =>
          let r := s.1.ioctl vec call
          Keeps s.2 s.1 call.request r.1 r.2)
        (install vec dev, 0) calls ↔
      Along (step vec) (fun s call => call.meets s.1) (install vec dev, 0) calls :=
  Along.iff (I := fun s : Device × U32 => Consistent s.2 s.1)
    (fun _ call h => ioctl_keeps_iff vec h call)
    (fun _ _ _ hk => hk.consistent)
    (install_consistent vec dev)

/-- A line of the second byte is connected, and port B does not watch it. -/
theorem requests_not_keep :
    ¬ ∀ (vec : U32) (dev : Device) (calls : List Call),
      Along (step vec)
        (fun s call =>
          let r := s.1.ioctl vec call
          Keeps s.2 s.1 call.request r.1 r.2)
        (install vec dev, 0) calls := by
  intro h
  have hkeeps := (h 0 {} [{ request := .connect 0x100 }]).1
  exact absurd hkeeps.consistent.portB (by decide +kernel)

end Coht.Icv196
