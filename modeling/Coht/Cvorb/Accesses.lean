import Coht.Cvorb.Transfer

/-!
# What the CVORB functions access

Each part of a store or a load either keeps the heap or runs out of a buffer, and one
lemma says which of the two happens and where it touches the SRAM or the caller's table.
The slots of two functions have no words in common (`InSlot.unique`).
-/

namespace Coht.Cvorb

open Coht.Lib Traced

variable {transport : Transport} {o : Outcomes} {sram sram' : Sram} {chnr fcnnr : Nat}
  {value buff : Nat → CvorbVectorFcn} {nVector : BitVec 32} {user hw : Halves}
  {fcn : CvorbHwFcn} {i j n s a sz32 submodulenr addr : Nat} {heap : Buffer → Option Nat}
  {source target : Buffer}

/-- 512k words -/
def SRAM_SIZE : Nat := 2 ^ 19

/-- What there is when a call begins: the caller's tables and the SRAM. -/
def callerHeap (nVector : BitVec 32) : Buffer → Option Nat
  | .value | .buff => some nVector.toNat
  | .sram _ => some SRAM_SIZE
  | .fcn | .page | .hwFcn => none

/-- The words of a slot, 4096 bytes. -/
def InSlot (chnr fcnnr s a : Nat) : Prop :=
  s = (chnr - 1) / 8 ∧ 1024 * (64 * ((chnr - 1) % 8) + (fcnnr - 1)) ≤ a ∧
    a < 1024 * (64 * ((chnr - 1) % 8) + (fcnnr - 1)) + 1024

/-! ## The slots -/

theorem withinRange_iff : withinRange chnr fcnnr = true ↔
    (1 ≤ chnr ∧ chnr ≤ 16) ∧ 1 ≤ fcnnr ∧ fcnnr ≤ 64 := by
  simp only [withinRange, Bool.and_eq_true, decide_eq_true_eq, and_assoc]
  rfl

theorem submodulenr_eq (h : withinRange chnr fcnnr) {x y : Nat} :
    (hwFcn chnr fcnnr x y).submodulenr.toNat = (chnr - 1) / 8 := by
  obtain ⟨hch, -⟩ := withinRange_iff.mp h
  simp only [hwFcn]
  split
  · simp only [BitVec.ofNat_eq_ofNat, BitVec.toNat_ofNat]
    omega
  · simp only [BitVec.ofNat_eq_ofNat, BitVec.toNat_ofNat]
    omega

theorem ramaddr_eq (h : withinRange chnr fcnnr) {x y : Nat} :
    (hwFcn chnr fcnnr x y).ramaddr = 1024 * (64 * ((chnr - 1) % 8) + (fcnnr - 1)) := by
  obtain ⟨hch, hf⟩ := withinRange_iff.mp h
  have hchannr : ((hwFcn chnr fcnnr x y).channr.setWidth 32 <<<
      CVORB_SUBMODULE_SRAM_CHAN_SHIFT).toNat = ((chnr - 1) % 8) <<< 18 := by
    have hnr : (if 8 < chnr then chnr - 9 else chnr - 1) = (chnr - 1) % 8 := by
      split <;> omega
    simp only [hwFcn, hnr, BitVec.toNat_shiftLeft, BitVec.toNat_setWidth, BitVec.toNat_ofNat,
      CVORB_SUBMODULE_SRAM_CHAN_SHIFT, Nat.shiftLeft_eq]
    omega
  have hfcnnr : ((hwFcn chnr fcnnr x y).fcnnr.setWidth 32 <<<
      CVORB_SUBMODULE_SRAM_FUNC_SHIFT).toNat = (fcnnr - 1) * 2 ^ 12 := by
    simp only [hwFcn, BitVec.toNat_shiftLeft, BitVec.toNat_setWidth, BitVec.toNat_ofNat,
      CVORB_SUBMODULE_SRAM_FUNC_SHIFT, Nat.shiftLeft_eq]
    omega
  rw [CvorbHwFcn.ramaddr, BitVec.toNat_or, hchannr, hfcnnr,
    ← Nat.shiftLeft_add_eq_or_of_lt (by omega), Nat.shiftLeft_eq]
  omega

theorem InSlot.inside (h : InSlot chnr fcnnr s a) (hrange : withinRange chnr fcnnr) :
    a < SRAM_SIZE := by
  obtain ⟨hch, hf⟩ := withinRange_iff.mp hrange
  obtain ⟨-, -, hlt⟩ := h
  simp only [SRAM_SIZE]
  omega

theorem InSlot.unique {chnr' fcnnr' : Nat} (h : InSlot chnr fcnnr s a)
    (h' : InSlot chnr' fcnnr' s a) (hrange : withinRange chnr fcnnr)
    (hrange' : withinRange chnr' fcnnr') : (chnr', fcnnr') = (chnr, fcnnr) := by
  obtain ⟨hch, hf⟩ := withinRange_iff.mp hrange
  obtain ⟨hch', hf'⟩ := withinRange_iff.mp hrange'
  obtain ⟨hs, hlo, hhi⟩ := h
  obtain ⟨hs', hlo', hhi'⟩ := h'
  simp only [Prod.mk.injEq]
  omega

/-! ## What a store accesses -/

theorem writeWords_settles : Settles (writeWords submodulenr addr source hw i n sram) := by
  induction n generalizing i sram with
  | zero => exact settles_pure _
  | succ n ih =>
    exact settles_bind settles_touch (settles_bind settles_touch (settles_bind settles_touch ih))

theorem writeWords_keeps : Keeps heap (writeWords submodulenr addr source hw i n sram) ↔
    n = 0 ∨ 2 * (i + n) ≤ (heap source).getD 0 ∧
      addr + i + n ≤ (heap (.sram submodulenr)).getD 0 := by
  induction n generalizing i sram with
  | zero => simp [writeWords]
  | succ n ih =>
    simp only [writeWords, settles_touch.keeps_bind_iff, keeps_touch, ih]
    omega

theorem writeWords_touches (hsource : source ≠ .sram s) :
    Touches (writeWords submodulenr addr source hw i n sram) (.sram s) a ↔
      s = submodulenr ∧ addr + i ≤ a ∧ a < addr + i + n := by
  induction n generalizing i sram with
  | zero =>
    simp only [writeWords, touches_pure, false_iff]
    omega
  | succ n ih =>
    simp only [writeWords, touches_bind, touches_touch, ih, Buffer.sram.injEq, hsource.symm,
      false_and, false_or]
    omega

@[simp] theorem ramaddr_size {x : BitVec 16} :
    ({ fcn with hwFcnSize32 := x } : CvorbHwFcn).ramaddr = fcn.ramaddr := rfl

theorem storeFcn_settles : Settles (storeFcn o sram fcn source user) := by
  rw [storeFcn]
  split
  · exact settles_pure _
  · exact settles_bind writeWords_settles (settles_pure _)

theorem storeFcn_keeps : Keeps heap (storeFcn o sram fcn source user) ↔
    o.busy ∨ fcn.hwFcnSize32.toNat = 0 ∨ 2 * fcn.hwFcnSize32.toNat ≤ (heap source).getD 0 ∧
      fcn.ramaddr + fcn.hwFcnSize32.toNat ≤ (heap (.sram fcn.submodulenr.toNat)).getD 0 := by
  rw [storeFcn]
  split
  · next hbusy => simp [hbusy]
  · next hbusy =>
    simp [writeWords_settles.keeps_bind_iff, writeWords_keeps, hbusy]

theorem storeFcn_touches (hsource : source ≠ .sram s) :
    Touches (storeFcn o sram fcn source user) (.sram s) a ↔
      o.busy = false ∧ s = fcn.submodulenr.toNat ∧ fcn.ramaddr ≤ a ∧
        a < fcn.ramaddr + fcn.hwFcnSize32.toNat := by
  rw [storeFcn]
  split
  · next hbusy => simp [hbusy]
  · next hbusy => simp [writeWords_touches hsource, hbusy]

theorem storeBy_settles : Settles (storeBy transport o sram fcn user sz32) := by
  cases transport with
  | sysfs =>
    simp only [storeBy, setAttrBin, cvorbSysfsSetFcn, cvorbSetFcn]
    split
    · exact settles_pure _
    · refine settles_bind (settles_withBuffer (settles_bind settles_touchMany
        (settles_bind settles_touchMany ?_))) (settles_pure _)
      split
      · exact settles_pure _
      · exact storeFcn_settles
  | ioctl =>
    simp only [storeBy, cvorbIoctlSetFcn, cvorbSetFcn]
    refine settles_bind ?_ (settles_pure _)
    split
    · exact settles_pure _
    · simp only [Bool.not_true, Bool.false_eq_true, if_false]
      split
      · exact settles_pure _
      · refine settles_withBuffer (settles_bind settles_touchMany
          (settles_bind settles_touchMany ?_))
        split
        · exact settles_pure _
        · exact storeFcn_settles

theorem storeBy_touches (hsize : fcn.hwFcnSize32.toNat = sz32) :
    Touches (storeBy transport o sram fcn user sz32) (.sram s) a ↔
      reaches transport o ∧ s = fcn.submodulenr.toNat ∧ fcn.ramaddr ≤ a ∧
        a < fcn.ramaddr + storedWords transport o sz32 := by
  cases transport with
  | sysfs =>
    cases hopened : o.opened with
    | false => simp [storeBy, setAttrBin, reaches, hopened]
    | true =>
      cases hcopied : o.fcnCopied with
      | false =>
        simp [storeBy, setAttrBin, cvorbSysfsSetFcn, reaches, hopened, hcopied]
      | true =>
        simp [storeBy, setAttrBin, cvorbSysfsSetFcn, cvorbSetFcn, reaches, hopened,
          hcopied, storeFcn_touches, storedWords]
  | ioctl =>
    cases hargs : o.argCopied with
    | false => simp [storeBy, cvorbIoctlSetFcn, reaches, hargs]
    | true =>
      cases hmemory : o.kernelMemory with
      | false => simp [storeBy, cvorbIoctlSetFcn, cvorbSetFcn, reaches, hargs, hmemory]
      | true =>
        cases hcopied : o.fcnCopied with
        | false =>
          simp [storeBy, cvorbIoctlSetFcn, cvorbSetFcn, reaches, hargs, hmemory, hcopied]
        | true =>
          simp [storeBy, cvorbIoctlSetFcn, cvorbSetFcn, reaches, hargs, hmemory,
            hcopied, storeFcn_touches, storedWords, hsize]

theorem scratch_keeps {α : Type} {b : Buffer} {size count : Nat} {x : Traced Buffer α}
    (hx : Settles x) (hb : b ≠ .fcn) (hnone : heap b = none) (hsize : count ≤ size)
    (hfcn : count ≤ (heap .fcn).getD 0) :
    Keeps heap (withBuffer b size do
      touchMany .fcn 0 count
      touchMany b 0 count
      x) ↔ Keeps (Function.update heap b (some size)) x := by
  have hwhole : Settles (do touchMany .fcn 0 count; touchMany b 0 count; x) :=
    settles_bind settles_touchMany (settles_bind settles_touchMany hx)
  rw [hwhole.keeps_withBuffer_iff hnone, settles_touchMany.keeps_bind_iff,
    settles_touchMany.keeps_bind_iff, keeps_touchMany, keeps_touchMany]
  simp [Function.update_of_ne hb.symm, hsize, hfcn]

theorem storeBy_keeps (hfcn : heap .fcn = some (2 * sz32)) (hpage : heap .page = none)
    (hhw : heap .hwFcn = none) (hsize : fcn.hwFcnSize32.toNat = sz32) :
    Keeps heap (storeBy transport o sram fcn user sz32) ↔
      reaches transport o = false ∨ storedWords transport o sz32 = 0 ∨
        (transport = .sysfs → o.stray.toNat ≤ 1024) ∧
          fcn.ramaddr + storedWords transport o sz32 ≤
            (heap (.sram fcn.submodulenr.toNat)).getD 0 := by
  cases transport with
  | sysfs =>
    cases hopened : o.opened with
    | false => simp [storeBy, setAttrBin, reaches, hopened]
    | true =>
      have hscratch := @scratch_keeps heap _ .page (PAGE_SIZE / 2)
        (min (2 * sz32) (PAGE_SIZE / 2))
        (if !o.fcnCopied then pure (-EFAULT, sram)
          else cvorbSetFcn o sram false { fcn with hwFcnSize32 := o.stray }
            (pageOf o sz32 user)) (by
          split
          · exact settles_pure _
          · exact storeFcn_settles) (by decide) hpage (min_le_right _ _)
        (by rw [hfcn]; exact min_le_left _ _)
      have hsame : Keeps heap (storeBy .sysfs o sram fcn user sz32) ↔
          Keeps (Function.update heap .page (some (PAGE_SIZE / 2)))
            (if !o.fcnCopied then pure (-EFAULT, sram)
              else cvorbSetFcn o sram false { fcn with hwFcnSize32 := o.stray }
                (pageOf o sz32 user)) := by
        simp only [storeBy, setAttrBin, hopened, Bool.not_true, Bool.false_eq_true, if_false,
          keeps_bind_pure]
        exact hscratch
      rw [hsame]
      cases hcopied : o.fcnCopied with
      | false => simp [reaches, hcopied]
      | true =>
        have hbytes : 2 * o.stray.toNat ≤ 2048 ↔ o.stray.toNat ≤ 1024 := by omega
        simp [cvorbSetFcn, storeFcn_keeps, reaches, hopened, hcopied, storedWords,
          PAGE_SIZE, hbytes]
  | ioctl =>
    have hpure : Keeps heap (storeBy .ioctl o sram fcn user sz32) ↔
        Keeps heap (cvorbIoctlSetFcn o sram fcn user) := keeps_bind_pure
    rw [hpure]
    cases hargs : o.argCopied with
    | false => simp [cvorbIoctlSetFcn, reaches, hargs]
    | true =>
      cases hmemory : o.kernelMemory with
      | false => simp [cvorbIoctlSetFcn, cvorbSetFcn, reaches, hargs, hmemory]
      | true =>
        have hscratch := @scratch_keeps heap _ .hwFcn (2 * sz32) (2 * sz32)
          (if !o.fcnCopied then pure (-EFAULT, sram) else storeFcn o sram fcn .hwFcn user)
          (by
            split
            · exact settles_pure _
            · exact storeFcn_settles) (by decide) hhw (le_refl _)
          (by rw [hfcn]; exact le_refl _)
        simp only [cvorbIoctlSetFcn, cvorbSetFcn, hargs, hmemory, hsize, Bool.not_true,
          Bool.false_eq_true, if_false, hscratch]
        cases hcopied : o.fcnCopied with
        | false => simp [reaches, hcopied]
        | true =>
          simp [storeFcn_keeps, reaches, hargs, hmemory, hcopied, storedWords, hsize]

/-! ## The table of the caller -/

theorem fillVectors_settles : Settles (fillVectors value i n hw) := by
  induction n generalizing i hw with
  | zero => exact settles_pure _
  | succ n ih =>
    refine settles_bind settles_touch (settles_bind settles_touchMany ?_)
    split
    · exact settles_pure _
    · exact settles_bind settles_touchMany ih

theorem fillVectors_keeps (hi : 0 < i) (hvalue : i + n ≤ (heap .value).getD 0)
    (hfcn : 3 * (i + n) ≤ (heap .fcn).getD 0) : Keeps heap (fillVectors value i n hw) := by
  induction n generalizing i hw with
  | zero => exact keeps_pure _
  | succ n ih =>
    simp only [fillVectors, settles_touch.keeps_bind_iff, settles_touchMany.keeps_bind_iff,
      keeps_touch, keeps_touchMany]
    refine ⟨by omega, ?_, ?_⟩
    · split <;> omega
    · split
      · exact keeps_pure _
      · rw [settles_touchMany.keeps_bind_iff, keeps_touchMany]
        exact ⟨by omega, ih (by omega) (by omega) (by omega)⟩

theorem fillVectors_touches : ¬ Touches (fillVectors value i n hw) (.sram s) a := by
  induction n generalizing i hw with
  | zero => exact touches_pure _ _
  | succ n ih =>
    simp only [fillVectors, touches_bind, touches_touch, touches_touchMany, reduceCtorEq,
      false_and, false_or]
    split
    · exact touches_pure _ _
    · simpa using ih

theorem fillVectors_isSome : (fillVectors value i n hw).value.isSome ↔
    ∀ k, i ≤ k → k < i + n → (computeHwVector (value (k - 1)) (value k)).isSome := by
  induction n generalizing i hw with
  | zero =>
    simp only [fillVectors, pure_value, Option.isSome_some, true_iff]
    omega
  | succ n ih =>
    have hrange : (∀ k, i ≤ k → k < i + (n + 1) →
        (computeHwVector (value (k - 1)) (value k)).isSome) ↔
        (computeHwVector (value (i - 1)) (value i)).isSome ∧ ∀ k, i + 1 ≤ k → k < i + 1 + n →
          (computeHwVector (value (k - 1)) (value k)).isSome := by
      constructor
      · intro h
        exact ⟨h i (by omega) (by omega), fun k hle hlt => h k (by omega) (by omega)⟩
      · rintro ⟨hi, hrest⟩ k hle hlt
        by_cases hk : k = i
        · exact hk ▸ hi
        · exact hrest k (by omega) (by omega)
    rw [hrange]
    simp only [fillVectors, bind_value]
    cases hvector : computeHwVector (value (i - 1)) (value i) with
    | none => simp
    | some vector =>
      simp only [Option.isSome_some, true_and]
      exact ih

/-! ## What a load accesses -/

theorem hwFcnSz32_lt (hbad : badSlot n = false) : 0 < hwFcnSz32 n ∧ hwFcnSz32 n < 1024 ∧
    3 * n + 3 ≤ 2 * hwFcnSz32 n := by
  obtain ⟨hpos, hlt, -⟩ := badSlot_false hbad
  simp only [CVORB_MAX_VECTOR] at hlt
  rw [hwFcnSz32, sz16_eq]
  omega

theorem readWords_settles : Settles (readWords sram submodulenr addr target i n hw) := by
  induction n generalizing i hw with
  | zero => exact settles_pure _
  | succ n ih =>
    exact settles_bind settles_touch (settles_bind settles_touch (settles_bind settles_touch ih))

theorem readWords_keeps : Keeps heap (readWords sram submodulenr addr target i n hw) ↔
    n = 0 ∨ 2 * (i + n) ≤ (heap target).getD 0 ∧
      addr + i + n ≤ (heap (.sram submodulenr)).getD 0 := by
  induction n generalizing i hw with
  | zero => simp [readWords]
  | succ n ih =>
    simp only [readWords, settles_touch.keeps_bind_iff, keeps_touch, ih]
    omega

theorem fetch_settles : Settles (fetch sram fcn target hw) :=
  settles_bind settles_touch (settles_bind settles_touch readWords_settles)

theorem fetch_keeps (hbad : badSlot (fcn.hwNVector sram) = false) :
    Keeps heap (fetch sram fcn target hw) ↔
      2 * (hwFcnSz32 (fcn.hwNVector sram) + 1) ≤ (heap target).getD 0 ∧
        fcn.ramaddr + hwFcnSz32 (fcn.hwNVector sram) + 1 ≤
          (heap (.sram fcn.submodulenr.toNat)).getD 0 := by
  obtain ⟨hpos, -, -⟩ := hwFcnSz32_lt hbad
  simp only [fetch, settles_touch.keeps_bind_iff, keeps_touch, readWords_keeps]
  omega

theorem cvorbGetFcn_faults (hidle : o.busy = false)
    (hbad : badSlot (fcn.hwNVector sram) = false) (hmemory : o.kernelMemory = true) :
    Faults heap (cvorbGetFcn o sram true fcn user) := by
  simp only [cvorbGetFcn, hidle, hbad, hmemory, Bool.not_true, Bool.false_eq_true, if_false]
  rcases settles_touch heap with hkeeps | hfaults
  · refine hkeeps.faults_bind (faults_alloc fun _ => faults_bind (fetch_settles.faults ?_))
    rw [fetch_keeps hbad, Function.update_self, Option.getD_some]
    omega
  · exact faults_bind hfaults

theorem cvorbGetFcn_settles {isIoctl : Bool} :
    Settles (cvorbGetFcn o sram isIoctl fcn user) := by
  intro heap
  cases hbusy : o.busy with
  | true => simp [cvorbGetFcn, hbusy]
  | false =>
    cases hbad : badSlot (fcn.hwNVector sram) with
    | true =>
      simp only [cvorbGetFcn, hbusy, hbad, Bool.false_eq_true, if_false, if_true]
      exact settles_bind settles_touch (settles_pure _) heap
    | false =>
      cases isIoctl with
      | false =>
        simp only [cvorbGetFcn, hbusy, hbad, Bool.not_false, Bool.false_eq_true, if_false,
          if_true]
        exact settles_bind settles_touch (settles_bind fetch_settles (settles_pure _)) heap
      | true =>
        cases hmemory : o.kernelMemory with
        | false =>
          simp only [cvorbGetFcn, hbusy, hbad, hmemory, Bool.not_true, Bool.not_false,
            Bool.false_eq_true, if_false, if_true]
          exact settles_bind settles_touch (settles_pure _) heap
        | true => exact .inr (cvorbGetFcn_faults hbusy hbad hmemory)

theorem cvorbGetFcn_keeps {isIoctl : Bool}
    (hsram : fcn.ramaddr + 1024 ≤ (heap (.sram fcn.submodulenr.toNat)).getD 0)
    (hpage : isIoctl = false → heap .page = some (PAGE_SIZE / 2)) :
    Keeps heap (cvorbGetFcn o sram isIoctl fcn user) ↔ o.busy ∨
      badSlot (fcn.hwNVector sram) ∨ isIoctl = false ∨ o.kernelMemory = false := by
  have htouch : Keeps heap (touch (.sram fcn.submodulenr.toNat) fcn.ramaddr) := by
    rw [keeps_touch]
    omega
  cases hbusy : o.busy with
  | true => simp [cvorbGetFcn, hbusy]
  | false =>
    cases hbad : badSlot (fcn.hwNVector sram) with
    | true => simp [cvorbGetFcn, hbusy, hbad, keeps_bind htouch]
    | false =>
      cases isIoctl with
      | false =>
        obtain ⟨-, hlt, -⟩ := hwFcnSz32_lt hbad
        have hfetch : Keeps heap (fetch sram fcn .page user) := by
          rw [fetch_keeps hbad, hpage rfl, Option.getD_some, PAGE_SIZE]
          omega
        simp [cvorbGetFcn, hbusy, hbad, keeps_bind htouch, hfetch]
      | true =>
        cases hmemory : o.kernelMemory with
        | false => simp [cvorbGetFcn, hbusy, hbad, hmemory, keeps_bind htouch]
        | true => simp [(cvorbGetFcn_faults hbusy hbad hmemory).not_keeps]

theorem fetch_touches (htarget : target ≠ .buff) :
    ¬ Touches (fetch sram fcn target hw) .buff j := by
  have hread : ∀ i n hw, ¬ Touches (readWords sram fcn.submodulenr.toNat fcn.ramaddr target i n hw)
      .buff j := by
    intro i n
    induction n generalizing i with
    | zero => exact fun _ => touches_pure _ _
    | succ n ih => simp [readWords, htarget.symm, ih]
  simp [fetch, htarget.symm, hread]

theorem cvorbGetFcn_touches {isIoctl : Bool} :
    ¬ Touches (cvorbGetFcn o sram isIoctl fcn user) .buff j := by
  rw [cvorbGetFcn]
  split
  · exact touches_pure _ _
  · simp only [touches_bind, touches_touch, reduceCtorEq, false_and, false_or]
    split
    · exact touches_pure _ _
    · split
      · simp [fetch_touches]
      · split
        · exact touches_pure _ _
        · simp only [touches_bind, touches_alloc, fetch_touches, touches_touchMany, reduceCtorEq,
            false_and, false_or, ne_eq, not_false_eq_true]
          split <;> simp

theorem loadBy_touches : ¬ Touches (loadBy transport o sram fcn) .buff j := by
  cases transport with
  | sysfs =>
    simp only [loadBy, getAttrBin, touches_bind, not_or]
    constructor
    · split
      · exact touches_pure _ _
      · simp only [cvorbSysfsGetFcn, touches_bind, touches_withBuffer, cvorbGetFcn_touches,
          false_or, touches_pure, or_false]
        split
        · exact touches_pure _ _
        · simp only [touches_bind, touches_touchMany, reduceCtorEq, false_and, false_or]
          split <;> simp
    · split <;> simp
  | ioctl =>
    simp only [loadBy, cvorbIoctlGetFcn, touches_bind, touches_pure, or_false]
    split
    · exact touches_pure _ _
    · simp only [touches_bind, cvorbGetFcn_touches, false_or]
      split <;> simp

theorem loadBy_settles : Settles (loadBy transport o sram fcn) := by
  cases transport with
  | sysfs =>
    simp only [loadBy, getAttrBin]
    refine settles_bind ?_ ?_
    · split
      · exact settles_pure _
      · refine settles_bind (settles_withBuffer (settles_bind cvorbGetFcn_settles ?_))
          (settles_pure _)
        simp only
        split
        · exact settles_pure _
        · refine settles_bind settles_touchMany ?_
          split
          · exact settles_bind settles_touchMany (settles_pure _)
          · exact settles_pure _
    · split
      · exact settles_pure _
      · exact settles_bind settles_touchMany (settles_pure _)
  | ioctl =>
    simp only [loadBy, cvorbIoctlGetFcn]
    refine settles_bind ?_ (settles_pure _)
    split
    · exact settles_pure _
    · refine settles_bind cvorbGetFcn_settles ?_
      split <;> exact settles_pure _

theorem getAttrBin_keeps (hfcn : o.memory = true → heap .fcn = some 2050)
    (hpage : heap .page = none)
    (hsram : fcn.ramaddr + 1024 ≤ (heap (.sram fcn.submodulenr.toNat)).getD 0) :
    Keeps heap (getAttrBin o sram fcn fun _ => 0#16) := by
  rw [getAttrBin]
  split
  · exact keeps_pure _
  · rw [keeps_bind_pure, cvorbSysfsGetFcn]
    refine keeps_withBuffer hpage ?_
    have hget : Keeps (Function.update heap .page (some (PAGE_SIZE / 2)))
        (cvorbGetFcn o sram false fcn o.page) :=
      (cvorbGetFcn_keeps (by simpa using hsram) fun _ => by simp).mpr (.inr (.inr (.inl rfl)))
    rw [keeps_bind hget]
    rcases hvalue : (cvorbGetFcn o sram false fcn o.page).value with ⟨ret, nVector, user⟩
    simp only
    split
    · exact keeps_pure _
    · next hret =>
      have hbad : badSlot (fcn.hwNVector sram) = false := by
        by_contra hbad
        rw [Bool.not_eq_false] at hbad
        have hcode := congrArg Prod.fst hvalue
        simp only [cvorbGetFcn_value, hbad, if_true] at hcode
        split at hcode <;> simp only [EAGAIN, EBADSLT] at hcode <;> omega
      obtain ⟨-, hlt, -⟩ := hwFcnSz32_lt hbad
      rw [settles_touchMany.keeps_bind_iff, keeps_touchMany, Function.update_self]
      refine ⟨.inr ?_, ?_⟩
      · simp only [Option.getD_some, PAGE_SIZE]
        omega
      · split
        · next hcopied =>
          rw [Bool.and_eq_true] at hcopied
          rw [settles_touchMany.keeps_bind_iff, keeps_touchMany,
            Function.update_of_ne (by decide), hfcn hcopied.1]
          refine ⟨.inr ?_, keeps_pure _⟩
          simp only [Option.getD_some]
          omega
        · exact keeps_pure _

theorem loadBy_keeps (hfcn : o.memory = true → heap .fcn = some 2050) (hpage : heap .page = none)
    (hsram : fcn.ramaddr + 1024 ≤ (heap (.sram fcn.submodulenr.toNat)).getD 0) :
    Keeps heap (loadBy transport o sram fcn) ↔ transport = .sysfs ∨ o.argCopied = false ∨
      o.busy ∨ badSlot (fcn.hwNVector sram) ∨ o.kernelMemory = false := by
  cases transport with
  | ioctl =>
    simp only [loadBy, cvorbIoctlGetFcn, keeps_bind_pure, reduceCtorEq, false_or]
    cases hargs : o.argCopied with
    | false => simp
    | true =>
      simp only [Bool.not_true, Bool.false_eq_true, if_false, reduceCtorEq, false_or]
      rw [cvorbGetFcn_settles.keeps_bind_iff, cvorbGetFcn_keeps hsram (by simp)]
      simp only [reduceCtorEq, false_or, and_iff_left_iff_imp]
      intro _
      split <;> exact keeps_pure _
  | sysfs =>
    simp only [true_or, iff_true, loadBy]
    have hattr := @getAttrBin_keeps o sram fcn heap hfcn hpage hsram
    refine (keeps_bind hattr).mpr ?_
    split
    · exact keeps_pure _
    · next user hsome =>
      have hmemory : o.memory = true := by
        by_contra hno
        rw [Bool.not_eq_true] at hno
        have hvalue := @getAttrBin_value o sram fcn
        rw [if_pos (by simp [hno])] at hvalue
        rw [hvalue] at hsome
        cases hsome
      rw [settles_touchMany.keeps_bind_iff, keeps_touchMany, hfcn hmemory]
      exact ⟨.inr (by decide), keeps_pure _⟩

theorem convertVectors_settles : Settles (convertVectors hw i n buff) := by
  induction n generalizing i buff with
  | zero => exact settles_pure _
  | succ n ih =>
    exact settles_bind settles_touch (settles_bind settles_touchMany (settles_bind
      settles_touchMany (settles_bind settles_touch (settles_bind settles_touch ih))))

theorem convertVectors_keeps (hi : 0 < i) (hfcn : 3 * (i + n) ≤ (heap .fcn).getD 0) :
    Keeps heap (convertVectors hw i n buff) ↔ n = 0 ∨ i + n ≤ (heap .buff).getD 0 := by
  induction n generalizing i buff with
  | zero => simp [convertVectors]
  | succ n ih =>
    have hrest := fun buff => @ih buff (i + 1) (by omega) (by omega)
    simp only [convertVectors, settles_touch.keeps_bind_iff, settles_touchMany.keeps_bind_iff,
      keeps_touch, keeps_touchMany, hrest]
    split <;> omega

theorem convertVectors_touches (hi : 0 < i) (h : Touches (convertVectors hw i n buff) .buff j) :
    n ≠ 0 ∧ j < i + n := by
  induction n generalizing i buff with
  | zero => exact absurd h (touches_pure _ _)
  | succ n ih =>
    refine ⟨by omega, ?_⟩
    simp only [convertVectors, touches_bind, touches_touch, touches_touchMany, reduceCtorEq,
      false_and, false_or, true_and] at h
    rcases h with hprev | hthis | hrest
    · split at hprev <;> omega
    · omega
    · have := ih (by omega) hrest
      omega

end Coht.Cvorb
