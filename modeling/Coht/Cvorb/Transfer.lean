import Coht.Cvorb.Vectors

/-!
# What a store leaves in the SRAM and a load returns

The values of `cvorb_ch_set_fcn()` and `cvorb_ch_get_fcn()`, without what they touch on the
way. Both transports do the same to the SRAM (`laid`) but for the number of words and
the buffer they come from, and both give back the words of the slot (`loaded`).
-/

namespace Coht.Cvorb

open Coht.Lib

variable {transport : Transport} {o o' : Outcomes} {sram sram' : Sram} {chnr fcnnr : Nat}
  {value buff buff' : Nat → CvorbVectorFcn} {nVector : BitVec 32} {user : Halves}
  {fcn : CvorbHwFcn} {i j n sz32 fcnSz : Nat} {stray : BitVec 16}

structure Outcomes.Good (o : Outcomes) : Prop where
  memory : o.memory
  opened : o.opened
  closed : o.closed
  argCopied : o.argCopied
  kernelMemory : o.kernelMemory
  fcnCopied : o.fcnCopied
  argReturned : o.argReturned
  idle : o.busy = false

/-! ## Storing -/

def laid (sram : Sram) (fcn : CvorbHwFcn) (m : Nat) (hw : Halves) : Sram := fun s a =>
  if s = fcn.submodulenr.toNat ∧ fcn.ramaddr ≤ a ∧ a < fcn.ramaddr + m then
    word hw (a - fcn.ramaddr)
  else sram s a

def pageOf (o : Outcomes) (sz32 : Nat) (user : Halves) : Halves := fun j =>
  if j < min (2 * sz32) (PAGE_SIZE / 2) then user j else o.page j

theorem storeFcn_value {source : Buffer} : (storeFcn o sram fcn source user).value =
    if o.busy then (-EAGAIN, sram) else (0, laid sram fcn fcn.hwFcnSize32.toNat user) := by
  rw [storeFcn]
  split
  · rfl
  · simp only [Traced.bind_value, Traced.pure_value, Prod.mk.injEq, true_and]
    funext s a
    simpa [laid] using @writeWords_value user 0 fcn.hwFcnSize32.toNat fcn.submodulenr.toNat fcn.ramaddr
      source sram s a

theorem setAttrBin_value : (setAttrBin o sram fcn user sz32).value =
    if o.opened = false ∨ o.fcnCopied = false ∨ o.busy = true then (-1, sram)
    else (if o.closed = false then -1 else 0,
      laid sram fcn o.stray.toNat (pageOf o sz32 user)) := by
  have hlaid : laid sram { fcn with hwFcnSize32 := o.stray } = laid sram fcn := rfl
  have hpage : pageOf o sz32 user =
      fun j => if j < 2 * sz32 ∧ j < PAGE_SIZE / 2 then user j else o.page j := by
    funext j
    simp [pageOf]
  cases hopened : o.opened with
  | false => simp [setAttrBin, hopened]
  | true =>
    cases hcopied : o.fcnCopied with
    | false => simp [setAttrBin, cvorbSysfsSetFcn, hopened, hcopied, EFAULT]
    | true =>
      cases hbusy : o.busy with
      | true =>
        simp [setAttrBin, cvorbSysfsSetFcn, cvorbSetFcn, storeFcn_value, hopened, hcopied,
          hbusy, EAGAIN]
      | false =>
        simp [setAttrBin, cvorbSysfsSetFcn, cvorbSetFcn, storeFcn_value, hopened, hcopied,
          hbusy, hlaid, hpage]

theorem ioctlSetFcn_value : (cvorbIoctlSetFcn o sram fcn user).value =
    if o.argCopied = false then (-EFAULT, sram)
    else if o.kernelMemory = false then (-ENOMEM, sram)
    else if o.fcnCopied = false then (-EFAULT, sram)
    else if o.busy then (-EAGAIN, sram)
    else (0, laid sram fcn fcn.hwFcnSize32.toNat user) := by
  cases hargs : o.argCopied with
  | false => simp [cvorbIoctlSetFcn, hargs]
  | true =>
    cases hmemory : o.kernelMemory with
    | false => simp [cvorbIoctlSetFcn, cvorbSetFcn, hargs, hmemory]
    | true =>
      cases hcopied : o.fcnCopied with
      | false => simp [cvorbIoctlSetFcn, cvorbSetFcn, hargs, hmemory, hcopied]
      | true =>
        simp [cvorbIoctlSetFcn, cvorbSetFcn, hargs, hmemory, hcopied, storeFcn_value]

def storedWords (transport : Transport) (o : Outcomes) (sz32 : Nat) : Nat :=
  match transport with
  | .sysfs => o.stray.toNat
  | .ioctl => sz32

def storedHalves (transport : Transport) (o : Outcomes) (sz32 : Nat) (user : Halves) : Halves :=
  match transport with
  | .sysfs => pageOf o sz32 user
  | .ioctl => user

def reaches (transport : Transport) (o : Outcomes) : Bool :=
  match transport with
  | .sysfs => o.opened && o.fcnCopied && !o.busy
  | .ioctl => o.argCopied && o.kernelMemory && o.fcnCopied && !o.busy

theorem storeBy_value (hwords : fcn.hwFcnSize32.toNat = sz32) :
    (storeBy transport o sram fcn user sz32).value =
      if reaches transport o then
        (if transport = .sysfs ∧ o.closed = false then -1 else 0,
          laid sram fcn (storedWords transport o sz32) (storedHalves transport o sz32 user))
      else (-1, sram) := by
  cases transport with
  | sysfs =>
    simp only [storeBy, setAttrBin_value, reaches, storedWords, storedHalves, true_and]
    cases o.opened <;> cases o.fcnCopied <;> cases o.busy <;> simp
  | ioctl =>
    cases hargs : o.argCopied <;> cases hmemory : o.kernelMemory <;>
      cases hcopied : o.fcnCopied <;> cases hbusy : o.busy <;>
      simp [storeBy, ioctlSetFcn_value, reaches, storedWords, storedHalves, hwords, hargs,
        hmemory, hcopied, hbusy, EFAULT, ENOMEM, EAGAIN]

theorem withFcn_value {α : Type} {x : Traced Buffer α} : (withFcn o sz32 x).value = x.value := by
  cases hmemory : o.memory <;> simp [withFcn, hmemory]

theorem sz16_eq : sz16 n = 3 + 3 * n + (3 + 3 * n) % 2 + 6 := by
  have hcomm : CVORB_FCT_HEADER_SZ + n * CVORB_VCT_SZ = 3 + 3 * n := by
    simp only [CVORB_FCT_HEADER_SZ, CVORB_VCT_SZ]
    omega
  simp only [sz16, hcomm, CVORB_FOOTER_SZ]
  rcases Nat.mod_two_eq_zero_or_one (3 + 3 * n) with hodd | hodd <;> simp [hodd]

theorem getHwFcnSize32_eq (hn : 0 < n) (hle : n ≤ CVORB_MAX_VECTOR) :
    getHwFcnSize32 n = hwFcnSz32 n := by
  simp only [CVORB_MAX_VECTOR] at hle
  have hsmall : (CVORB_FCT_HEADER_SZ + n * CVORB_VCT_SZ) % 2 ^ 32 = 3 + 3 * n := by
    simp only [CVORB_FCT_HEADER_SZ, CVORB_VCT_SZ]
    omega
  simp only [getHwFcnSize32, if_neg hn.ne', hsmall, hwFcnSz32, sz16_eq, CVORB_FOOTER_SZ]
  rcases Nat.mod_two_eq_zero_or_one (3 + 3 * n) with hodd | hodd
  · simp only [hodd, if_neg Nat.zero_ne_one]
    omega
  · simp only [hodd, if_true]
    omega

theorem hwFcnSz32_le (hle : n ≤ CVORB_MAX_VECTOR) : hwFcnSz32 n ≤ 1025 := by
  simp only [CVORB_MAX_VECTOR] at hle
  rw [hwFcnSz32, sz16_eq]
  omega

theorem cvorbChSetFcn_value (hn : 2 ≤ n) (hle : n ≤ CVORB_MAX_VECTOR)
    (hrange : withinRange chnr fcnnr) (hfill : (fillVectors value 1 (n - 1)
      (put (fun _ => 0) 0 (BitVec.ofNat 16 (n - 1)) 0 (value 0).v)).value = some user)
    (hsz : hwFcnSz32 (n - 1) = sz32) (hfcn : hwFcn chnr fcnnr (n - 1) sz32 = fcn) :
    (cvorbChSetFcn transport o sram chnr fcnnr value (BitVec.ofNat 32 n)).value =
      (storeBy transport o sram fcn user sz32).value := by
  have hvtr : (BitVec.ofNat 32 n - 1).toNat = n - 1 := by
    simp only [CVORB_MAX_VECTOR] at hle
    simp only [BitVec.toNat_sub, BitVec.ofNat_eq_ofNat, BitVec.toNat_ofNat]
    omega
  have hnat : (BitVec.ofNat 32 n).toNat = n := by
    simp only [CVORB_MAX_VECTOR] at hle
    simp only [BitVec.toNat_ofNat]
    omega
  have hsize : getHwFcnSize32 (n - 1) = sz32 := by
    rw [getHwFcnSize32_eq (by omega) (by omega), hsz]
  have hvalid : (!withinRange chnr fcnnr || decide (CVORB_MAX_VECTOR < n)) = false := by
    simp [hrange, hle]
  simp only [cvorbChSetFcn, hvtr, hnat, hsize, hvalid, Bool.false_eq_true, if_false,
    withFcn_value, Traced.bind_value, hfill, hfcn]

theorem hwFcn_size (hsmall : sz32 ≤ 1025) :
    ((hwFcn chnr fcnnr n sz32).hwFcnSize32).toNat = sz32 := by
  simp only [hwFcn, BitVec.toNat_ofNat]
  omega

theorem cvorbChSetFcn_ok (hn : 2 ≤ n) (hle : n ≤ CVORB_MAX_VECTOR)
    (hrange : withinRange chnr fcnnr) (hfill : (fillVectors value 1 (n - 1)
      (put (fun _ => 0) 0 (BitVec.ofNat 16 (n - 1)) 0 (value 0).v)).value = some user)
    (hsz : hwFcnSz32 (n - 1) = sz32) (hfcn : hwFcn chnr fcnnr (n - 1) sz32 = fcn)
    (h : (cvorbChSetFcn transport o sram chnr fcnnr value (BitVec.ofNat 32 n)).value =
      (0, sram')) :
    sram' = laid sram fcn (storedWords transport o sz32) (storedHalves transport o sz32 user) := by
  have hwords : fcn.hwFcnSize32.toNat = sz32 :=
    hfcn ▸ hwFcn_size (hsz ▸ hwFcnSz32_le (by omega))
  rw [cvorbChSetFcn_value hn hle hrange hfill hsz hfcn, storeBy_value hwords] at h
  split at h
  · exact (congrArg Prod.snd h).symm
  · cases h

theorem cvorbChSetFcn_good (hgood : o.Good) (hn : 2 ≤ n) (hle : n ≤ CVORB_MAX_VECTOR)
    (hrange : withinRange chnr fcnnr) (hfill : (fillVectors value 1 (n - 1)
      (put (fun _ => 0) 0 (BitVec.ofNat 16 (n - 1)) 0 (value 0).v)).value = some user)
    (hsz : hwFcnSz32 (n - 1) = sz32) (hfcn : hwFcn chnr fcnnr (n - 1) sz32 = fcn) :
    (cvorbChSetFcn transport o sram chnr fcnnr value (BitVec.ofNat 32 n)).value =
      (0, laid sram fcn (storedWords transport o sz32) (storedHalves transport o sz32 user)) := by
  have hwords : fcn.hwFcnSize32.toNat = sz32 :=
    hfcn ▸ hwFcn_size (hsz ▸ hwFcnSz32_le (by omega))
  have hreaches : reaches transport o = true := by
    cases transport <;>
      simp [reaches, hgood.opened, hgood.argCopied, hgood.kernelMemory, hgood.fcnCopied,
        hgood.idle]
  rw [cvorbChSetFcn_value hn hle hrange hfill hsz hfcn, storeBy_value hwords, if_pos hreaches]
  simp [hgood.closed]

/-! ## Loading -/

def loaded (sram : Sram) (fcn : CvorbHwFcn) : Halves := fun j =>
  if j < 2 * hwFcnSz32 (fcn.hwNVector sram) then
    half (sram fcn.submodulenr.toNat (fcn.ramaddr + j / 2)) j
  else 0

theorem cvorbGetFcn_value {isIoctl : Bool} : (cvorbGetFcn o sram isIoctl fcn user).value =
    if o.busy then (-EAGAIN, fcn.nVector, user)
    else if badSlot (fcn.hwNVector sram) then (-EBADSLT, fcn.nVector, user)
    else if isIoctl = false then
      (0, BitVec.ofNat 16 (fcn.hwNVector sram), (fetch sram fcn .page user).value)
    else if o.kernelMemory = false then (-ENOMEM, fcn.nVector, user)
    else if o.memory && o.fcnCopied then
      (0, BitVec.ofNat 16 (fcn.hwNVector sram), fun j =>
        if j < 2 * hwFcnSz32 (fcn.hwNVector sram) then
          (fetch sram fcn .hwFcn fun _ => 0#16).value j
        else user j)
    else (-EFAULT, BitVec.ofNat 16 (fcn.hwNVector sram), user) := by
  rw [cvorbGetFcn]
  split
  · rfl
  · simp only [Traced.bind_value]
    split
    · rfl
    · cases isIoctl with
      | false => rfl
      | true =>
        cases hmemory : o.kernelMemory with
        | false => rfl
        | true =>
          simp only [Bool.not_true, Bool.false_eq_true, if_false, Traced.bind_value,
            reduceCtorEq]
          split <;> rfl

theorem loaded_fetch {target : Buffer} {hw : Halves} :
    (fun j => if j < 2 * hwFcnSz32 (fcn.hwNVector sram) then
      (fetch sram fcn target hw).value j else 0#16) = loaded sram fcn := by
  funext j
  rw [loaded]
  split
  · rw [fetch_value, if_pos (by omega)]
  · rfl

theorem word_loaded :
    (word (loaded sram fcn) 0).setWidth 16 = BitVec.ofNat 16 (fcn.hwNVector sram) := by
  have hlow : (word (loaded sram fcn) 0).setWidth 16 = loaded sram fcn 0 := by
    have hhalf := @half_word (loaded sram fcn) 0
    simpa [half] using hhalf
  have hpos : 0 < hwFcnSz32 (fcn.hwNVector sram) := by
    rw [hwFcnSz32, sz16_eq]
    omega
  rw [hlow, loaded, if_pos (by omega)]
  apply BitVec.eq_of_toNat_eq
  simp [half, CvorbHwFcn.hwNVector]

theorem getAttrBin_value : (getAttrBin o sram fcn fun _ => 0#16).value =
    if o.opened = false ∨ o.busy = true ∨ badSlot (fcn.hwNVector sram) = true ∨
        (o.memory && o.fcnCopied) = false ∨ o.closed = false then none
    else some (loaded sram fcn) := by
  cases hopened : o.opened with
  | false => simp [getAttrBin, hopened]
  | true =>
    cases hbusy : o.busy with
    | true =>
      simp [getAttrBin, cvorbSysfsGetFcn, cvorbGetFcn_value, hopened, hbusy, EAGAIN]
    | false =>
      cases hbad : badSlot (fcn.hwNVector sram) with
      | true =>
        simp [getAttrBin, cvorbSysfsGetFcn, cvorbGetFcn_value, hopened, hbusy, hbad,
          EBADSLT]
      | false =>
        cases hcopied : (o.memory && o.fcnCopied) with
        | false =>
          simp [getAttrBin, cvorbSysfsGetFcn, cvorbGetFcn_value, hopened, hbusy, hbad,
            hcopied, EFAULT]
        | true =>
          simp [getAttrBin, cvorbSysfsGetFcn, cvorbGetFcn_value, hopened, hbusy, hbad,
            hcopied, loaded_fetch]

def delivers (transport : Transport) (o : Outcomes) : Bool :=
  match transport with
  | .sysfs => o.opened && o.memory && o.fcnCopied && o.closed && !o.busy
  | .ioctl => o.argCopied && o.kernelMemory && o.memory && o.fcnCopied && o.argReturned && !o.busy

theorem loadBy_value : (loadBy transport o sram fcn).value =
    if delivers transport o = true ∧ badSlot (fcn.hwNVector sram) = false then
      some (BitVec.ofNat 16 (fcn.hwNVector sram), loaded sram fcn)
    else none := by
  cases transport with
  | sysfs =>
    have hattr : (getAttrBin o sram fcn fun _ => 0#16).value =
        if delivers .sysfs o = true ∧ badSlot (fcn.hwNVector sram) = false then
          some (loaded sram fcn)
        else none := by
      rw [getAttrBin_value]
      cases hopened : o.opened <;> cases hmemory : o.memory <;> cases hcopied : o.fcnCopied <;>
        cases hclosed : o.closed <;> cases hbusy : o.busy <;>
        cases hbad : badSlot (fcn.hwNVector sram) <;>
        simp [delivers, hopened, hmemory, hcopied, hclosed, hbusy]
    simp only [loadBy, BitVec.ofNat_eq_ofNat, Traced.bind_value, hattr]
    by_cases hdelivers : delivers .sysfs o = true ∧ badSlot (fcn.hwNVector sram) = false
    · simp only [if_pos hdelivers, Traced.bind_value, Traced.pure_value, word_loaded]
    · simp only [if_neg hdelivers, Traced.pure_value]
  | ioctl =>
    simp only [loadBy, BitVec.ofNat_eq_ofNat, Traced.bind_value, Traced.pure_value,
      cvorbIoctlGetFcn]
    cases hargs : o.argCopied with
    | false => simp [delivers, hargs, EFAULT]
    | true =>
      cases hreturned : o.argReturned with
      | false => simp [delivers, hreturned, EFAULT]
      | true =>
        cases hbusy : o.busy <;> cases hbad : badSlot (fcn.hwNVector sram) <;>
          cases hkernel : o.kernelMemory <;> cases hmemory : o.memory <;>
          cases hcopied : o.fcnCopied <;>
          simp [cvorbGetFcn_value, delivers, loaded_fetch, hargs, hreturned, hbusy, hbad,
            hkernel, hmemory, hcopied, EFAULT, EAGAIN, EBADSLT, ENOMEM]

theorem loadBy_ok {r : BitVec 16 × Halves} (h : (loadBy transport o sram fcn).value = some r) :
    badSlot (fcn.hwNVector sram) = false ∧
      r = (BitVec.ofNat 16 (fcn.hwNVector sram), loaded sram fcn) := by
  rw [loadBy_value] at h
  split at h
  · next hdelivers => exact ⟨hdelivers.2, (Option.some.inj h).symm⟩
  · cases h

theorem loadBy_good (hgood : o.Good) (hbad : badSlot (fcn.hwNVector sram) = false) :
    (loadBy transport o sram fcn).value =
      some (BitVec.ofNat 16 (fcn.hwNVector sram), loaded sram fcn) := by
  have hdelivers : delivers transport o = true := by
    cases transport <;>
      simp [delivers, hgood.memory, hgood.opened, hgood.closed, hgood.argCopied,
        hgood.kernelMemory, hgood.fcnCopied, hgood.argReturned, hgood.idle]
  rw [loadBy_value, if_pos ⟨hdelivers, hbad⟩]

def converted (buff : Nat → CvorbVectorFcn) (hw : Halves) (n : Nat) : Nat → CvorbVectorFcn :=
  (convertVectors hw 1 n (Function.update buff 0 { t := 0, v := hw 2 })).value

theorem badSlot_false (hbad : badSlot n = false) : 0 < n ∧ n < CVORB_MAX_VECTOR ∧
    (BitVec.ofNat 16 n).toNat = n := by
  simp only [badSlot, Bool.or_eq_false_iff, decide_eq_false_iff_not, not_le] at hbad
  simp only [CVORB_MAX_VECTOR, BitVec.toNat_ofNat] at hbad ⊢
  omega

theorem cvorbChGetFcn_ok (hfcn : hwFcn chnr fcnnr (nVector - 1).toNat (getHwFcnSize32 0) = fcn)
    (h : (cvorbChGetFcn transport o sram chnr fcnnr buff nVector).value = .ok (fcnSz, buff')) :
    badSlot (fcn.hwNVector sram) = false ∧ fcnSz = fcn.hwNVector sram + 1 ∧
      buff' = converted buff (loaded sram fcn) (fcn.hwNVector sram) := by
  simp only [cvorbChGetFcn, hfcn] at h
  split at h
  · cases h
  · simp only [withFcn_value, Traced.bind_value] at h
    cases hload : (loadBy transport o sram fcn).value with
    | none =>
      rw [hload] at h
      cases h
    | some r =>
      obtain ⟨hbad, rfl⟩ := loadBy_ok hload
      obtain ⟨-, -, hnat⟩ := badSlot_false hbad
      rw [hload] at h
      simp only [giveTable, hnat] at h
      split at h
      · cases h
      · obtain ⟨hsize, hbuff⟩ := Prod.mk.inj (Except.ok.inj h)
        exact ⟨hbad, hsize.symm, hbuff.symm⟩

theorem cvorbChGetFcn_good (hgood : o.Good) (hrange : withinRange chnr fcnnr)
    (hfcn : hwFcn chnr fcnnr (nVector - 1).toNat (getHwFcnSize32 0) = fcn)
    (hbad : badSlot (fcn.hwNVector sram) = false)
    (hle : fcn.hwNVector sram ≤ nVector.toNat) :
    (cvorbChGetFcn transport o sram chnr fcnnr buff nVector).value =
      .ok (fcn.hwNVector sram + 1,
        converted buff (loaded sram fcn) (fcn.hwNVector sram)) := by
  obtain ⟨-, -, hnat⟩ := badSlot_false hbad
  simp only [cvorbChGetFcn, hfcn, hrange, Bool.not_true, Bool.false_eq_true, if_false,
    withFcn_value, Traced.bind_value, loadBy_good hgood hbad, giveTable, hnat,
    if_neg (Nat.not_lt.mpr hle)]
  rfl

end Coht.Cvorb
