import Coht.Cvorb.Accesses

/-!
# Slots and buffers of the CVORB functions

Where the calls of the library and the driver read and write. A store stays in the slot of
its function, and both calls stay in their buffers, except for the counts on the edge: a
table of no vectors, which counts as `2 ^ 32 - 1`, one of a single vector, which is stored
with the size of the maximum, and a function with as many vectors as the caller has
elements, which needs one more. By ioctl a load always writes one word too many to the
driver's buffer. `stays_inside` says exactly when each call is safe.
-/

namespace Coht.Cvorb

open Coht.Lib Traced

variable {transport : Transport} {o : Outcomes} {sram sram' : Sram} {chnr fcnnr : Nat}
  {value buff : Nat → CvorbVectorFcn} {nVector : BitVec 32} {user hw : Halves}
  {fcn : CvorbHwFcn} {i j n s a sz32 submodulenr addr : Nat} {heap : Buffer → Option Nat}
  {source target : Buffer}

/-- A store writes to its own slot only, all other functions are read as before, and no
buffer is overrun, lost or freed twice. -/
structure StoreSafe (transport : Transport) (o : Outcomes) (sram : Sram) (chnr fcnnr : Nat)
    (value : Nat → CvorbVectorFcn) (nVector : BitVec 32) : Prop where
  slot : ∀ s a, Touches (cvorbChSetFcn transport o sram chnr fcnnr value nVector) (.sram s) a →
    InSlot chnr fcnnr s a
  others : ∀ t o' chnr' fcnnr' buff n, withinRange chnr' fcnnr' →
    (chnr', fcnnr') ≠ (chnr, fcnnr) →
    cvorbChGetFcn t o' (cvorbChSetFcn transport o sram chnr fcnnr value nVector).value.2
        chnr' fcnnr' buff n =
      cvorbChGetFcn t o' sram chnr' fcnnr' buff n
  clean : Keeps (callerHeap nVector) (cvorbChSetFcn transport o sram chnr fcnnr value nVector)

/-- A load writes at most `n_vector` elements, and no buffer is overrun, lost or freed
twice. -/
structure LoadSafe (transport : Transport) (o : Outcomes) (sram : Sram) (chnr fcnnr : Nat)
    (buff : Nat → CvorbVectorFcn) (nVector : BitVec 32) : Prop where
  room : ∀ i, Touches (cvorbChGetFcn transport o sram chnr fcnnr buff nVector) .buff i →
    i < nVector.toNat
  clean : Keeps (callerHeap nVector) (cvorbChGetFcn transport o sram chnr fcnnr buff nVector)

/-- `compute_hw_vector()` accepts all vectors. -/
def Legal (value : Nat → CvorbVectorFcn) (n : Nat) : Prop :=
  ∀ i, 0 < i → i < n → (computeHwVector (value (i - 1)) (value i)).isSome

/-- When a store is safe. -/
def StoreOk (transport : Transport) (o : Outcomes) (chnr fcnnr : Nat)
    (value : Nat → CvorbVectorFcn) (nVector : BitVec 32) : Prop :=
  withinRange chnr fcnnr = false ∨ CVORB_MAX_VECTOR < nVector.toNat ∨
    (o.memory ∧ nVector ≠ 0 ∧ (Legal value nVector.toNat →
      match transport with
      | .sysfs => o.opened = false ∨ o.fcnCopied = false ∨ o.busy ∨ o.stray.toNat ≤ 1024
      | .ioctl => o.argCopied = false ∨ o.kernelMemory = false ∨ o.fcnCopied = false ∨
          o.busy ∨ nVector ≠ 1))

/-- The number of vectors in the slot. -/
def resident (sram : Sram) (chnr fcnnr : Nat) : Nat := (hwFcn chnr fcnnr 0 0).hwNVector sram

/-- When a load is safe. -/
def LoadOk (transport : Transport) (o : Outcomes) (sram : Sram) (chnr fcnnr : Nat)
    (nVector : BitVec 32) : Prop :=
  withinRange chnr fcnnr = false ∨ o.busy ∨ badSlot (resident sram chnr fcnnr) ∨
    match transport with
    | .sysfs => o.opened = false ∨ o.memory = false ∨ o.fcnCopied = false ∨ o.closed = false ∨
        resident sram chnr fcnnr ≠ nVector.toNat
    | .ioctl => o.argCopied = false ∨ o.kernelMemory = false

/-! ## Other functions -/

theorem readWords_congr
    (hsame : ∀ a, addr + i ≤ a → a < addr + i + n → sram' submodulenr a = sram submodulenr a) :
    readWords sram' submodulenr addr target i n hw =
      readWords sram submodulenr addr target i n hw := by
  induction n generalizing i hw with
  | zero => rfl
  | succ n ih =>
    have hrest : ∀ hw, readWords sram' submodulenr addr target (i + 1) n hw =
        readWords sram submodulenr addr target (i + 1) n hw :=
      fun hw => ih fun a hlo hhi => hsame a (by omega) (by omega)
    simp only [readWords, hsame (addr + i) (by omega) (by omega), hrest]

theorem cvorbGetFcn_congr {isIoctl : Bool} (hsame : ∀ a, fcn.ramaddr ≤ a →
      a < fcn.ramaddr + 1024 →
      sram' fcn.submodulenr.toNat a = sram fcn.submodulenr.toNat a) :
    fcn.hwNVector sram' = fcn.hwNVector sram ∧
      cvorbGetFcn o sram' isIoctl fcn user = cvorbGetFcn o sram isIoctl fcn user := by
  have hfirst := hsame fcn.ramaddr (le_refl _) (by omega)
  have hnumber : fcn.hwNVector sram' = fcn.hwNVector sram := by
    rw [CvorbHwFcn.hwNVector, hfirst, CvorbHwFcn.hwNVector]
  refine ⟨hnumber, ?_⟩
  simp only [cvorbGetFcn, hnumber]
  cases hbad : badSlot (fcn.hwNVector sram) with
  | true => simp
  | false =>
    have hfetch : ∀ target hw, fetch sram' fcn target hw = fetch sram fcn target hw := by
      intro target hw
      obtain ⟨-, hlt, -⟩ := hwFcnSz32_lt hbad
      simp only [fetch, hnumber, hfirst]
      rw [readWords_congr fun a hlo hhi => hsame a (by omega) (by omega)]
    simp only [hfetch]

theorem cvorbChGetFcn_congr (hrange : withinRange chnr fcnnr)
    (hsame : ∀ s a, InSlot chnr fcnnr s a → sram' s a = sram s a) :
    cvorbChGetFcn transport o sram' chnr fcnnr buff nVector =
      cvorbChGetFcn transport o sram chnr fcnnr buff nVector := by
  have hfcn : ∀ x y a, (hwFcn chnr fcnnr x y).ramaddr ≤ a →
      a < (hwFcn chnr fcnnr x y).ramaddr + 1024 →
      sram' (hwFcn chnr fcnnr x y).submodulenr.toNat a =
        sram (hwFcn chnr fcnnr x y).submodulenr.toNat a := by
    intro x y a hlo hhi
    rw [ramaddr_eq hrange] at hlo hhi
    exact hsame _ a ⟨submodulenr_eq hrange, hlo, hhi⟩
  have hget : ∀ x y isIoctl user, cvorbGetFcn o sram' isIoctl (hwFcn chnr fcnnr x y) user =
      cvorbGetFcn o sram isIoctl (hwFcn chnr fcnnr x y) user :=
    fun x y isIoctl user => (cvorbGetFcn_congr (hfcn x y)).2
  have hnumber : ∀ x y, (hwFcn chnr fcnnr x y).hwNVector sram' =
      (hwFcn chnr fcnnr x y).hwNVector sram :=
    fun x y => (@cvorbGetFcn_congr o _ _ (fun _ => 0) _ true (hfcn x y)).1
  cases transport with
  | sysfs =>
    simp only [cvorbChGetFcn, loadBy, getAttrBin, cvorbSysfsGetFcn, hget, hnumber]
  | ioctl => simp only [cvorbChGetFcn, loadBy, cvorbIoctlGetFcn, hget]

/-! ## Stores -/

theorem pred_toNat : (nVector - 1).toNat =
    if nVector = 0 then 2 ^ 32 - 1 else nVector.toNat - 1 := by
  have hlt := nVector.isLt
  split
  · next hzero =>
    subst hzero
    rfl
  · next hne =>
    have hpos : nVector.toNat ≠ 0 := fun h => hne (BitVec.eq_of_toNat_eq h)
    simp only [BitVec.toNat_sub, BitVec.ofNat_eq_ofNat, BitVec.toNat_ofNat]
    omega

theorem size_of_table (hpos : nVector ≠ 0) (hle : nVector.toNat ≤ CVORB_MAX_VECTOR) :
    0 < nVector.toNat ∧ (nVector - 1).toNat = nVector.toNat - 1 ∧
      3 * nVector.toNat ≤ 2 * getHwFcnSize32 (nVector - 1).toNat ∧
      getHwFcnSize32 (nVector - 1).toNat ≤ 1025 ∧
      (getHwFcnSize32 (nVector - 1).toNat ≤ 1024 ↔ nVector ≠ 1) := by
  have hnat : nVector.toNat ≠ 0 := fun h => hpos (BitVec.eq_of_toNat_eq h)
  have hone : nVector ≠ 1 ↔ nVector.toNat ≠ 1 := by
    constructor
    · exact fun h h1 => h (BitVec.eq_of_toNat_eq h1)
    · rintro h rfl
      exact h rfl
  rw [pred_toNat, if_neg hpos, hone]
  by_cases h1 : nVector.toNat = 1
  · rw [h1]
    decide
  · simp only [CVORB_MAX_VECTOR] at hle
    rw [getHwFcnSize32_eq (by omega) (by simp only [CVORB_MAX_VECTOR]; omega), hwFcnSz32, sz16_eq]
    omega

theorem getHwFcnSize32_le (hle : nVector.toNat ≤ CVORB_MAX_VECTOR) :
    getHwFcnSize32 (nVector - 1).toNat ≤ 1025 := by
  by_cases hzero : nVector = 0
  · subst hzero
    decide
  · exact (size_of_table hzero hle).2.2.2.1

def headed (value : Nat → CvorbVectorFcn) (nVtr : Nat) : Halves :=
  put (fun _ => 0) 0 (BitVec.ofNat 16 nVtr) 0 (value 0).v

theorem cvorbChSetFcn_eq (hrange : withinRange chnr fcnnr)
    (hle : nVector.toNat ≤ CVORB_MAX_VECTOR) (hvtr : (nVector - 1).toNat = n)
    (hsz : getHwFcnSize32 n = sz32) :
    cvorbChSetFcn transport o sram chnr fcnnr value nVector = withFcn o sz32 (do
      touchMany .fcn 0 3
      touch .value 0
      match ← fillVectors value 1 n (headed value n) with
      | none => pure (-1, sram)
      | some user => storeBy transport o sram (hwFcn chnr fcnnr n sz32) user sz32) := by
  have hvalid : (!withinRange chnr fcnnr || decide (CVORB_MAX_VECTOR < nVector.toNat)) =
      false := by
    simp [hrange, hle]
  simp only [cvorbChSetFcn, hvalid, hvtr, hsz, Bool.false_eq_true, if_false]
  rfl

theorem legal_iff (hpos : nVector ≠ 0) (hle : nVector.toNat ≤ CVORB_MAX_VECTOR)
    (hvtr : (nVector - 1).toNat = n) :
    (fillVectors value 1 n hw).value.isSome ↔ Legal value nVector.toNat := by
  obtain ⟨h1, hpred, -⟩ := size_of_table hpos hle
  rw [fillVectors_isSome]
  constructor
  · intro h i hi hlt
    exact h i hi (by omega)
  · intro h i hi hlt
    exact h i hi (by omega)

theorem store_touches (hrange : withinRange chnr fcnnr)
    (hle : nVector.toNat ≤ CVORB_MAX_VECTOR) (hvtr : (nVector - 1).toNat = n)
    (hsz : getHwFcnSize32 n = sz32) :
    Touches (cvorbChSetFcn transport o sram chnr fcnnr value nVector) (.sram s) a ↔
      (fillVectors value 1 n (headed value n)).value.isSome ∧
      reaches transport o ∧ s = (chnr - 1) / 8 ∧
      1024 * (64 * ((chnr - 1) % 8) + (fcnnr - 1)) ≤ a ∧
      a < 1024 * (64 * ((chnr - 1) % 8) + (fcnnr - 1)) + storedWords transport o sz32 := by
  have hsmall : sz32 ≤ 1025 := by
    rw [← hsz, ← hvtr]
    exact getHwFcnSize32_le hle
  rw [cvorbChSetFcn_eq hrange hle hvtr hsz]
  have hstrip : ∀ x : Traced Buffer (Int × Sram), Touches (withFcn o sz32 x) (.sram s) a ↔
      Touches x (.sram s) a := by
    intro x
    rw [withFcn]
    split <;> simp
  rw [hstrip]
  simp only [touches_bind, touches_touchMany, touches_touch, reduceCtorEq, false_and, false_or,
    fillVectors_touches]
  split
  · next hnone => simp [hnone]
  · next user hsome =>
    rw [storeBy_touches (hwFcn_size hsmall), submodulenr_eq hrange, ramaddr_eq hrange]
    simp [hsome]

theorem store_keeps (hrange : withinRange chnr fcnnr)
    (hle : nVector.toNat ≤ CVORB_MAX_VECTOR) (hvtr : (nVector - 1).toNat = n)
    (hsz : getHwFcnSize32 n = sz32) :
    Keeps (callerHeap nVector) (cvorbChSetFcn transport o sram chnr fcnnr value nVector) ↔
      o.memory ∧ nVector ≠ 0 ∧ (Legal value nVector.toNat → reaches transport o = false ∨
        storedWords transport o sz32 = 0 ∨ (transport = .sysfs → o.stray.toNat ≤ 1024) ∧
          1024 * (64 * ((chnr - 1) % 8) + (fcnnr - 1)) + storedWords transport o sz32 ≤
            SRAM_SIZE) := by
  have hsmall : sz32 ≤ 1025 := by
    rw [← hsz, ← hvtr]
    exact getHwFcnSize32_le hle
  rw [cvorbChSetFcn_eq hrange hle hvtr hsz, withFcn]
  cases hmemory : o.memory with
  | false => simp [settles_touchMany.keeps_bind_iff, callerHeap]
  | true =>
    have hrest : ∀ r : Option Halves, Settles (match r with
        | none => pure (-1, sram)
        | some user => storeBy transport o sram (hwFcn chnr fcnnr n sz32) user sz32) := by
      intro r
      cases r with
      | none => exact settles_pure _
      | some user => exact storeBy_settles
    have hbody : Settles (do
        touchMany .fcn 0 3
        touch .value 0
        match ← fillVectors value 1 n (headed value n) with
        | none => pure (-1, sram)
        | some user => storeBy transport o sram (hwFcn chnr fcnnr n sz32) user sz32) :=
      settles_bind settles_touchMany (settles_bind settles_touch
        (settles_bind fillVectors_settles (hrest _)))
    simp only [if_true, true_and]
    rw [hbody.keeps_withBuffer_iff rfl, settles_touchMany.keeps_bind_iff,
      settles_touch.keeps_bind_iff, keeps_touch]
    by_cases hzero : nVector = 0
    · simp [hzero, callerHeap]
    · obtain ⟨hpos, hpred, hwords, -, -⟩ := size_of_table hzero hle
      rw [hvtr] at hpred hwords
      rw [hsz] at hwords
      have hheader : Keeps (Function.update (callerHeap nVector) .fcn (some (2 * sz32)))
          (touchMany Buffer.fcn 0 3) := by
        simp only [keeps_touchMany, Function.update_self, Option.getD_some]
        omega
      have hvalue : 0 < (Function.update (callerHeap nVector) .fcn (some (2 * sz32))
          .value).getD 0 := by
        simpa [callerHeap] using hpos
      have hfill : Keeps (Function.update (callerHeap nVector) .fcn (some (2 * sz32)))
          (fillVectors value 1 n (headed value n)) := by
        refine fillVectors_keeps Nat.one_pos ?_ ?_
        · simp only [ne_eq, reduceCtorEq, not_false_eq_true, Function.update_of_ne, callerHeap,
            Option.getD_some]
          omega
        · simp only [Function.update_self, Option.getD_some]
          omega
      have hlegal := @legal_iff value nVector (headed value n) n hzero hle hvtr
      rw [keeps_bind hfill, ← hlegal]
      simp only [hheader, hvalue, true_and, ne_eq, hzero, not_false_eq_true]
      cases hresult : (fillVectors value 1 n (headed value n)).value with
      | none => simp
      | some user =>
        have hstore := @storeBy_keeps transport o sram user (hwFcn chnr fcnnr n sz32) sz32
          (Function.update (callerHeap nVector) .fcn (some (2 * sz32)))
          (Function.update_self ..) rfl rfl (hwFcn_size hsmall)
        rw [submodulenr_eq hrange, ramaddr_eq hrange] at hstore
        simpa [callerHeap] using hstore

theorem store_unchanged (h : ¬ Touches (cvorbChSetFcn transport o sram chnr fcnnr value nVector)
    (.sram s) a) :
    (cvorbChSetFcn transport o sram chnr fcnnr value nVector).value.2 s a = sram s a := by
  by_cases hvalid : withinRange chnr fcnnr = true ∧ nVector.toNat ≤ CVORB_MAX_VECTOR
  · obtain ⟨hrange, hle⟩ := hvalid
    obtain ⟨n, hvtr⟩ : ∃ n, (nVector - 1).toNat = n := ⟨_, rfl⟩
    obtain ⟨sz32, hsz⟩ : ∃ sz32, getHwFcnSize32 n = sz32 := ⟨_, rfl⟩
    have hsmall : sz32 ≤ 1025 := by
      rw [← hsz, ← hvtr]
      exact getHwFcnSize32_le hle
    rw [store_touches hrange hle hvtr hsz] at h
    rw [cvorbChSetFcn_eq hrange hle hvtr hsz, withFcn_value]
    simp only [bind_value]
    cases hfill : (fillVectors value 1 n (headed value n)).value with
    | none => rfl
    | some user =>
      simp only [storeBy_value (hwFcn_size hsmall)]
      split
      · next hreaches =>
        simp only [laid, submodulenr_eq hrange, ramaddr_eq hrange]
        rw [if_neg]
        intro hin
        exact h ⟨by rw [hfill]; rfl, hreaches, hin⟩
      · rfl
  · have hinvalid : (!withinRange chnr fcnnr || decide (CVORB_MAX_VECTOR < nVector.toNat)) =
        true := by
      rw [not_and_or, not_le, Bool.not_eq_true] at hvalid
      simpa using hvalid
    simp only [cvorbChSetFcn, hinvalid, if_true, pure_value]

theorem storeOk_iff : StoreOk transport o chnr fcnnr value nVector ↔
    withinRange chnr fcnnr = false ∨ CVORB_MAX_VECTOR < nVector.toNat ∨
      (o.memory ∧ nVector ≠ 0 ∧ (Legal value nVector.toNat → reaches transport o = false ∨
        (transport = .sysfs → o.stray.toNat ≤ 1024) ∧ (transport = .ioctl → nVector ≠ 1))) := by
  cases transport with
  | sysfs =>
    have hreaches : reaches .sysfs o = false ↔
        o.opened = false ∨ o.fcnCopied = false ∨ o.busy = true := by
      simp only [reaches]
      cases o.opened <;> cases o.fcnCopied <;> cases o.busy <;> simp
    simp [StoreOk, hreaches, or_assoc]
  | ioctl =>
    have hreaches : reaches .ioctl o = false ↔ o.argCopied = false ∨
        o.kernelMemory = false ∨ o.fcnCopied = false ∨ o.busy = true := by
      simp only [reaches]
      cases o.argCopied <;> cases o.kernelMemory <;> cases o.fcnCopied <;> cases o.busy <;> simp
    simp [StoreOk, hreaches, or_assoc]

theorem others_of_slot (hslot : ∀ s a,
      Touches (cvorbChSetFcn transport o sram chnr fcnnr value nVector) (.sram s) a →
      InSlot chnr fcnnr s a) (hrange : withinRange chnr fcnnr) {t : Transport} {o' : Outcomes}
    {chnr' fcnnr' : Nat} {m : BitVec 32} (hrange' : withinRange chnr' fcnnr')
    (hne : (chnr', fcnnr') ≠ (chnr, fcnnr)) :
    cvorbChGetFcn t o' (cvorbChSetFcn transport o sram chnr fcnnr value nVector).value.2
        chnr' fcnnr' buff m =
      cvorbChGetFcn t o' sram chnr' fcnnr' buff m := by
  refine cvorbChGetFcn_congr hrange' fun s a hin => ?_
  refine store_unchanged fun htouch => ?_
  exact hne ((hslot s a htouch).unique hin hrange hrange')

theorem store_refused (h : withinRange chnr fcnnr = false ∨ CVORB_MAX_VECTOR < nVector.toNat) :
    cvorbChSetFcn transport o sram chnr fcnnr value nVector = pure (-1, sram) := by
  have hinvalid : (!withinRange chnr fcnnr || decide (CVORB_MAX_VECTOR < nVector.toNat)) =
      true := by
    simpa using h
  simp only [cvorbChSetFcn, hinvalid, if_true]

theorem store_iff : StoreSafe transport o sram chnr fcnnr value nVector ↔
    StoreOk transport o chnr fcnnr value nVector := by
  rw [storeOk_iff]
  by_cases hvalid : withinRange chnr fcnnr = false ∨ CVORB_MAX_VECTOR < nVector.toNat
  · constructor
    · intro _
      rcases hvalid with hno | hmany
      · exact .inl hno
      · exact .inr (.inl hmany)
    · intro _
      refine ⟨?_, ?_, ?_⟩ <;> simp [store_refused hvalid]
  · rw [not_or, Bool.not_eq_false, not_lt] at hvalid
    obtain ⟨hrange, hle⟩ := hvalid
    obtain ⟨n, hvtr⟩ : ∃ n, (nVector - 1).toNat = n := ⟨_, rfl⟩
    obtain ⟨sz32, hsz⟩ : ∃ sz32, getHwFcnSize32 n = sz32 := ⟨_, rfl⟩
    have hkeeps := @store_keeps transport o sram _ _ value _ _ _ hrange hle hvtr hsz
    have htouches := fun s a =>
      @store_touches transport o sram _ _ value _ n s a _ hrange hle hvtr hsz
    obtain ⟨hch, hf⟩ := withinRange_iff.mp hrange
    constructor
    · rintro ⟨hslot, -, hclean⟩
      obtain ⟨hmemory, hzero, hlegal⟩ := hkeeps.mp hclean
      refine .inr (.inr ⟨hmemory, hzero, fun htable => ?_⟩)
      obtain ⟨-, -, hwords, -, hlarge⟩ := size_of_table hzero hle
      rw [hvtr, hsz] at hwords hlarge
      cases hreaches : reaches transport o with
      | false => exact .inl rfl
      | true =>
        refine .inr ⟨?_, ?_⟩
        · rintro rfl
          rcases hlegal htable with hno | hnone | ⟨hpage, -⟩
          · rw [hreaches] at hno
            cases hno
          · exact (le_of_eq hnone).trans (Nat.zero_le _)
          · exact hpage rfl
        · -- a single vector is stored with the words of the maximum
          rintro rfl hone
          have hbehind : 1024 < sz32 := by
            by_contra hle'
            exact hlarge.mp (not_lt.mp hle') hone
          have hin := hslot ((chnr - 1) / 8)
            (1024 * (64 * ((chnr - 1) % 8) + (fcnnr - 1)) + 1024)
            ((htouches _ _).mpr ⟨(legal_iff hzero hle hvtr).mpr htable, hreaches, rfl,
              by omega, by simp only [storedWords]; omega⟩)
          exact absurd hin.2.2 (lt_irrefl _)
    · rintro (hno | hno | ⟨hmemory, hzero, hcond⟩)
      · rw [hrange] at hno
        cases hno
      · omega
      obtain ⟨-, -, hwords, -, hlarge⟩ := size_of_table hzero hle
      rw [hvtr, hsz] at hwords hlarge
      have hfits : Legal value nVector.toNat → reaches transport o = false ∨
          storedWords transport o sz32 ≤ 1024 := by
        intro htable
        rcases hcond htable with hno | ⟨hpage, hone⟩
        · exact .inl hno
        · refine .inr ?_
          cases transport with
          | sysfs => exact hpage rfl
          | ioctl => exact hlarge.mpr (hone rfl)
      have hslot : ∀ s a, Touches (cvorbChSetFcn transport o sram chnr fcnnr value nVector)
          (.sram s) a → InSlot chnr fcnnr s a := by
        intro s a htouch
        obtain ⟨hsome, hreaches, hs, hlo, hhi⟩ := (htouches s a).mp htouch
        rcases hfits ((legal_iff hzero hle hvtr).mp hsome) with hno | hwords'
        · rw [hreaches] at hno
          cases hno
        · exact ⟨hs, hlo, by omega⟩
      refine ⟨hslot, fun t o' chnr' fcnnr' buff m hrange' hne =>
        others_of_slot hslot hrange hrange' hne, hkeeps.mpr ⟨hmemory, hzero, fun htable => ?_⟩⟩
      rcases hfits htable with hno | hwords'
      · exact .inl hno
      · rcases hcond htable with hno | ⟨hpage, -⟩
        · exact .inl hno
        · refine .inr (.inr ⟨hpage, ?_⟩)
          simp only [SRAM_SIZE]
          omega

/-! ## Loads -/

theorem giveTable_settles {r : Option (BitVec 16 × Halves)} :
    Settles (giveTable buff nVector r) := by
  rcases r with - | ⟨n, user⟩
  · exact settles_pure _
  · rw [giveTable]
    split
    · exact settles_pure _
    · exact settles_bind settles_touch (settles_bind settles_touch
        (settles_bind convertVectors_settles (settles_pure _)))

theorem giveTable_keeps (hbad : badSlot n = false) (hfcn : heap .fcn = some 2050)
    (hbuff : heap .buff = some nVector.toNat) :
    Keeps heap (giveTable buff nVector (some (BitVec.ofNat 16 n, user))) ↔
      n ≠ nVector.toNat := by
  obtain ⟨hpos, hlt, hnat⟩ := badSlot_false hbad
  simp only [CVORB_MAX_VECTOR] at hlt
  rw [giveTable, hnat]
  split
  · simp only [keeps_pure, true_iff]
    omega
  · rw [settles_touch.keeps_bind_iff, settles_touch.keeps_bind_iff,
      convertVectors_settles.keeps_bind_iff, keeps_touch, keeps_touch,
      convertVectors_keeps Nat.one_pos (by rw [hfcn, Option.getD_some]; omega), hfcn, hbuff]
    simp only [Option.getD_some, keeps_pure, and_true]
    omega

theorem giveTable_touches (hbad : badSlot n = false)
    (h : Touches (giveTable buff nVector (some (BitVec.ofNat 16 n, user))) .buff j) :
    n ≤ nVector.toNat ∧ j ≤ n := by
  obtain ⟨hpos, hlt, hnat⟩ := badSlot_false hbad
  rw [giveTable, hnat] at h
  split at h
  · exact absurd h (touches_pure _ _)
  · refine ⟨by omega, ?_⟩
    simp only [touches_bind, touches_touch, reduceCtorEq, false_and, false_or, true_and,
      touches_pure, or_false] at h
    rcases h with rfl | hvectors
    · omega
    · have := (convertVectors_touches Nat.one_pos hvectors).2
      omega

theorem load_keeps (hfcn : o.memory = true → heap .fcn = some 2050) (hpage : heap .page = none)
    (hbuff : heap .buff = some nVector.toNat)
    (hsram : fcn.ramaddr + 1024 ≤ (heap (.sram fcn.submodulenr.toNat)).getD 0) :
    Keeps heap (loadBy transport o sram fcn >>= giveTable buff nVector) ↔
      (transport = .sysfs ∨ o.argCopied = false ∨ o.busy ∨
          badSlot (fcn.hwNVector sram) ∨ o.kernelMemory = false) ∧
        (delivers transport o → badSlot (fcn.hwNVector sram) = false →
          fcn.hwNVector sram ≠ nVector.toNat) := by
  rw [loadBy_settles.keeps_bind_iff, loadBy_keeps hfcn hpage hsram, loadBy_value]
  refine and_congr_right fun _ => ?_
  split
  · next hdelivers =>
    have hmemory : o.memory = true := by
      cases transport <;> simp only [delivers, Bool.and_eq_true] at hdelivers <;> tauto
    rw [giveTable_keeps hdelivers.2 (hfcn hmemory) hbuff]
    simp [hdelivers]
  · next hno =>
    simp only [giveTable, keeps_pure, true_iff]
    exact fun hdelivers hbad => absurd ⟨hdelivers, hbad⟩ hno

theorem loadOk_iff : LoadOk transport o sram chnr fcnnr nVector ↔
    withinRange chnr fcnnr = false ∨
      (transport = .sysfs ∨ o.argCopied = false ∨ o.busy ∨
          badSlot (resident sram chnr fcnnr) ∨ o.kernelMemory = false) ∧
        (delivers transport o → badSlot (resident sram chnr fcnnr) = false →
          resident sram chnr fcnnr ≠ nVector.toNat) := by
  cases transport with
  | sysfs =>
    simp only [LoadOk, delivers, true_or, true_and]
    cases o.opened <;> cases o.memory <;> cases o.fcnCopied <;> cases o.closed <;>
      cases o.busy <;> cases badSlot (resident sram chnr fcnnr) <;> simp
  | ioctl =>
    simp only [LoadOk, delivers, reduceCtorEq, false_or]
    cases o.argCopied <;> cases o.kernelMemory <;> cases o.memory <;> cases o.fcnCopied <;>
      cases o.argReturned <;> cases o.busy <;>
      cases badSlot (resident sram chnr fcnnr) <;> simp

theorem load_iff : LoadSafe transport o sram chnr fcnnr buff nVector ↔
    LoadOk transport o sram chnr fcnnr nVector := by
  rw [loadOk_iff]
  cases hrange : withinRange chnr fcnnr with
  | false =>
    have hrefused : cvorbChGetFcn transport o sram chnr fcnnr buff nVector =
        pure (.error (-1)) := by
      simp only [cvorbChGetFcn, hrange, Bool.not_false, if_true]
    refine ⟨fun _ => .inl rfl, fun _ => ⟨?_, ?_⟩⟩ <;> simp [hrefused]
  | true =>
    obtain ⟨fcn, hfcn⟩ : ∃ fcn, hwFcn chnr fcnnr (nVector - 1).toNat 1025 = fcn := ⟨_, rfl⟩
    have hcall : cvorbChGetFcn transport o sram chnr fcnnr buff nVector =
        withFcn o 1025 (loadBy transport o sram fcn >>= giveTable buff nVector) := by
      have hsize : getHwFcnSize32 0 = 1025 := by decide
      simp only [cvorbChGetFcn, hsize, hfcn, hrange, Bool.not_true, Bool.false_eq_true, if_false]
    have hresident : resident sram chnr fcnnr = fcn.hwNVector sram := by
      rw [← hfcn]
      rfl
    have hsram : fcn.ramaddr + 1024 ≤
        (callerHeap nVector (.sram fcn.submodulenr.toNat)).getD 0 := by
      obtain ⟨hch, hf⟩ := withinRange_iff.mp hrange
      rw [callerHeap, Option.getD_some, ← hfcn, ramaddr_eq hrange, SRAM_SIZE]
      omega
    have hkeeps : Keeps (callerHeap nVector)
          (cvorbChGetFcn transport o sram chnr fcnnr buff nVector) ↔
        (transport = .sysfs ∨ o.argCopied = false ∨ o.busy ∨
          badSlot (fcn.hwNVector sram) ∨ o.kernelMemory = false) ∧
        (delivers transport o → badSlot (fcn.hwNVector sram) = false →
          fcn.hwNVector sram ≠ nVector.toNat) := by
      rw [hcall, withFcn]
      cases hmemory : o.memory with
      | false => exact load_keeps (by simp [hmemory]) rfl rfl hsram
      | true =>
        rw [if_pos rfl,
          (settles_bind loadBy_settles giveTable_settles).keeps_withBuffer_iff rfl]
        refine load_keeps (fun _ => Function.update_self ..) rfl rfl ?_
        rw [Function.update_of_ne (by simp)]
        exact hsram
    rw [hresident, ← hkeeps]
    refine ⟨fun hsafe => .inr hsafe.clean, fun hclean => ?_⟩
    replace hclean := hclean.resolve_left (by simp)
    refine ⟨fun i htouch => ?_, hclean⟩
    have hbody : Touches (loadBy transport o sram fcn >>= giveTable buff nVector) .buff i := by
      rw [hcall, withFcn] at htouch
      split at htouch
      · exact touches_withBuffer.mp htouch
      · exact htouch
    rcases touches_bind.mp hbody with hload | hgive
    · exact absurd hload loadBy_touches
    · rw [loadBy_value] at hgive
      split at hgive
      · next hdelivers =>
        have hne := (hkeeps.mp hclean).2 hdelivers.1 hdelivers.2
        obtain ⟨hroom, hle⟩ := giveTable_touches hdelivers.2 hgive
        omega
      · exact absurd hgive (touches_pure _ _)

/-- When the calls are safe. -/
theorem stays_inside (transport : Transport) (o : Outcomes) (sram : Sram) (chnr fcnnr : Nat)
    (table : Nat → CvorbVectorFcn) (nVector : BitVec 32) :
    (StoreSafe transport o sram chnr fcnnr table nVector ↔
      StoreOk transport o chnr fcnnr table nVector) ∧
    (LoadSafe transport o sram chnr fcnnr table nVector ↔
      LoadOk transport o sram chnr fcnnr nVector) :=
  ⟨store_iff, load_iff⟩

/-- A table of one element stored by ioctl, and a load by ioctl of a function with one
vector. -/
theorem single_vector : ¬ StoreSafe .ioctl {} (fun _ _ => 0) 1 1 (fun _ => {}) 1 ∧
    ¬ LoadSafe .ioctl {} (fun _ _ => 1) 1 1 (fun _ => {}) 2 := by
  rw [store_iff, load_iff, storeOk_iff, loadOk_iff]
  constructor
  · rintro (hno | hno | ⟨-, -, hone⟩)
    · exact absurd hno (by decide)
    · exact absurd hno (by decide)
    · rcases hone fun i hi hlt => absurd hlt (Nat.not_lt.mpr hi) with hno | ⟨-, hne⟩
      · exact absurd hno (by decide)
      · exact hne rfl rfl
  · rintro (hno | ⟨hno | hno | hno | hno | hno, -⟩)
    · exact absurd hno (by decide)
    · cases hno
    · cases hno
    · cases hno
    · exact absurd hno (by decide)
    · cases hno

end Coht.Cvorb
