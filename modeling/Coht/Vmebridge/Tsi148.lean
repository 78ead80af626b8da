import Mathlib.Logic.Function.Basic
import Coht.Vmebridge.Vmebus

/-!
# The TSI148 chip: outbound windows (`tsi148.c`, `tsi148.h`)

Each outbound window is a block of eight registers. `tsi148CreateWindow`
encodes a descriptor into a block, `tsi148GetWindowAttr` decodes a block into
a descriptor and `tsi148RemoveWindow` wipes one. The registers are storage:
the chip keeps what the driver writes, and the driver only writes values whose
reserved bits are clear.

Every function takes and returns the descriptor it is handed a pointer to,
because all of them write into it, the failing calls included.
-/

namespace Coht.Vmebridge

/-- `struct tsi148_otrans` -/
structure Otrans where
  otsau : Word := 0
  otsal : Word := 0
  oteau : Word := 0
  oteal : Word := 0
  otofu : Word := 0
  otofl : Word := 0
  otbs : Word := 0
  otat : Word := 0
  deriving DecidableEq, Repr

/-! ## Register fields -/

def tsi148A16 : Word := 0
def tsi148A24 : Word := 1
def tsi148A32 : Word := 2
def tsi148A64 : Word := 4
def tsi148Crcsr : Word := 5
def tsi148User1 : Word := 8
def tsi148User2 : Word := 9
def tsi148User3 : Word := 10
def tsi148User4 : Word := 11

def tsi148User : Word := 0
def tsi148Super : Word := 1

def tsi148Data : Word := 0
def tsi148Prog : Word := 1

def tsi148Sct : Word := 0
def tsi148Blt : Word := 1
def tsi148Mblt : Word := 2
def tsi1482eVme : Word := 3
def tsi1482eSst : Word := 4
def tsi1482eSstb : Word := 5

def tsi148Dw16 : Word := 0
def tsi148Dw32 : Word := 1

def otsalM : Word := 0xffff0000
def otbsM : Word := 0xfffff
def otatEn : Word := 0x80000000
def otatMrpfd : Word := 0x40000
def otatPfsShift : Nat := 16
def otatPfsM : Word := 0x30000
def otat2eSstmShift : Nat := 11
def otat2eSstmM : Word := 0x3800
def otatTmShift : Nat := 8
def otatTmM : Word := 0x700
def otatDbwShift : Nat := 6
def otatDbwM : Word := 0xc0
def otatDbw16 : Word := 0x0
def otatDbw32 : Word := 0x40
def otatSup : Word := 0x20
def otatPgm : Word := 0x10
def otatAmodeShift : Nat := 0
def otatAmodeM : Word := 0xf

/-- The four attributes an address modifier splits into. -/
structure Attr where
  addrSize : Word
  transferMode : Word
  userAccess : Word
  dataAccess : Word
  deriving DecidableEq, Repr

/-- `am_to_attr()`: `none` is the `default` branch, which returns -1. -/
def amToAttr : VmeAddressModifier → Option Attr
  | .a16User => some ⟨tsi148A16, tsi148Sct, tsi148User, tsi148Data⟩
  | .a16Sup => some ⟨tsi148A16, tsi148Sct, tsi148Super, tsi148Data⟩
  | .a24UserMblt => some ⟨tsi148A24, tsi148Mblt, tsi148User, tsi148Data⟩
  | .a24UserDataSct => some ⟨tsi148A24, tsi148Sct, tsi148User, tsi148Data⟩
  | .a24UserPrgSct => some ⟨tsi148A24, tsi148Sct, tsi148User, tsi148Prog⟩
  | .a24UserBlt => some ⟨tsi148A24, tsi148Blt, tsi148User, tsi148Data⟩
  | .a24SupMblt => some ⟨tsi148A24, tsi148Mblt, tsi148Super, tsi148Data⟩
  | .a24SupDataSct => some ⟨tsi148A24, tsi148Sct, tsi148Super, tsi148Data⟩
  | .a24SupPrgSct => some ⟨tsi148A24, tsi148Sct, tsi148Super, tsi148Prog⟩
  | .a24SupBlt => some ⟨tsi148A24, tsi148Blt, tsi148Super, tsi148Data⟩
  | .a32UserMblt => some ⟨tsi148A32, tsi148Mblt, tsi148User, tsi148Data⟩
  | .a32UserDataSct => some ⟨tsi148A32, tsi148Sct, tsi148User, tsi148Data⟩
  | .a32UserPrgSct => some ⟨tsi148A32, tsi148Sct, tsi148User, tsi148Prog⟩
  | .a32UserBlt => some ⟨tsi148A32, tsi148Blt, tsi148User, tsi148Data⟩
  | .a32SupMblt => some ⟨tsi148A32, tsi148Mblt, tsi148Super, tsi148Data⟩
  | .a32SupDataSct => some ⟨tsi148A32, tsi148Sct, tsi148Super, tsi148Data⟩
  | .a32SupPrgSct => some ⟨tsi148A32, tsi148Sct, tsi148Super, tsi148Prog⟩
  | .a32SupBlt => some ⟨tsi148A32, tsi148Blt, tsi148Super, tsi148Data⟩
  | .a64Sct => some ⟨tsi148A64, tsi148Sct, tsi148Super, tsi148Data⟩
  | .a64Blt => some ⟨tsi148A64, tsi148Blt, tsi148Super, tsi148Data⟩
  | .a64Mblt => some ⟨tsi148A64, tsi148Mblt, tsi148Super, tsi148Data⟩
  | .crCsr => some ⟨tsi148Crcsr, tsi148Sct, tsi148User, tsi148Data⟩
  | _ => none

/-- The A24 and A32 branches of `attr_to_am()`, which only differ in the
modifiers they answer. -/
def attrToAmBlock (attr : Attr)
    (userData userPrg userBlt userMblt : VmeAddressModifier)
    (supData supPrg supBlt supMblt : VmeAddressModifier) :
    Option VmeAddressModifier :=
  if attr.userAccess = tsi148User then
    if attr.transferMode = tsi148Sct then
      if attr.dataAccess = tsi148Data then some userData else some userPrg
    else if attr.transferMode = tsi148Blt then some userBlt
    else if attr.transferMode = tsi148Mblt then some userMblt
    else none
  else if attr.userAccess = tsi148Super then
    if attr.transferMode = tsi148Sct then
      if attr.dataAccess = tsi148Data then some supData else some supPrg
    else if attr.transferMode = tsi148Blt then some supBlt
    else if attr.transferMode = tsi148Mblt then some supMblt
    else none
  else none

/-- `attr_to_am()`: `none` leaves the caller's `am` at -1. -/
def attrToAm (attr : Attr) : Option VmeAddressModifier :=
  if attr.addrSize = tsi148A16 then
    if attr.userAccess = tsi148User then some .a16User else some .a16Sup
  else if attr.addrSize = tsi148A24 then
    attrToAmBlock attr .a24UserDataSct .a24UserPrgSct .a24UserBlt .a24UserMblt
      .a24SupDataSct .a24SupPrgSct .a24SupBlt .a24SupMblt
  else if attr.addrSize = tsi148A32 then
    attrToAmBlock attr .a32UserDataSct .a32UserPrgSct .a32UserBlt .a32UserMblt
      .a32SupDataSct .a32SupPrgSct .a32SupBlt .a32SupMblt
  else if attr.addrSize = tsi148A64 then
    if attr.transferMode = tsi148Sct then some .a64Sct
    else if attr.transferMode = tsi148Blt then some .a64Blt
    else if attr.transferMode = tsi148Mblt then some .a64Mblt
    else none
  else if attr.addrSize = tsi148Crcsr then some .crCsr
  else none

/-- Every modifier the chip can be programmed with comes back from its
attributes. -/
theorem attrToAm_amToAttr {am : VmeAddressModifier} {attr : Attr}
    (h : amToAttr am = some attr) : attrToAm attr = some am := by
  cases am <;> simp only [amToAttr, Option.some.injEq, reduceCtorEq] at h <;>
    (subst h; decide)

/-- `sub64hi()`: the upper word of `hi0:lo0 - hi1:lo1`. -/
def sub64hi (lo0 hi0 lo1 hi1 : Word) : Word :=
  if lo0 < lo1 then hi0 - hi1 - 1 else hi0 - hi1

/-- `add64hi()`: the upper word of `hi0:lo0 + hi1:lo1`. -/
def add64hi (lo0 hi0 lo1 hi1 : Word) : Word :=
  if lo0 + lo1 < lo1 then hi0 + hi1 + 1 else hi0 + hi1

/-! The switches of `tsi148_setup_window_attributes()`, each with the bits it
ors into the attribute word. -/

def setup2eSst (v2esstMode : Vme2esstMode) : Except Errno Word :=
  match v2esstMode with
  | .sst160 | .sst267 | .sst320 =>
    .ok ((BitVec.ofNat 32 v2esstMode.value <<< otat2eSstmShift) &&&
      otat2eSstmM)
  | .other _ => .error .einval

def setupDataWidth (dataWidth : VmeDataWidth) : Except Errno Word :=
  match dataWidth with
  | .d16 => .ok ((tsi148Dw16 <<< otatDbwShift) &&& otatDbwM)
  | .d32 => .ok ((tsi148Dw32 <<< otatDbwShift) &&& otatDbwM)
  | _ => .error .einval

def setupAttr (am : VmeAddressModifier) : Except Errno Attr :=
  match amToAttr am with
  | some attr => .ok attr
  | none => .error .einval

def setupTransferMode (attr : Attr) : Except Errno Word :=
  if attr.transferMode ∈ [tsi148Sct, tsi148Blt, tsi148Mblt, tsi1482eVme,
      tsi1482eSst, tsi1482eSstb] then
    .ok ((attr.transferMode <<< otatTmShift) &&& otatTmM)
  else .error .einval

def setupUserAccess (attr : Attr) : Except Errno Word :=
  if attr.userAccess = tsi148Super then .ok otatSup
  else if attr.userAccess = tsi148User then .ok 0
  else .error .einval

def setupDataAccess (attr : Attr) : Except Errno Word :=
  if attr.dataAccess = tsi148Prog then .ok otatPgm
  else if attr.dataAccess = tsi148Data then .ok 0
  else .error .einval

def setupAddrSize (attr : Attr) : Except Errno Word :=
  if attr.addrSize ∈ [tsi148A16, tsi148A24, tsi148A32, tsi148A64,
      tsi148Crcsr, tsi148User1, tsi148User2, tsi148User3, tsi148User4] then
    .ok ((attr.addrSize <<< otatAmodeShift) &&& otatAmodeM)
  else .error .einval

/-- `tsi148_setup_window_attributes()` -/
def tsi148SetupWindowAttributes (v2esstMode : Vme2esstMode)
    (dataWidth : VmeDataWidth) (am : VmeAddressModifier) :
    Except Errno Word := do
  let sst ← setup2eSst v2esstMode
  let dbw ← setupDataWidth dataWidth
  let attr ← setupAttr am
  let tm ← setupTransferMode attr
  let sup ← setupUserAccess attr
  let pgm ← setupDataAccess attr
  let amode ← setupAddrSize attr
  return sst ||| dbw ||| tm ||| sup ||| pgm ||| amode

/-- The VME address after the chip-level alignment in
`tsi148_create_window()`. -/
def chipVmeAddrl (desc : VmeMapping) : Word :=
  if desc.vmeAddrl &&& 0xffff ≠ 0 then desc.vmeAddrl &&& ~~~0xffff
  else desc.vmeAddrl

/-- The size after the chip-level alignment in `tsi148_create_window()`; the
address that enters is the one before alignment. -/
def chipSizel (desc : VmeMapping) : Word :=
  if desc.sizel &&& 0xffff ≠ 0 then
    (desc.vmeAddrl + desc.sizel + 0x10000) &&& ~~~0xffff
  else desc.sizel

/-- The descriptor with both alignments applied. -/
def chipAlign (desc : VmeMapping) : VmeMapping :=
  { desc with vmeAddrl := chipVmeAddrl desc, sizel := chipSizel desc }

/-- The attribute word with the enable and prefetch bits added to what
`tsi148_setup_window_attributes()` returned. -/
def windowOtat (desc : VmeMapping) (attrs : Word) : Word :=
  let otat := attrs ||| otatEn
  if desc.readPrefetchEnabled ≠ 0 then
    (otat &&& ~~~otatMrpfd) |||
      ((desc.readPrefetchSize <<< otatPfsShift) &&& otatPfsM)
  else otat ||| otatMrpfd

/-- The registers `tsi148_create_window()` writes for an aligned descriptor
and its attribute word. -/
def windowRegs (desc : VmeMapping) (attrs : Word) : Otrans where
  otbs := desc.bcastSelect &&& otbsM
  otsal := desc.pciAddrl &&& otsalM
  otsau := desc.pciAddru
  oteal := (desc.pciAddrl + desc.sizel - 1) &&& ~~~0xffff
  oteau := add64hi desc.pciAddrl desc.pciAddru desc.sizel desc.sizeu
  otofl := desc.vmeAddrl - desc.pciAddrl
  otofu := sub64hi desc.vmeAddrl desc.vmeAddru desc.pciAddrl desc.pciAddru
  otat := windowOtat desc attrs

/-- `tsi148_create_window()`: return code, the caller's descriptor and the
register block afterwards. -/
def tsi148CreateWindow (desc : VmeMapping) (trans : Otrans) :
    Rc × VmeMapping × Otrans :=
  let desc := chipAlign desc
  if desc.pciAddrl &&& 0xffff ≠ 0 then (.error .einval, desc, trans)
  else
    match tsi148SetupWindowAttributes desc.v2esstMode desc.dataWidth desc.am with
    | .error rc => (.error rc, desc, trans)
    | .ok attrs =>
      (.ok (), { desc with windowEnabled := 1 }, windowRegs desc attrs)

/-- `tsi148_get_window_attr()` on the register block of the window. -/
def tsi148GetWindowAttr (desc : VmeMapping) (trans : Otrans) : VmeMapping :=
  let otat := trans.otat
  let addrSize := (otat &&& otatAmodeM) >>> otatAmodeShift
  let transferMode := (otat &&& otatTmM) >>> otatTmShift
  let userAccess := if otat &&& otatSup ≠ 0 then tsi148Super else tsi148User
  let dataAccess := if otat &&& otatPgm ≠ 0 then tsi148Prog else tsi148Data
  let dbw := (otat &&& otatDbwM) >>> otatDbwShift
  let sst := (otat &&& otat2eSstmM) >>> otat2eSstmShift
  { desc with
    windowEnabled := if otat &&& otatEn ≠ 0 then 1 else desc.windowEnabled
    readPrefetchEnabled :=
      if otat &&& otatMrpfd = 0 then 1 else desc.readPrefetchEnabled
    readPrefetchSize := (otat &&& otatPfsM) >>> otatPfsShift
    v2esstMode :=
      if sst = 0 then .sst160 else if sst = 1 then .sst267
      else if sst = 2 then .sst320 else .other sst.toNat
    -- The field is compared after the shift with constants before it, so the
    -- D32 case is never taken and the caller's value stays.
    dataWidth :=
      if dbw = otatDbw16 then .d16 else if dbw = otatDbw32 then .d32
      else desc.dataWidth
    bcastSelect := trans.otbs
    am := (attrToAm ⟨addrSize, transferMode, userAccess, dataAccess⟩).getD
      (.other 0xffffffff)
    pciAddrl := trans.otsal
    pciAddru := trans.otsau
    sizel := trans.oteal - trans.otsal
    sizeu := sub64hi trans.oteal trans.oteau trans.otsal trans.otsau
    vmeAddrl := trans.otofl + trans.otsal
    vmeAddru :=
      if addrSize = tsi148A64 then
        add64hi trans.otofl trans.otofu trans.otsal trans.otsau
      else 0 }

/-- `tsi148_remove_window()`: the block to wipe is the one the descriptor
names. -/
def tsi148RemoveWindow (desc : VmeMapping)
    (otrans : Fin numOutWindows → Otrans) :
    VmeMapping × (Fin numOutWindows → Otrans) :=
  ({ desc with windowEnabled := 0 },
    match windowIndex? desc.windowNum with
    | some n => Function.update otrans n {}
    | none => otrans)

theorem tsi148CreateWindow_ok {desc desc' : VmeMapping} {trans trans' : Otrans}
    (h : tsi148CreateWindow desc trans = (.ok (), desc', trans')) :
    desc.pciAddrl &&& 0xffff = 0 ∧
      ∃ attrs, tsi148SetupWindowAttributes desc.v2esstMode desc.dataWidth
          desc.am = .ok attrs ∧
        desc' = { chipAlign desc with windowEnabled := 1 } ∧
        trans' = windowRegs (chipAlign desc) attrs := by
  simp only [tsi148CreateWindow] at h
  split at h
  · simp at h
  · next hal =>
    split at h
    · simp at h
    · next attrs hattrs =>
      simp only [Prod.mk.injEq, true_and] at h
      obtain ⟨rfl, rfl⟩ := h
      exact ⟨Decidable.of_not_not hal, attrs, hattrs, rfl, rfl⟩

theorem tsi148CreateWindow_error {desc desc' : VmeMapping}
    {trans trans' : Otrans} {rc : Errno}
    (h : tsi148CreateWindow desc trans = (.error rc, desc', trans')) :
    desc' = chipAlign desc ∧ trans' = trans := by
  simp only [tsi148CreateWindow] at h
  split at h
  · simp only [Prod.mk.injEq] at h
    exact ⟨h.2.1.symm, h.2.2.symm⟩
  · split at h
    · simp only [Prod.mk.injEq] at h
      exact ⟨h.2.1.symm, h.2.2.symm⟩
    · simp at h

end Coht.Vmebridge
