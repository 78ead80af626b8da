import Coht.Vmebridge.WindowSpec

/-!
# Reading a window's attributes back

`tsi148_setup_window_attributes()` spreads a descriptor over the fields of one
register and `tsi148_get_window_attr()` collects them again. Each field is
written under its own mask, so reading one of them back sees nothing of the
others (`windowOtat_field`), and the attributes come back as they were.

The size does not: the end register holds the last granule of the window, and
the size read back is its distance from the start. It is one granule short on
every window that was ever accepted.
-/

namespace Coht.Vmebridge

theorem bind_ok {α β : Type} {x : Except Errno α} {f : α → Except Errno β}
    {r : β} (h : x >>= f = .ok r) : ∃ a, x = .ok a ∧ f a = .ok r := by
  cases x with
  | error e => cases h
  | ok a => exact ⟨a, rfl, h⟩

/-! ## The attribute word -/

def accessBits (attr : Attr) : Word :=
  (if attr.userAccess = tsi148Super then otatSup else 0) |||
    (if attr.dataAccess = tsi148Prog then otatPgm else 0)

/-- The attribute word of a 2eSST mode, a data width and the attributes of an
address modifier. -/
def attrsWord (sst dbw : Word) (attr : Attr) : Word :=
  ((sst <<< otat2eSstmShift) &&& otat2eSstmM) |||
    ((dbw <<< otatDbwShift) &&& otatDbwM) |||
    ((attr.transferMode <<< otatTmShift) &&& otatTmM) |||
    accessBits attr |||
    ((attr.addrSize <<< otatAmodeShift) &&& otatAmodeM)

def VmeDataWidth.dbw? : VmeDataWidth → Option Word
  | .d16 => some tsi148Dw16
  | .d32 => some tsi148Dw32
  | _ => none

theorem setup2eSst_ok {sst : Vme2esstMode} {bits : Word}
    (h : setup2eSst sst = .ok bits) :
    sst ∈ [.sst160, .sst267, .sst320] ∧
      bits = (BitVec.ofNat 32 sst.value <<< otat2eSstmShift) &&&
        otat2eSstmM := by
  cases sst <;> cases h <;> exact ⟨by simp, rfl⟩

theorem setupDataWidth_ok {dw : VmeDataWidth} {bits : Word}
    (h : setupDataWidth dw = .ok bits) :
    ∃ dbw, dw.dbw? = some dbw ∧ bits = (dbw <<< otatDbwShift) &&& otatDbwM := by
  cases dw <;> cases h <;> exact ⟨_, rfl, rfl⟩

theorem setupAttr_ok {am : VmeAddressModifier} {attr : Attr}
    (h : setupAttr am = .ok attr) : amToAttr am = some attr := by
  simp only [setupAttr] at h
  split at h
  · next ha =>
    cases h
    exact ha
  · cases h

theorem setupTransferMode_ok {attr : Attr} {bits : Word}
    (h : setupTransferMode attr = .ok bits) :
    bits = (attr.transferMode <<< otatTmShift) &&& otatTmM := by
  simp only [setupTransferMode] at h
  split at h
  · cases h
    rfl
  · cases h

theorem setupAccess_ok {attr : Attr} {sup pgm : Word}
    (hsup : setupUserAccess attr = .ok sup)
    (hpgm : setupDataAccess attr = .ok pgm) :
    sup ||| pgm = accessBits attr := by
  have hs : sup = if attr.userAccess = tsi148Super then otatSup else 0 := by
    simp only [setupUserAccess] at hsup
    split at hsup
    · next h =>
      cases hsup
      rw [if_pos h]
    · next h =>
      rw [if_neg h]
      split at hsup <;> cases hsup
      rfl
  have hp : pgm = if attr.dataAccess = tsi148Prog then otatPgm else 0 := by
    simp only [setupDataAccess] at hpgm
    split at hpgm
    · next h =>
      cases hpgm
      rw [if_pos h]
    · next h =>
      rw [if_neg h]
      split at hpgm <;> cases hpgm
      rfl
  rw [hs, hp]
  rfl

theorem setupAddrSize_ok {attr : Attr} {bits : Word}
    (h : setupAddrSize attr = .ok bits) :
    bits = (attr.addrSize <<< otatAmodeShift) &&& otatAmodeM := by
  simp only [setupAddrSize] at h
  split at h
  · cases h
    rfl
  · cases h

theorem setupWindowAttributes_ok {sst : Vme2esstMode} {dw : VmeDataWidth}
    {am : VmeAddressModifier} {attrs : Word}
    (h : tsi148SetupWindowAttributes sst dw am = .ok attrs) :
    ∃ dbw attr, sst ∈ [.sst160, .sst267, .sst320] ∧ dw.dbw? = some dbw ∧
      amToAttr am = some attr ∧
      attrs = attrsWord (BitVec.ofNat 32 sst.value) dbw attr := by
  obtain ⟨sstBits, hsst, h⟩ := bind_ok h
  obtain ⟨dbwBits, hdbw, h⟩ := bind_ok h
  obtain ⟨attr, hattr, h⟩ := bind_ok h
  obtain ⟨tmBits, htm, h⟩ := bind_ok h
  obtain ⟨supBits, hsup, h⟩ := bind_ok h
  obtain ⟨pgmBits, hpgm, h⟩ := bind_ok h
  obtain ⟨amodeBits, hamode, h⟩ := bind_ok h
  obtain ⟨hmode, rfl⟩ := setup2eSst_ok hsst
  obtain ⟨dbw, hdw, rfl⟩ := setupDataWidth_ok hdbw
  have htm := setupTransferMode_ok htm
  have haccess := setupAccess_ok hsup hpgm
  have hamode := setupAddrSize_ok hamode
  refine ⟨dbw, attr, hmode, hdw, setupAttr_ok hattr, ?_⟩
  cases h
  rw [htm, hamode, BitVec.or_assoc _ supBits pgmBits, haccess]
  rfl

/-! ## One field at a time -/

theorem windowOtat_and (desc : VmeMapping) (attrs mask : Word)
    (hen : otatEn &&& mask = 0) (hmr : otatMrpfd &&& mask = 0)
    (hpfs : otatPfsM &&& mask = 0) (hkeep : ~~~otatMrpfd &&& mask = mask) :
    windowOtat desc attrs &&& mask = attrs &&& mask := by
  unfold windowOtat
  split
  · rw [BitVec.and_or_distrib_right, BitVec.and_assoc, hkeep,
      BitVec.and_assoc, hpfs, BitVec.and_or_distrib_right, hen]
    simp
  · rw [BitVec.and_or_distrib_right, hmr, BitVec.and_or_distrib_right, hen]
    simp

theorem attrsWord_fields (sst dbw : Word) (attr : Attr) :
    attrsWord sst dbw attr &&& otatAmodeM =
        (attr.addrSize <<< otatAmodeShift) &&& otatAmodeM ∧
      attrsWord sst dbw attr &&& otatTmM =
        (attr.transferMode <<< otatTmShift) &&& otatTmM ∧
      attrsWord sst dbw attr &&& otatDbwM =
        (dbw <<< otatDbwShift) &&& otatDbwM ∧
      attrsWord sst dbw attr &&& otat2eSstmM =
        (sst <<< otat2eSstmShift) &&& otat2eSstmM ∧
      attrsWord sst dbw attr &&& otatSup =
        (if attr.userAccess = tsi148Super then otatSup else 0) ∧
      attrsWord sst dbw attr &&& otatPgm =
        if attr.dataAccess = tsi148Prog then otatPgm else 0 := by
  unfold attrsWord accessBits
  simp only [BitVec.and_or_distrib_right]
  split <;> split <;> simp [BitVec.and_assoc, otat2eSstmM, otatAmodeM,
    otatDbwM, otatTmM, otatSup, otatPgm]

theorem windowOtat_enabled (desc : VmeMapping) (attrs : Word) :
    windowOtat desc attrs &&& otatEn ≠ 0 := by
  have hbit : (windowOtat desc attrs)[31] = true := by
    unfold windowOtat
    split <;> simp [otatEn, otatMrpfd]
  intro h
  have hzero := congrArg (fun x => x[31]) h
  simp [hbit, otatEn] at hzero

/-! ## The attributes come back -/

theorem decodeAttr_windowOtat {am : VmeAddressModifier} {attr : Attr}
    (desc : VmeMapping) (sst dbw : Word) (ham : amToAttr am = some attr)
    {otat : Word} (hotat : otat = windowOtat desc (attrsWord sst dbw attr)) :
    (⟨(otat &&& otatAmodeM) >>> otatAmodeShift,
      (otat &&& otatTmM) >>> otatTmShift,
      if otat &&& otatSup ≠ 0 then tsi148Super else tsi148User,
      if otat &&& otatPgm ≠ 0 then tsi148Prog else tsi148Data⟩ : Attr) =
      attr := by
  obtain ⟨hamode, htm, -, -, hsup, hpgm⟩ := attrsWord_fields sst dbw attr
  subst hotat
  rw [windowOtat_and _ _ otatAmodeM (by decide) (by decide) (by decide)
      (by decide), hamode,
    windowOtat_and _ _ otatTmM (by decide) (by decide) (by decide)
      (by decide), htm,
    windowOtat_and _ _ otatSup (by decide) (by decide) (by decide)
      (by decide), hsup,
    windowOtat_and _ _ otatPgm (by decide) (by decide) (by decide)
      (by decide), hpgm]
  cases am <;> cases ham <;> decide

theorem decode2eSst {sst : Vme2esstMode}
    (h : sst ∈ [Vme2esstMode.sst160, .sst267, .sst320]) {field : Word}
    (hfield : field = ((BitVec.ofNat 32 sst.value <<< otat2eSstmShift) &&&
      otat2eSstmM) >>> otat2eSstmShift) :
    (if field = 0 then Vme2esstMode.sst160 else if field = 1 then .sst267
      else if field = 2 then .sst320 else .other field.toNat) = sst := by
  subst hfield
  cases sst with
  | sst160 | sst267 | sst320 => decide
  | other v => simp at h

theorem decodeDataWidth {dw : VmeDataWidth} {dbw field : Word}
    (h : dw.dbw? = some dbw)
    (hfield : field =
      ((dbw <<< otatDbwShift) &&& otatDbwM) >>> otatDbwShift) :
    (if field = otatDbw16 then VmeDataWidth.d16
      else if field = otatDbw32 then .d32 else dw) = dw := by
  subst hfield
  cases dw <;> cases h <;> decide

/-- What `tsi148_get_window_attr()` reads from the registers of an accepted
window, starting from the descriptor the driver kept: all but the size and the
prefetch and broadcast settings, which the chip stores under a mask. -/
theorem tsi148GetWindowAttr_created {desc desc' : VmeMapping}
    {trans trans' : Otrans}
    (h : tsi148CreateWindow desc trans = (.ok (), desc', trans')) :
    (tsi148GetWindowAttr desc' trans').am = desc'.am ∧
      (tsi148GetWindowAttr desc' trans').dataWidth = desc'.dataWidth ∧
      (tsi148GetWindowAttr desc' trans').v2esstMode = desc'.v2esstMode ∧
      (tsi148GetWindowAttr desc' trans').pciAddrl = desc'.pciAddrl ∧
      (tsi148GetWindowAttr desc' trans').pciAddru = desc'.pciAddru ∧
      (tsi148GetWindowAttr desc' trans').vmeAddrl = desc'.vmeAddrl ∧
      (tsi148GetWindowAttr desc' trans').windowEnabled = 1 := by
  obtain ⟨hpci, attrs, hattrs, rfl, rfl⟩ := tsi148CreateWindow_ok h
  obtain ⟨dbw, attr, hsst, hdbw, ham, rfl⟩ := setupWindowAttributes_ok hattrs
  obtain ⟨-, -, hdw, hmode, -, -⟩ :=
    attrsWord_fields (BitVec.ofNat 32 desc.v2esstMode.value) dbw attr
  have hstart := and_otsalM hpci
  refine ⟨?_, ?_, ?_, hstart, rfl, ?_, ?_⟩
  · have hattr := decodeAttr_windowOtat (chipAlign desc)
      (BitVec.ofNat 32 desc.v2esstMode.value) dbw ham rfl
    calc (attrToAm _).getD (.other 0xffffffff)
        = (attrToAm attr).getD (.other 0xffffffff) :=
          congrArg (fun a => (attrToAm a).getD (.other 0xffffffff)) hattr
      _ = desc.am := by
          rw [attrToAm_amToAttr ham]
          rfl
  · show (if _ = otatDbw16 then VmeDataWidth.d16 else _) = desc.dataWidth
    apply decodeDataWidth hdbw
    rw [← hdw]
    have hfield := windowOtat_and (chipAlign desc)
      (attrsWord (BitVec.ofNat 32 desc.v2esstMode.value) dbw attr) otatDbwM
      (by decide) (by decide) (by decide) (by decide)
    exact congrArg (fun x : Word => x >>> otatDbwShift) hfield
  · apply decode2eSst hsst
    rw [← hmode]
    have hfield := windowOtat_and (chipAlign desc)
      (attrsWord (BitVec.ofNat 32 desc.v2esstMode.value) dbw attr) otat2eSstmM
      (by decide) (by decide) (by decide) (by decide)
    exact congrArg (fun x : Word => x >>> otat2eSstmShift) hfield
  · show (chipVmeAddrl desc - desc.pciAddrl) + (desc.pciAddrl &&& otsalM) =
      chipVmeAddrl desc
    rw [hstart, BitVec.sub_add_cancel]
  · exact if_pos (windowOtat_enabled _ _)

/-! ## The size does not -/

theorem lastGranule_eq {x : Word} (hx : x.toNat % 0x10000 = 0) :
    (x - 1) &&& ~~~0xffff = x - 0x10000 := by
  have hlt := x.isLt
  have hsub : (x - 0x10000).toNat = (x.toNat + (2 ^ 32 - 0x10000)) % 2 ^ 32 := by
    simp [BitVec.toNat_sub, Nat.add_comm]
  rw [← BitVec.toNat_inj, toNat_lastGranule hx, hsub]
  split <;> omega

theorem tsi148GetWindowAttr_sizel {desc desc' : VmeMapping}
    {trans trans' : Otrans}
    (h : tsi148CreateWindow desc trans = (.ok (), desc', trans'))
    (kept : VmeMapping) :
    (tsi148GetWindowAttr kept trans').sizel = desc'.sizel - 0x10000 := by
  obtain ⟨hpci, attrs, -, rfl, rfl⟩ := tsi148CreateWindow_ok h
  have hal : (desc.pciAddrl + chipSizel desc).toNat % 0x10000 = 0 := by
    have h0 := and_ffff_eq_zero.mp hpci
    have h1 := chipSizel_aligned desc
    rw [BitVec.toNat_add]
    omega
  show ((desc.pciAddrl + chipSizel desc - 1) &&& ~~~0xffff) -
    (desc.pciAddrl &&& otsalM) = chipSizel desc - 0x10000
  rw [lastGranule_eq hal, and_otsalM hpci]
  grind

/-- What a client that has just created a window expects to read back: the
descriptor it was left with. -/
structure RoundTrips (desc got : VmeMapping) : Prop where
  am : got.am = desc.am
  dataWidth : got.dataWidth = desc.dataWidth
  v2esstMode : got.v2esstMode = desc.v2esstMode
  readPrefetchEnabled : got.readPrefetchEnabled = desc.readPrefetchEnabled
  readPrefetchSize : desc.readPrefetchEnabled ≠ 0 →
    got.readPrefetchSize = desc.readPrefetchSize
  bcastSelect : got.bcastSelect = desc.bcastSelect
  pciAddru : got.pciAddru = desc.pciAddru
  pciAddrl : got.pciAddrl = desc.pciAddrl
  vmeAddru : got.vmeAddru = desc.vmeAddru
  vmeAddrl : got.vmeAddrl = desc.vmeAddrl
  sizeu : got.sizeu = desc.sizeu
  sizel : got.sizel = desc.sizel
  windowEnabled : got.windowEnabled = 1

theorem vmeGetWindowAttr_created {env : Env} {desc desc' query got : VmeMapping}
    {b b' : Bridge}
    (hcreate : vmeCreateWindow env desc b = (.ok (), desc', b'))
    (hquery : query.windowNum = desc.windowNum)
    (hget : vmeGetWindowAttr query b' = (.ok (), got)) :
    ∃ d trans trans', tsi148CreateWindow d trans = (.ok (), desc', trans') ∧
      got = tsi148GetWindowAttr desc' trans' := by
  obtain ⟨n, hn, _, hlocked⟩ := vmeCreateWindow_ok_iff.mp hcreate
  obtain ⟨hact, start, attrs, hacc, rfl, rfl⟩ := createLocked_ok_iff.mp hlocked
  simp only [vmeGetWindowAttr, hquery, hn, opened_window, if_true,
    Prod.mk.injEq, true_and] at hget
  refine ⟨_, b.otrans n, _, openedDesc_created hacc _, hget.symm.trans ?_⟩
  simp [Bridge.opened]

/-- No accepted window reads back as it was left. -/
theorem not_roundTrips {env : Env} {desc desc' query got : VmeMapping}
    {b b' : Bridge}
    (hcreate : vmeCreateWindow env desc b = (.ok (), desc', b'))
    (hquery : query.windowNum = desc.windowNum)
    (hget : vmeGetWindowAttr query b' = (.ok (), got)) :
    ¬ RoundTrips desc' got := by
  obtain ⟨d, trans, trans', hchip, rfl⟩ :=
    vmeGetWindowAttr_created hcreate hquery hget
  intro h
  have hsize := h.sizel
  rw [tsi148GetWindowAttr_sizel hchip] at hsize
  have hzero : (0x10000 : Word) = 0 := by grind
  exact absurd hzero (by decide)

/-- Window 0 with 128K of A32 space. -/
def plainWindow : VmeMapping :=
  { am := .a32UserDataSct, dataWidth := .d32, sizel := 0x20000 }

theorem not_roundTrips_plainWindow :
    ¬ RoundTrips (vmeCreateWindow roomyEnv plainWindow {}).2.1
      (vmeGetWindowAttr plainWindow
        (vmeCreateWindow roomyEnv plainWindow {}).2.2).2 :=
  not_roundTrips
    (show vmeCreateWindow roomyEnv plainWindow {} = (.ok (), _, _) from rfl)
    (show plainWindow.windowNum = _ from rfl)
    (show vmeGetWindowAttr plainWindow
      (vmeCreateWindow roomyEnv plainWindow {}).2.2 = (.ok (), _) from rfl)

/-- It reads back with 64K. -/
theorem exists_not_roundTrips :
    ¬ ∀ (env : Env) (desc desc' query got : VmeMapping) (b b' : Bridge),
      vmeCreateWindow env desc b = (.ok (), desc', b') →
      query.windowNum = desc.windowNum →
      vmeGetWindowAttr query b' = (.ok (), got) → RoundTrips desc' got := by
  intro hall
  have h := hall roomyEnv plainWindow _ plainWindow _ {} _ rfl rfl rfl
  exact absurd h.sizel (by decide)

end Coht.Vmebridge
