import Coht.Lib.Word
import Coht.Vmebridge.Tsi148

/-!
# What the outbound decoder makes of a window

The TSI148 claims a PCI address when its 64K granule lies between the start
and the end register, both included, and forwards it with the offset register
added. `Decodes` says that a register block does this for exactly the window a
descriptor describes.

The start and the offset are right for every accepted descriptor: `join_offset`
is the hand-made 64-bit subtraction and `tsi148CreateWindow_start` the granule
the window starts at. The end is inclusive in its low word only: the low word
is taken from `pci + size - 1` and the high word from `pci + size`, so the two
disagree exactly when the low word of `pci + size` is 0. `decodes_iff` is the
resulting characterisation.
-/

namespace Coht.Vmebridge

open Coht.Lib

/-- The address whose low 16 bits are cleared. -/
def granule (a : Nat) : Nat := a - a % 0x10000

/-- The decoder's test on a PCI address. -/
def Otrans.claims (trans : Otrans) (a : Nat) : Prop :=
  join trans.otsau trans.otsal ≤ granule a ∧
    granule a ≤ join trans.oteau trans.oteal

/-- The VME address a claimed PCI address is forwarded to. -/
def Otrans.translate (trans : Otrans) (a : Nat) : Nat :=
  (a + join trans.otofu trans.otofl) % 2 ^ 64

def VmeMapping.pci (desc : VmeMapping) : Nat := join desc.pciAddru desc.pciAddrl

def VmeMapping.size (desc : VmeMapping) : Nat := join desc.sizeu desc.sizel

def VmeMapping.vme (desc : VmeMapping) : Nat := join desc.vmeAddru desc.vmeAddrl

/-- The registers describe exactly the window of the descriptor. -/
def Decodes (desc : VmeMapping) (trans : Otrans) : Prop :=
  (∀ a < 2 ^ 64, trans.claims a ↔ desc.pci ≤ a ∧ a < desc.pci + desc.size) ∧
    ∀ a < 2 ^ 64, trans.claims a →
      trans.translate a = (desc.vme + (a - desc.pci)) % 2 ^ 64

/-! ## Alignment -/

theorem toNat_and_ffff (x : Word) : (x &&& 0xffff).toNat = x.toNat % 0x10000 :=
  toNat_and_low (k := 16) (by decide)

theorem toNat_and_not_ffff (x : Word) :
    (x &&& ~~~0xffff).toNat = x.toNat - x.toNat % 0x10000 :=
  toNat_and_high (k := 16) (by decide)

theorem and_ffff_eq_zero {x : Word} : x &&& 0xffff = 0 ↔ x.toNat % 0x10000 = 0 := by
  rw [← BitVec.toNat_inj, toNat_and_ffff]
  exact Iff.rfl

theorem mod_sub_granule (n : Nat) :
    n % 2 ^ 32 - n % 2 ^ 32 % 0x10000 = n / 0x10000 * 0x10000 % 2 ^ 32 := by
  omega

theorem chipSizel_toNat (desc : VmeMapping) :
    (chipSizel desc).toNat =
      if desc.sizel.toNat % 0x10000 = 0 then desc.sizel.toNat
      else (desc.vmeAddrl.toNat + desc.sizel.toNat + 0x10000) / 0x10000
        * 0x10000 % 2 ^ 32 := by
  unfold chipSizel
  by_cases hz : desc.sizel &&& 0xffff = 0
  · rw [if_neg (not_not_intro hz), if_pos (and_ffff_eq_zero.mp hz)]
  · have hsum : (desc.vmeAddrl + desc.sizel + 0x10000).toNat =
        (desc.vmeAddrl.toNat + desc.sizel.toNat + 0x10000) % 2 ^ 32 := by
      rw [BitVec.toNat_add, BitVec.toNat_add]
      exact Nat.mod_add_mod _ _ _
    rw [if_pos hz, if_neg (fun h => hz (and_ffff_eq_zero.mpr h)),
      toNat_and_not_ffff, hsum, mod_sub_granule]

theorem chipSizel_aligned (desc : VmeMapping) :
    (chipSizel desc).toNat % 0x10000 = 0 := by
  rw [chipSizel_toNat]
  split
  · assumption
  · omega

/-! ## The hand-made 64-bit arithmetic -/

theorem join_sub64hi (lo0 hi0 lo1 hi1 : Word) :
    (join (sub64hi lo0 hi0 lo1 hi1) (lo0 - lo1) + join hi1 lo1) % 2 ^ 64 =
      join hi0 lo0 := by
  have h0 := hi0.isLt
  have h1 := lo0.isLt
  have h2 := hi1.isLt
  have h3 := lo1.isLt
  unfold sub64hi join
  split
  · next hlt =>
    rw [BitVec.lt_def] at hlt
    simp only [BitVec.toNat_sub, BitVec.reduceToNat]
    omega
  · next hge =>
    rw [BitVec.lt_def] at hge
    simp only [BitVec.toNat_sub]
    omega

theorem join_add64hi (lo0 hi0 lo1 hi1 : Word) :
    join (add64hi lo0 hi0 lo1 hi1) (lo0 + lo1) =
      (join hi0 lo0 + join hi1 lo1) % 2 ^ 64 := by
  have h0 := hi0.isLt
  have h1 := lo0.isLt
  have h2 := hi1.isLt
  have h3 := lo1.isLt
  unfold add64hi join
  split
  · next hlt =>
    rw [BitVec.lt_def] at hlt
    simp only [BitVec.toNat_add, BitVec.reduceToNat] at hlt ⊢
    omega
  · next hge =>
    rw [BitVec.lt_def] at hge
    simp only [BitVec.toNat_add] at hge ⊢
    omega

/-! ## The three registers -/

theorem and_otsalM {x : Word} (hx : x &&& 0xffff = 0) : x &&& otsalM = x := by
  have hM : otsalM = ~~~(0xffff : Word) := by decide
  have hz := and_ffff_eq_zero.mp hx
  rw [← BitVec.toNat_inj, hM, toNat_and_not_ffff, hz]
  omega

theorem windowRegs_start {desc : VmeMapping} {attrs : Word}
    (hpci : desc.pciAddrl &&& 0xffff = 0) :
    join (windowRegs desc attrs).otsau (windowRegs desc attrs).otsal =
      desc.pci := by
  show join desc.pciAddru (desc.pciAddrl &&& otsalM) = _
  rw [and_otsalM hpci]
  rfl

theorem windowRegs_translate {desc : VmeMapping} {attrs : Word} {a : Nat}
    (ha : desc.pci ≤ a) :
    (windowRegs desc attrs).translate a =
      (desc.vme + (a - desc.pci)) % 2 ^ 64 := by
  have hsub := join_sub64hi desc.vmeAddrl desc.vmeAddru desc.pciAddrl
    desc.pciAddru
  show (a + join (sub64hi desc.vmeAddrl desc.vmeAddru desc.pciAddrl
    desc.pciAddru) (desc.vmeAddrl - desc.pciAddrl)) % 2 ^ 64 = _
  unfold VmeMapping.vme VmeMapping.pci at *
  omega

theorem toNat_lastGranule {x : Word} (hx : x.toNat % 0x10000 = 0) :
    ((x - 1) &&& ~~~0xffff).toNat =
      if x.toNat = 0 then 0xffff0000 else x.toNat - 0x10000 := by
  have hlt := x.isLt
  rw [toNat_and_not_ffff]
  simp only [BitVec.toNat_sub, BitVec.reduceToNat]
  split <;> omega

theorem windowRegs_end {desc : VmeMapping} {attrs : Word}
    (hpci : desc.pciAddrl.toNat % 0x10000 = 0)
    (hsize : desc.sizel.toNat % 0x10000 = 0) :
    join (windowRegs desc attrs).oteau (windowRegs desc attrs).oteal =
      if (desc.pci + desc.size) % 2 ^ 32 = 0 then
        (desc.pci + desc.size) % 2 ^ 64 + 0xffff0000
      else (desc.pci + desc.size) % 2 ^ 64 - 0x10000 := by
  have hadd : join (windowRegs desc attrs).oteau
      (desc.pciAddrl + desc.sizel) = (desc.pci + desc.size) % 2 ^ 64 :=
    join_add64hi desc.pciAddrl desc.pciAddru desc.sizel desc.sizeu
  have hal : (desc.pciAddrl + desc.sizel).toNat % 0x10000 = 0 := by
    rw [BitVec.toNat_add]
    omega
  have hlow : (windowRegs desc attrs).oteal.toNat = _ := toNat_lastGranule hal
  have hlt := (desc.pciAddrl + desc.sizel).isLt
  unfold join at hadd ⊢
  rw [hlow]
  generalize desc.pci + desc.size = e at *
  generalize desc.pciAddrl + desc.sizel = s at *
  split <;> split <;> omega

/-! ## The characterisation -/

/-- One past the last PCI address of the window, from the descriptor as it
comes in: a low size word that is not a multiple of 64K is first replaced by
the rounding `tsi148_create_window()` applies to it. -/
def windowLimit (desc : VmeMapping) : Nat :=
  desc.pci + desc.sizeu.toNat * 2 ^ 32 +
    if desc.sizel.toNat % 0x10000 = 0 then desc.sizel.toNat
    else (desc.vmeAddrl.toNat + desc.sizel.toNat + 0x10000) / 0x10000
      * 0x10000 % 2 ^ 32

theorem chipAlign_limit (desc : VmeMapping) :
    (chipAlign desc).pci + (chipAlign desc).size = windowLimit desc := by
  rw [windowLimit, ← chipSizel_toNat, Nat.add_assoc]
  rfl

theorem chipAlign_aligned {desc : VmeMapping}
    (hpci : desc.pciAddrl &&& 0xffff = 0) :
    (chipAlign desc).pci % 0x10000 = 0 ∧
      (chipAlign desc).size % 0x10000 = 0 := by
  have hp := and_ffff_eq_zero.mp hpci
  have hs := chipSizel_aligned desc
  show (desc.pciAddru.toNat * 2 ^ 32 + desc.pciAddrl.toNat) % 0x10000 = 0 ∧
    (desc.sizeu.toNat * 2 ^ 32 + (chipSizel desc).toNat) % 0x10000 = 0
  omega

theorem windowLimit_lt {desc : VmeMapping}
    (hfit : desc.pci + desc.size ≤ 2 ^ 64) :
    windowLimit desc < 2 ^ 64 + 2 ^ 32 := by
  have hs := (chipSizel desc).isLt
  rw [windowLimit, ← chipSizel_toNat]
  unfold VmeMapping.size join at hfit
  omega

theorem tsi148CreateWindow_claims {desc desc' : VmeMapping}
    {trans trans' : Otrans}
    (h : tsi148CreateWindow desc trans = (.ok (), desc', trans')) (a : Nat) :
    trans'.claims a ↔ desc'.pci ≤ granule a ∧
      granule a ≤ if windowLimit desc % 2 ^ 32 = 0 then
          windowLimit desc % 2 ^ 64 + 0xffff0000
        else windowLimit desc % 2 ^ 64 - 0x10000 := by
  obtain ⟨hpci, attrs, -, rfl, rfl⟩ := tsi148CreateWindow_ok h
  have hal : (chipAlign desc).pciAddrl.toNat % 0x10000 = 0 :=
    and_ffff_eq_zero.mp hpci
  unfold Otrans.claims
  rw [@windowRegs_start (chipAlign desc) attrs hpci]
  rw [windowRegs_end hal (chipSizel_aligned desc), chipAlign_limit]
  rfl

theorem tsi148CreateWindow_translate {desc desc' : VmeMapping}
    {trans trans' : Otrans}
    (h : tsi148CreateWindow desc trans = (.ok (), desc', trans')) {a : Nat}
    (ha : desc'.pci ≤ a) :
    trans'.translate a = (desc'.vme + (a - desc'.pci)) % 2 ^ 64 := by
  obtain ⟨-, attrs, -, rfl, rfl⟩ := tsi148CreateWindow_ok h
  exact windowRegs_translate ha

/-- An accepted window is decoded as described exactly when it ends below
`2 ^ 64` and not on a multiple of 4 GB. -/
theorem decodes_iff {desc desc' : VmeMapping} (trans : Otrans)
    {trans' : Otrans} (hfit : desc.pci + desc.size ≤ 2 ^ 64)
    (h : tsi148CreateWindow desc trans = (.ok (), desc', trans')) :
    Decodes desc' trans' ↔
      windowLimit desc < 2 ^ 64 ∧ windowLimit desc % 2 ^ 32 ≠ 0 := by
  have hclaims := tsi148CreateWindow_claims h
  have htrans := fun {a : Nat} => tsi148CreateWindow_translate h (a := a)
  obtain ⟨hpci, -, -, rfl, -⟩ := tsi148CreateWindow_ok h
  have hlim := chipAlign_limit desc
  obtain ⟨hal, hsal⟩ := chipAlign_aligned hpci
  have hover := windowLimit_lt hfit
  have hpcilt : (chipAlign desc).pci < 2 ^ 64 := join_lt _ _
  have hsizelt : (chipAlign desc).size < 2 ^ 64 := join_lt _ _
  have hstep : Decodes { chipAlign desc with windowEnabled := 1 } trans' ↔
      Decodes (chipAlign desc) trans' := Iff.rfl
  change ∀ a, _ ↔ (chipAlign desc).pci ≤ _ ∧ _ at hclaims
  change ∀ {a}, (chipAlign desc).pci ≤ a → _ at htrans
  rw [hstep]
  constructor
  · rintro ⟨hin, -⟩
    by_cases hlow : windowLimit desc % 2 ^ 32 = 0
    · simp only [if_pos hlow] at hclaims
      exfalso
      rcases Nat.lt_or_ge (windowLimit desc) (2 ^ 64) with hlt | hge
      · -- The address just past the window is claimed too.
        have hc := (hin (windowLimit desc) hlt).mp
          ((hclaims _).mpr (by unfold granule; omega))
        omega
      · -- The window ends at 2 ^ 64 and its last address is not claimed.
        have hc := (hclaims _).mp
          ((hin (2 ^ 64 - 1) (by omega)).mpr (by omega))
        unfold granule at hc
        omega
    · refine ⟨?_, hlow⟩
      simp only [if_neg hlow] at hclaims
      rcases Nat.lt_or_ge (windowLimit desc) (2 ^ 64) with hlt | hge
      · exact hlt
      · -- The window passes 2 ^ 64 and its first address is not claimed.
        have hc := (hclaims _).mp
          ((hin (chipAlign desc).pci hpcilt).mpr (by omega))
        unfold granule at hc
        omega
  · rintro ⟨hlt, hlow⟩
    simp only [if_neg hlow] at hclaims
    have hiff : ∀ a < 2 ^ 64, trans'.claims a ↔ (chipAlign desc).pci ≤ a ∧
        a < (chipAlign desc).pci + (chipAlign desc).size := by
      intro a ha
      rw [hclaims]
      unfold granule
      omega
    exact ⟨hiff, fun a ha hc => htrans ((hiff a ha).mp hc).1⟩

def windowBelow4g : VmeMapping where
  dataWidth := .d32
  am := .a32UserDataSct
  pciAddrl := 0xffff0000
  sizel := 0x10000

/-- A 128K window from the start of the PCI space. -/
def windowAtZero : VmeMapping where
  dataWidth := .d32
  am := .a32UserDataSct
  sizel := 0x20000

theorem decodes_iff_at_zero :
    Decodes { windowAtZero with windowEnabled := 1 }
        (windowRegs windowAtZero 0x42) ↔
      windowLimit windowAtZero < 2 ^ 64 ∧
        windowLimit windowAtZero % 2 ^ 32 ≠ 0 :=
  decodes_iff {} (by decide) rfl

/-- The window on the last granule below 4 GB claims the granule above it as
well, and everything up to 8 GB. -/
theorem not_decodes_below_4g :
    ¬ ∀ (desc desc' : VmeMapping) (trans trans' : Otrans), 0 < desc.size →
      desc.pci + desc.size ≤ 2 ^ 64 →
      tsi148CreateWindow desc trans = (.ok (), desc', trans') →
      Decodes desc' trans' := by
  intro hall
  have hdec := hall windowBelow4g _ {} _ (by decide) (by decide) rfl
  have hin := (hdec.1 0x100000000 (by decide)).mp ⟨by decide, by decide⟩
  exact absurd hin.2 (by decide)

end Coht.Vmebridge
