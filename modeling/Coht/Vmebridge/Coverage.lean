import Coht.Vmebridge.WindowTable
import Coht.Lib.Word
import Coht.Vmebridge.WindowSpec

/-!
# When a mapping lies inside its window

`__vme_find_mapping()` answers with a window and with addresses computed from
the window's bases. The addresses are right as soon as the requested interval
lies inside the window's, and each of the two paths can miss that in its own
way. The search compares the two ends in 32 bits, so an end that wraps looks
small. The creation path drops the low 16 bits of the address without growing
the size by what the address lost, rounds the size up in 32 bits, and maps an
A16 or A24 space whole without looking at where the request ends.

`Fits` collects what a request has to satisfy on the path it takes, and
`covered_iff_fits` says that this is exactly when the answer is inside.
-/

namespace Coht.Vmebridge

open Coht.Lib

/-- The first VME address of a descriptor. -/
def VmeMapping.first (desc : VmeMapping) : Nat := desc.vmeAddrl.toNat

/-- The first VME address after a descriptor, in unbounded integers. -/
def VmeMapping.beyond (desc : VmeMapping) : Nat :=
  desc.vmeAddrl.toNat + desc.sizel.toNat

/-- What a window owes the request `m` it answered with `m'`. -/
structure CoveredBy (w : Window) (m m' : VmeMapping) : Prop where
  active : w.active = true
  am : w.desc.am = m.am
  dataWidth : w.desc.dataWidth = m.dataWidth
  first : w.desc.first ≤ m.first
  beyond : m.beyond ≤ w.desc.beyond
  kernelVa : m'.kernelVa = w.desc.kernelVa + (m.first - w.desc.first)
  pciAddrl : m'.pciAddrl.toNat =
    w.desc.pciAddrl.toNat + (m.first - w.desc.first)

/-- The window whose number was returned covers the request. -/
def Covered (b : Bridge) (m m' : VmeMapping) : Prop :=
  ∃ n : Fin numOutWindows, m'.windowNum = n.val ∧ CoveredBy (b.window n) m m'

/-- The window the creation path makes for `m` is large enough: a whole space
holds the request, a window of a multiple of 64K has the address of the
request, and a rounded one has room for the bits the address lost. -/
def RoundingFits (m : VmeMapping) : Prop :=
  if wholeSpace m.am = 0 then
    if m.sizel.toNat % 0x10000 = 0 then m.first % 0x10000 = 0
    else
      m.first % 0x10000 + m.sizel.toNat % 0x10000 ≤ 0x10000 ∧
        m.sizel.toNat < 2 ^ 32 - 0x10000
  else m.beyond ≤ (wholeSpace m.am).toNat

/-- What a request has to satisfy to be covered: on a window it shares, not to
be the only one of the two whose end wraps. -/
def Fits (b : Bridge) (m : VmeMapping) : Prop :=
  match findWindow b m with
  | some n => m.beyond < 2 ^ 32 ∨ 2 ^ 32 ≤ (b.window n).desc.beyond
  | none => RoundingFits m

section Paths

variable {env : Env} {n : Fin numOutWindows} {b b' : Bridge} {w : Window}
variable {m m' : VmeMapping} {file : Option File}

/-! ## The common tail -/

theorem placeOn_offset (h : w.desc.first ≤ m.first) :
    (m.vmeAddrl - w.desc.vmeAddrl).toNat = m.first - w.desc.first :=
  BitVec.toNat_sub_of_le h

theorem placeOn_pciAddrl (hw : w.Sound n) (hact : w.active = true)
    (hsize : m.sizel ≠ 0) (hfirst : w.desc.first ≤ m.first)
    (hbeyond : m.beyond ≤ w.desc.beyond) :
    (placeOn w n m).pciAddrl.toNat =
      w.desc.pciAddrl.toNat + (m.first - w.desc.first) := by
  have hplaced := hw.placed hact
  have hpos : 0 < m.sizel.toNat := by
    rcases Nat.eq_zero_or_pos m.sizel.toNat with hz | hpos
    · exact absurd (BitVec.eq_of_toNat_eq hz) hsize
    · exact hpos
  show (w.desc.pciAddrl + (m.vmeAddrl - w.desc.vmeAddrl)).toNat = _
  rw [BitVec.toNat_add, placeOn_offset hfirst]
  apply Nat.mod_eq_of_lt
  simp only [VmeMapping.first, VmeMapping.beyond] at *
  omega

theorem attach_covered_iff (hw : (b.window n).Sound n)
    (hact : (b.window n).active = true)
    (ham : (b.window n).desc.am = m.am)
    (hdw : (b.window n).desc.dataWidth = m.dataWidth)
    (hsize : m.sizel ≠ 0)
    (h : attach env file n m b = (.ok (), m', b')) :
    Covered b' m m' ↔ (b.window n).desc.first ≤ m.first ∧
      m.beyond ≤ (b.window n).desc.beyond := by
  obtain ⟨_, rfl, rfl⟩ := attach_ok_iff.mp h
  have hdesc : ((b.withMapping n (placeOn (b.window n) n m) file).window n).desc =
      (b.window n).desc := by
    rw [withMapping_window, if_pos rfl]
  have hactive :
      ((b.withMapping n (placeOn (b.window n) n m) file).window n).active =
        true := by
    rw [withMapping_window, if_pos rfl]
    exact hact
  constructor
  · rintro ⟨k, hk, hcov⟩
    have hk : n = k := Fin.ext (Int.ofNat_inj.mp hk)
    subst hk
    have hfirst := hcov.first
    have hbeyond := hcov.beyond
    rw [hdesc] at hfirst hbeyond
    exact ⟨hfirst, hbeyond⟩
  · rintro ⟨hfirst, hbeyond⟩
    refine ⟨n, rfl, ?_⟩
    constructor
    · exact hactive
    · rw [hdesc]
      exact ham
    · rw [hdesc]
      exact hdw
    · rw [hdesc]
      exact hfirst
    · rw [hdesc]
      exact hbeyond
    · rw [hdesc, ← placeOn_offset hfirst]
      rfl
    · rw [hdesc]
      exact placeOn_pciAddrl hw hact hsize hfirst hbeyond

/-! ## The search -/

theorem Window.matches_spec (h : w.matches m = true) :
    w.active = true ∧ w.desc.am = m.am ∧ w.desc.dataWidth = m.dataWidth ∧
      w.desc.first ≤ m.first ∧
      m.beyond % 2 ^ 32 ≤ w.desc.beyond % 2 ^ 32 := by
  simp only [Window.matches, Bool.and_eq_true, Bool.not_eq_true',
    Bool.or_eq_false_iff, decide_eq_false_iff_not, beq_iff_eq, gt_iff_lt,
    BitVec.lt_def, BitVec.toNat_add] at h
  obtain ⟨⟨⟨⟨⟨⟨⟨hact, _⟩, _⟩, _⟩, ham⟩, hdw⟩, hfirst, hend⟩, _⟩ := h
  exact ⟨hact, ham, hdw, Nat.le_of_not_lt hfirst, Nat.le_of_not_lt hend⟩

theorem beyond_le_iff {w m : VmeMapping}
    (hend : m.beyond % 2 ^ 32 ≤ w.beyond % 2 ^ 32) :
    m.beyond ≤ w.beyond ↔ m.beyond < 2 ^ 32 ∨ 2 ^ 32 ≤ w.beyond := by
  have h0 := m.vmeAddrl.isLt
  have h1 := m.sizel.isLt
  have h2 := w.vmeAddrl.isLt
  have h3 := w.sizel.isLt
  simp only [VmeMapping.beyond] at *
  omega

/-! ## The creation path -/

theorem wholeSpace_cases (am : VmeAddressModifier) :
    wholeSpace am = 0 ∨ wholeSpace am = 0x10000 ∨ wholeSpace am = 0x1000000 := by
  cases am <;> simp [wholeSpace]

theorem windowFor_own (n : Fin numOutWindows)
    (h : wholeSpace m.am = 0) :
    windowFor m n = { m with windowNum := n.val } := by
  simp only [windowFor, vmeOptimizeWindowSize, h, if_true]

theorem windowFor_whole (n : Fin numOutWindows)
    (h : wholeSpace m.am ≠ 0) :
    (windowFor m n).vmeAddrl = 0 ∧ (windowFor m n).sizel = wholeSpace m.am := by
  simp only [windowFor, vmeOptimizeWindowSize, h, if_false, and_self]

theorem windowFor_kind (m : VmeMapping) (n : Fin numOutWindows) :
    (windowFor m n).am = m.am ∧ (windowFor m n).dataWidth = m.dataWidth := by
  simp only [windowFor, vmeOptimizeWindowSize]
  split <;> exact ⟨rfl, rfl⟩

theorem createAlign_covers_iff (n : Fin numOutWindows) (hsize : m.sizel ≠ 0) :
    ((createAlign (windowFor m n)).first ≤ m.first ∧
      m.beyond ≤ (createAlign (windowFor m n)).beyond) ↔ RoundingFits m := by
  have hvme := createAlign_vmeAddrl (windowFor m n)
  have hsz := createAlign_sizel (windowFor m n)
  have hpos : m.sizel.toNat ≠ 0 := fun hz => hsize (BitVec.eq_of_toNat_eq hz)
  have hs := m.sizel.isLt
  unfold RoundingFits
  simp only [VmeMapping.first, VmeMapping.beyond]
  by_cases hw : wholeSpace m.am = 0
  · rw [windowFor_own n hw] at hvme hsz ⊢
    rw [if_pos hw]
    simp only at hvme hsz
    rw [hvme, hsz]
    split <;> omega
  · obtain ⟨haddr, hspace⟩ := windowFor_whole n hw
    rw [if_neg hw]
    have hzero : (0 : Word).toNat = 0 := rfl
    rw [haddr, hzero] at hvme
    rw [hspace] at hsz
    have hwhole : (createAlign (windowFor m n)).sizel.toNat =
        (wholeSpace m.am).toNat := by
      rw [hsz]
      rcases wholeSpace_cases m.am with h | h | h
      · exact absurd h hw
      · rw [h]
        rfl
      · rw [h]
        rfl
    rw [hvme, hwhole]
    omega

end Paths

/-! ## Coverage -/

/-- After any sequence of calls, an accepted request is covered by the window
it is told exactly when it fits. -/
theorem covered_iff_fits {b b' : Bridge} (hb : windowTable.Reachable b)
    (env : Env) (m : VmeMapping) (force : Bool) (file : Option File)
    {m' : VmeMapping} (hsize : m.sizel ≠ 0)
    (h : vmeFindMapping env m force file b = (.ok (), m', b')) :
    Covered b' m m' ↔ Fits b m := by
  have hsound := windowTable_sound hb
  have hcase := findCase env m force file b
  generalize hr : vmeFindMapping env m force file b = r at hcase
  rw [h] at hr
  cases hcase with
  | outOfRange | notForced | full | refused => simp at hr
  | @found n sanity search =>
    obtain ⟨hact, ham, hdw, hfirst, hend⟩ :=
      Window.matches_spec (findWindow_matches search)
    rw [attach_covered_iff (hsound n) hact ham hdw hsize hr.symm,
      beyond_le_iff hend]
    simp only [Fits, search]
    exact and_iff_right hfirst
  | @created n desc b₁ sanity search hforce unused create =>
    have hsound₁ : b₁.Sound :=
      (congrArg (fun r => r.2.2.Sound) create).mp
        (vmeCreateWindow_sound hsound)
    obtain ⟨_, _, start, attrs, _, _, rfl⟩ := windowFor_created create
    have hdesc : ((b.opened env n (createAlign (windowFor m n)) start
        attrs).window n).desc =
        openedDesc env (createAlign (windowFor m n)) start := by
      rw [opened_window, if_pos rfl]
    have hactive : ((b.opened env n (createAlign (windowFor m n)) start
        attrs).window n).active = true := by
      rw [opened_window, if_pos rfl]
    obtain ⟨ham, hdw⟩ := windowFor_kind m n
    rw [attach_covered_iff (hsound₁ n) hactive
      (by rw [hdesc, openedDesc_createAlign, createAlign_eq]; exact ham)
      (by rw [hdesc, openedDesc_createAlign, createAlign_eq]; exact hdw)
      hsize hr.symm, hdesc, openedDesc_createAlign]
    simp only [Fits, search]
    exact createAlign_covers_iff n hsize

/-- 64K of A32 space that start in the middle of a granule. -/
def straddling : VmeMapping :=
  { am := .a32UserDataSct, dataWidth := .d32, vmeAddrl := 0x18000,
    sizel := 0x10000 }

theorem covered_iff_fits_straddling :
    Covered (vmeFindMapping roomyEnv straddling true none {}).2.2
        straddling
        (vmeFindMapping roomyEnv straddling true none {}).2.1 ↔
      Fits {} straddling :=
  covered_iff_fits windowTable_fresh roomyEnv straddling true none
    (by decide) rfl

/-- The window for it ends where its second half starts. -/
theorem not_covered_straddling :
    windowTable.Reachable {} ∧ straddling.sizel ≠ 0 ∧
      straddling.vmeAddru = 0 ∧ straddling.sizeu = 0 ∧
      (vmeFindMapping roomyEnv straddling true none {}).1 = .ok () ∧
      ¬ Covered (vmeFindMapping roomyEnv straddling true none {}).2.2
        straddling
        (vmeFindMapping roomyEnv straddling true none {}).2.1 := by
  refine ⟨windowTable_fresh, by decide, rfl, rfl, rfl, ?_⟩
  rintro ⟨k, hk, hcov⟩
  have hk : (⟨0, by decide⟩ : Fin numOutWindows) = k :=
    Fin.ext (Int.ofNat_inj.mp hk)
  subst hk
  exact absurd hcov.beyond (by decide)

/-!
## The rounding of a new window (`vme_window.c`)

The chip wants the address and the size of a window in steps of 64K. The window that
is created should be the hull of what is asked for. The address is rounded down before
the size is grown by the difference, and so the size is rounded up as if the address
had not moved: the end of what is asked for is outside when it is in the next step. A
size in the last step of the 32 bits is rounded up to 0.
-/

/-- The step of the address and the size of a window. -/
def windowStep : Nat := 0x10000

/-- The size that holds the range of the descriptor has 32 bits, and the window that is
left is the hull of the range. -/
structure Rounds (desc desc' : VmeMapping) : Prop where
  hull : Hull windowStep desc.vmeAddrl.toNat desc.sizel.toNat desc'.vmeAddrl.toNat
    desc'.sizel.toNat
  fits : roundUp windowStep (desc.vmeAddrl.toNat % windowStep + desc.sizel.toNat) < 2 ^ 32

/-- The last byte is in the step that the size alone rounds to, and that is not past
the 32 bits. -/
def InStep64K (desc : VmeMapping) : Prop :=
  desc.vmeAddrl.toNat % 0x10000 + (desc.sizel.toNat - 1) % 0x10000 < 0x10000 ∧
    desc.sizel.toNat ≤ 0xffff0000

instance (desc : VmeMapping) : Decidable (InStep64K desc) :=
  inferInstanceAs (Decidable (_ ∧ _))

section

variable {env : Env} {desc desc' : VmeMapping} {b b' : Bridge}

theorem vmeCreateWindow_rounded
    (h : vmeCreateWindow env desc b = (.ok (), desc', b')) :
    desc.sizel ≠ 0 ∧ desc'.vmeAddrl = (createAlign desc).vmeAddrl ∧
      desc'.sizel = (createAlign desc).sizel := by
  obtain ⟨n, -, hsize, hlocked⟩ := vmeCreateWindow_ok_iff.mp h
  obtain ⟨-, start, attrs, -, rfl, -⟩ := createLocked_ok_iff.mp hlocked
  rw [openedDesc_createAlign]
  exact ⟨hsize, rfl, rfl⟩

/-- A window that is created is the hull of what was asked for if and only if the
rounding of the size alone is enough. -/
theorem createWindow_rounds_iff (h : vmeCreateWindow env desc b = (.ok (), desc', b')) :
    Rounds desc desc' ↔ InStep64K desc := by
  obtain ⟨hne, hvme, hsize⟩ := vmeCreateWindow_rounded h
  have haddr := createAlign_vmeAddrl desc
  have hsizel := createAlign_sizel desc
  rw [← hvme] at haddr
  rw [← hsize] at hsizel
  have hpos : 0 < desc.sizel.toNat := by
    refine Nat.pos_of_ne_zero fun hzero => hne ?_
    exact BitVec.eq_of_toNat_eq hzero
  have hlt := desc.sizel.isLt
  have hup : roundUp windowStep (desc.vmeAddrl.toNat % windowStep + desc.sizel.toNat) =
      (desc.vmeAddrl.toNat % 0x10000 + desc.sizel.toNat + 0xffff) / 0x10000 * 0x10000 := by
    unfold roundUp padTo windowStep
    omega
  have hrounds : Rounds desc desc' ↔
      desc'.sizel.toNat = roundUp windowStep
        (desc.vmeAddrl.toNat % windowStep + desc.sizel.toNat) := by
    constructor
    · exact fun hround => ((hull_iff (by decide)).mp hround.hull).2
    · intro heq
      refine ⟨(hull_iff (by decide)).mpr ⟨haddr, heq⟩, ?_⟩
      rw [← heq]
      exact desc'.sizel.isLt
  rw [hrounds, hup]
  unfold InStep64K
  split at hsizel <;> omega

end

/-- 32K of A32 space in the second half of a step. -/
def secondHalf : VmeMapping :=
  { am := .a32UserDataSct, dataWidth := .d32, vmeAddrl := 0x18000, sizel := 0x8000 }

theorem createWindow_rounds_iff_half : ∃ desc' b', vmeCreateWindow roomyEnv secondHalf {} =
    (.ok (), desc', b') ∧ (Rounds secondHalf desc' ↔ InStep64K secondHalf) :=
  ⟨_, _, rfl, @createWindow_rounds_iff roomyEnv secondHalf _ {} _ rfl⟩

/-- 64K from the middle of a step on get a window that ends in their middle. -/
theorem createWindow_cuts : ¬ ∀ (env : Env) (desc desc' : VmeMapping) (b b' : Bridge),
    desc.vmeAddru = 0 → desc.sizeu = 0 → vmeCreateWindow env desc b = (.ok (), desc', b') →
      Rounds desc desc' := by
  intro h
  have hround := h roomyEnv { secondHalf with sizel := 0x10000 } _ {} _ rfl rfl rfl
  exact absurd hround.hull.high (by decide)

end Coht.Vmebridge
