import Coht.Lib.Word
import Coht.Vmebridge.WindowSpec

/-!
# Mapping into user space (`libvmebus.c`, `vme_window.c`)

`mmap()` works with whole pages. The library asks for the pages of a mapping, and the
driver looks for a mapping of the file that has these pages before it maps them. Each
side rounds by a formula of its own, and for a mapping inside its window they agree.

The driver compares in 32 bits and maps with the full page offset. A region that is
cut to the pages of a mapping by this is accepted, and what is mapped is 4 GB or more
further up. `int` has 32 bits and `long`, `off_t` and `size_t` have 64.
-/

namespace Coht.Vmebridge

open Coht.Lib

/-! ## The library -/

section Library

/-- `sysconf(_SC_PAGESIZE) - 1` for pages of `2 ^ k` bytes. -/
def pagemask (k : Nat) : BitVec 64 := BitVec.ofNat 64 (2 ^ k - 1)

/-- `__page_addr()` -/
def pageAddr (k : Nat) (address : BitVec 64) : BitVec 64 := address &&& ~~~pagemask k

/-- `__page_aligned_size()`: the sum has 32 bits. -/
def pageAlignedSize (k : Nat) (desc : VmeMapping) : BitVec 64 :=
  (desc.pciAddrl + desc.sizel).setWidth 64 - pageAddr k (desc.pciAddrl.setWidth 64)

/-- `__page_aligned_size_incr()` -/
def pageAlignedSizeIncr (k : Nat) (desc : VmeMapping) : BitVec 64 :=
  desc.pciAddrl.setWidth 64 - pageAddr k (desc.pciAddrl.setWidth 64)

/-- `struct vm_area_struct` -/
structure Vma where
  vmStart : Nat
  vmEnd : Nat
  vmPgoff : Nat
  deriving DecidableEq, Repr

/-- The area of `size` bytes from `offset` on that the kernel makes at `addr`: whole
pages, with the offset counted in pages. -/
def Vma.of (k addr : Nat) (size offset : BitVec 64) : Vma where
  vmStart := addr
  vmEnd := addr + roundUp (2 ^ k) size.toNat
  vmPgoff := offset.toNat / 2 ^ k

/-- `vme_mmap()` of the library, when `mmap()` puts the area at `addr`. -/
def libMmap (k addr : Nat) (desc : VmeMapping) : Vma × VmeMapping :=
  let page := pageAddr k (desc.pciAddrl.setWidth 64)
  let size := pageAlignedSize k desc
  (Vma.of k addr size page,
    { desc with userVa := addr + (pageAlignedSizeIncr k desc).toNat })

/-- `vme_munmap()` of the library: the start and the length for `munmap()`. -/
def libMunmap (k : Nat) (desc : VmeMapping) : Nat × BitVec 64 :=
  (desc.userVa - (pageAlignedSizeIncr k desc).toNat, pageAlignedSize k desc)

end Library

/-! ## The driver -/

section Driver

/-- `PAGE_MASK`, as far as an `unsigned int` goes. -/
def pageMask (k : Nat) : Word := ~~~BitVec.ofNat 32 (2 ^ k - 1)

/-- `PAGE_SIZE` -/
def pageSize (k : Nat) : Word := BitVec.ofNat 32 (2 ^ k)

/-- The end of the pages of a mapping in `vme_check_mmap_region()`. -/
def alignedEnd (k : Nat) (last : Word) : Word :=
  if last &&& ~~~pageMask k ≠ 0 then (last &&& pageMask k) + pageSize k else last

/-- `vme_check_mmap_region()` -/
def vmeCheckMmapRegion (k : Nat) (window mapping : VmeMapping) (addr size : Word) : Bool :=
  if addr < window.pciAddrl ∨ addr + size > window.pciAddrl + window.sizel then false
  else
    let alignedStart := mapping.pciAddrl &&& pageMask k
    alignedStart == addr && alignedEnd k (mapping.pciAddrl + mapping.sizel) == addr + size

/-- `addr` of `vme_window_mmap()`, an `unsigned int`. -/
def Vma.addr (k : Nat) (vma : Vma) : Word := BitVec.ofNat 32 (vma.vmPgoff <<< k)

/-- `size` of `vme_window_mmap()`, an `unsigned int`. -/
def Vma.size (vma : Vma) : Word := BitVec.ofNat 32 (vma.vmEnd - vma.vmStart)

/-- The test that `vme_window_mmap()` makes on one mapping of a window. -/
def Mapping.mmaps (k : Nat) (window : VmeMapping) (file : File) (vma : Vma)
    (m : Mapping) : Bool :=
  m.file == some file && vmeCheckMmapRegion k window m.desc (vma.addr k) vma.size

/-- The loop of `vme_window_mmap()` over the windows that are left. `interrupted` are
the windows on whose mutex a signal ends the wait, `remap` is the answer of
`vme_remap_pfn_range()`. -/
def mmapFrom (k : Nat) (interrupted : Fin numOutWindows → Bool) (remap : Vma → Rc)
    (file : File) (vma : Vma) (b : Bridge) : List (Fin numOutWindows) → Rc
  | [] => .error .einval
  | i :: rest =>
    let window := b.window i
    if interrupted i then .error .erestartsys
    else if window.active = false ∨ window.mappings = [] then
      mmapFrom k interrupted remap file vma b rest
    else if window.mappings.any (Mapping.mmaps k window.desc file vma) then remap vma
    else mmapFrom k interrupted remap file vma b rest

/-- `vme_window_mmap()` -/
def vmeWindowMmap (k : Nat) (interrupted : Fin numOutWindows → Bool) (remap : Vma → Rc)
    (file : File) (vma : Vma) (b : Bridge) : Rc :=
  mmapFrom k interrupted remap file vma b (List.finRange numOutWindows)

end Driver

/-! ## What the two should agree on -/

/-- The range of a mapping lies in the range of its window. -/
structure Within (window mapping : VmeMapping) : Prop where
  size_pos : 0 < mapping.sizel.toNat
  low : window.pciAddrl.toNat ≤ mapping.pciAddrl.toNat
  high : mapping.pciAddrl.toNat + mapping.sizel.toNat ≤
    window.pciAddrl.toNat + window.sizel.toNat

/-- A window lies in steps of 64K below 4 GB. -/
structure Placed (window : VmeMapping) : Prop where
  start_dvd : 0x10000 ∣ window.pciAddrl.toNat
  size_dvd : 0x10000 ∣ window.sizel.toNat
  fits : window.pciAddrl.toNat + window.sizel.toNat < 2 ^ 32

/-- Every active window is placed so, and its mappings lie inside it. -/
structure AllPlaced (b : Bridge) : Prop where
  placed : ∀ n, (b.window n).active = true → Placed (b.window n).desc
  within : ∀ n, (b.window n).active = true → ∀ m ∈ (b.window n).mappings,
    Within (b.window n).desc m.desc

/-- What the library gets for a mapping when the kernel puts the area at `addr`. -/
structure Mmapped (k : Nat) (window desc : VmeMapping) (addr : Nat) : Prop where
  accepted : vmeCheckMmapRegion k window desc ((libMmap k addr desc).1.addr k)
    (libMmap k addr desc).1.size = true
  offset : (libMmap k addr desc).2.userVa % 2 ^ k = desc.pciAddrl.toNat % 2 ^ k
  low : (libMmap k addr desc).1.vmStart ≤ (libMmap k addr desc).2.userVa
  high : (libMmap k addr desc).2.userVa + desc.sizel.toNat ≤ (libMmap k addr desc).1.vmEnd
  unmapped : libMunmap k (libMmap k addr desc).2 = (addr, pageAlignedSize k desc)

/-- The bytes that are mapped lie in a window and are the pages of a mapping of the
file. -/
def Vma.Owned (k : Nat) (b : Bridge) (file : File) (vma : Vma) : Prop :=
  ∃ n, (b.window n).active = true ∧ ∃ m ∈ (b.window n).mappings, m.file = some file ∧
    (b.window n).desc.pciAddrl.toNat ≤ vma.vmPgoff * 2 ^ k ∧
    vma.vmPgoff * 2 ^ k + (vma.vmEnd - vma.vmStart) ≤
      (b.window n).desc.pciAddrl.toNat + (b.window n).desc.sizel.toNat ∧
    Hull (2 ^ k) m.desc.pciAddrl.toNat m.desc.sizel.toNat (vma.vmPgoff * 2 ^ k)
      (vma.vmEnd - vma.vmStart)

/-! ## Page arithmetic -/

section Pages

variable {k : Nat}

theorem pow_le_window (hk : k ≤ 16) : 2 ^ k ≤ 0x10000 := by
  have hle : 2 ^ k ≤ 2 ^ 16 := Nat.pow_le_pow_right (by decide) hk
  exact hle

theorem pow_dvd_window (hk : k ≤ 16) : 2 ^ k ∣ 0x10000 := by
  have hdvd : 2 ^ k ∣ 2 ^ 16 := Nat.pow_dvd_pow 2 hk
  exact hdvd

theorem pageAddr_toNat (hk : k ≤ 16) (a : BitVec 64) :
    (pageAddr k a).toNat = roundDown (2 ^ k) a.toNat := by
  have hle := pow_le_window hk
  refine toNat_and_high ?_
  rw [pagemask, BitVec.toNat_ofNat, Nat.mod_eq_of_lt (by omega)]

theorem pageMask_toNat (hk : k ≤ 16) (a : Word) :
    (a &&& pageMask k).toNat = roundDown (2 ^ k) a.toNat := by
  have hle := pow_le_window hk
  refine toNat_and_high ?_
  rw [BitVec.toNat_ofNat, Nat.mod_eq_of_lt (by omega)]

theorem not_pageMask_toNat (hk : k ≤ 16) (a : Word) :
    (a &&& ~~~pageMask k).toNat = a.toNat % 2 ^ k := by
  have hle := pow_le_window hk
  refine toNat_and_low ?_
  rw [pageMask, BitVec.not_not, BitVec.toNat_ofNat, Nat.mod_eq_of_lt (by omega)]

theorem alignedEnd_toNat (hk : k ≤ 16) {last : Word}
    (hfits : roundUp (2 ^ k) last.toNat < 2 ^ 32) :
    (alignedEnd k last).toNat = roundUp (2 ^ k) last.toNat := by
  have hle := pow_le_window hk
  have hpos : 0 < 2 ^ k := Nat.two_pow_pos k
  have hzero : last &&& ~~~pageMask k = 0 ↔ 2 ^ k ∣ last.toNat := by
    rw [Nat.dvd_iff_mod_eq_zero, ← not_pageMask_toNat hk, ← BitVec.toNat_inj]
    rfl
  unfold alignedEnd
  by_cases hdvd : 2 ^ k ∣ last.toNat
  · rw [if_neg (by simp [hzero.mpr hdvd]), roundUp_of_dvd hdvd]
  · rw [roundUp_of_not_dvd hpos hdvd] at hfits ⊢
    rw [if_pos (fun h => hdvd (hzero.mp h)), BitVec.toNat_add, pageMask_toNat hk, pageSize,
      BitVec.toNat_ofNat, Nat.mod_eq_of_lt (by omega : 2 ^ k < 2 ^ 32), Nat.mod_eq_of_lt hfits]

end Pages

/-! ## What is accepted -/

section Accepted

variable {k : Nat} {window desc : VmeMapping} {addr size : Word}

theorem Within.roundUp_le_window (hk : k ≤ 16) (hw : Placed window) (h : Within window desc) :
    roundUp (2 ^ k) (desc.pciAddrl.toNat + desc.sizel.toNat) ≤
      window.pciAddrl.toNat + window.sizel.toNat := by
  have hdvd := Nat.dvd_add hw.start_dvd hw.size_dvd
  exact (roundUp_le (Nat.two_pow_pos k) (Nat.dvd_trans (pow_dvd_window hk) hdvd)).mpr h.high

theorem vmeCheckMmapRegion_iff (hk : k ≤ 16) (hw : Placed window) (h : Within window desc)
    (hregion : addr.toNat + size.toNat < 2 ^ 32) :
    vmeCheckMmapRegion k window desc addr size = true ↔
      window.pciAddrl.toNat ≤ addr.toNat ∧
        addr.toNat + size.toNat ≤ window.pciAddrl.toNat + window.sizel.toNat ∧
        roundDown (2 ^ k) desc.pciAddrl.toNat = addr.toNat ∧
        roundUp (2 ^ k) (desc.pciAddrl.toNat + desc.sizel.toNat) =
          addr.toNat + size.toNat := by
  have hhigh := h.high
  have hfits := hw.fits
  have hup := h.roundUp_le_window hk hw
  have hlast : (desc.pciAddrl + desc.sizel).toNat =
      desc.pciAddrl.toNat + desc.sizel.toNat := by
    rw [BitVec.toNat_add, Nat.mod_eq_of_lt (by omega)]
  have hsum : (addr + size).toNat = addr.toNat + size.toNat := by
    rw [BitVec.toNat_add, Nat.mod_eq_of_lt hregion]
  have hwindow : (window.pciAddrl + window.sizel).toNat =
      window.pciAddrl.toNat + window.sizel.toNat := by
    rw [BitVec.toNat_add, Nat.mod_eq_of_lt hw.fits]
  have hend : (alignedEnd k (desc.pciAddrl + desc.sizel)).toNat =
      roundUp (2 ^ k) (desc.pciAddrl.toNat + desc.sizel.toNat) := by
    rw [← hlast] at hup ⊢
    exact alignedEnd_toNat hk (by omega)
  simp only [vmeCheckMmapRegion, BitVec.lt_def, gt_iff_lt, hsum, hwindow]
  split
  · next hout =>
    constructor
    · intro hfalse
      cases hfalse
    · intro ⟨hlow, hle, _⟩
      omega
  · next hin =>
    rw [Bool.and_eq_true, beq_iff_eq, beq_iff_eq, ← BitVec.toNat_inj, ← BitVec.toNat_inj,
      pageMask_toNat hk, hend, hsum]
    constructor
    · intro ⟨hdown, hrounded⟩
      exact ⟨by omega, by omega, hdown, hrounded⟩
    · intro ⟨_, _, hdown, hrounded⟩
      exact ⟨hdown, hrounded⟩

theorem mmapFrom_ok {interrupted : Fin numOutWindows → Bool} {remap : Vma → Rc}
    {file : File} {vma : Vma} {b : Bridge} {windows : List (Fin numOutWindows)}
    (h : mmapFrom k interrupted remap file vma b windows = .ok ()) :
    ∃ n, (b.window n).active = true ∧ ∃ m ∈ (b.window n).mappings,
      Mapping.mmaps k (b.window n).desc file vma m = true := by
  induction windows with
  | nil => cases h
  | cons i rest ih =>
    simp only [mmapFrom] at h
    split at h
    · cases h
    · split at h
      · exact ih h
      · next hused =>
        split at h
        · next hany =>
          have hactive : (b.window i).active = true := by
            cases hact : (b.window i).active with
            | false => exact absurd (.inl hact) hused
            | true => rfl
          exact ⟨i, hactive, List.any_eq_true.mp hany⟩
        · exact ih h

end Accepted

/-! ## The library's side -/

section

variable {k addr : Nat} {window desc : VmeMapping}

theorem pageAlignedSizeIncr_toNat (hk : k ≤ 16) (desc : VmeMapping) :
    (pageAlignedSizeIncr k desc).toNat = desc.pciAddrl.toNat % 2 ^ k := by
  have hlt := desc.pciAddrl.isLt
  have hsplit := @roundDown_add_mod (2 ^ k) desc.pciAddrl.toNat
  unfold pageAlignedSizeIncr
  rw [BitVec.toNat_sub, pageAddr_toNat hk, BitVec.toNat_setWidth,
    Nat.mod_eq_of_lt (by omega : desc.pciAddrl.toNat < 2 ^ 64)]
  omega

theorem pageAlignedSize_toNat (hk : k ≤ 16)
    (hfits : desc.pciAddrl.toNat + desc.sizel.toNat < 2 ^ 32) :
    (pageAlignedSize k desc).toNat = desc.pciAddrl.toNat % 2 ^ k + desc.sizel.toNat := by
  have hsplit := @roundDown_add_mod (2 ^ k) desc.pciAddrl.toNat
  unfold pageAlignedSize
  rw [BitVec.toNat_sub, pageAddr_toNat hk, BitVec.toNat_setWidth, BitVec.toNat_setWidth,
    BitVec.toNat_add]
  rw [Nat.mod_eq_of_lt (by omega : desc.pciAddrl.toNat < 2 ^ 64)]
  omega

theorem libMmap_region (hk : k ≤ 16) (hw : Placed window) (h : Within window desc) :
    ((libMmap k addr desc).1.addr k).toNat = roundDown (2 ^ k) desc.pciAddrl.toNat ∧
      (libMmap k addr desc).1.size.toNat =
        roundUp (2 ^ k) (desc.pciAddrl.toNat % 2 ^ k + desc.sizel.toNat) := by
  have hlt := desc.pciAddrl.isLt
  have hhigh := h.high
  have hfits := hw.fits
  have hup := h.roundUp_le_window hk hw
  have hdown := @roundDown_le (2 ^ k) desc.pciAddrl.toNat
  have hhull := (hull_iff (Nat.two_pow_pos k)).mp
    (@hull_end (2 ^ k) desc.sizel.toNat desc.pciAddrl.toNat (Nat.two_pow_pos k))
  have hpage : (pageAddr k (desc.pciAddrl.setWidth 64)).toNat =
      roundDown (2 ^ k) desc.pciAddrl.toNat := by
    rw [pageAddr_toNat hk, BitVec.toNat_setWidth, Nat.mod_eq_of_lt (by omega)]
  constructor
  · simp only [libMmap, Vma.of, Vma.addr]
    rw [BitVec.toNat_ofNat, Nat.shiftLeft_eq, hpage, Nat.div_mul_cancel dvd_roundDown]
    omega
  · simp only [libMmap, Vma.of, Vma.size]
    rw [BitVec.toNat_ofNat, Nat.add_sub_cancel_left, pageAlignedSize_toNat hk (by omega)]
    omega

theorem libMmap_mmapped (hk : k ≤ 16) (hw : Placed window) (h : Within window desc)
    (haddr : 2 ^ k ∣ addr) : Mmapped k window desc addr := by
  have hhigh := h.high
  have hfits := hw.fits
  have hup := h.roundUp_le_window hk hw
  have hdown := @roundDown_le (2 ^ k) desc.pciAddrl.toNat
  have hincr := pageAlignedSizeIncr_toNat hk desc
  obtain ⟨hregion, hlength⟩ := @libMmap_region k addr window desc hk hw h
  have hwindow := (le_roundDown (Nat.dvd_trans (pow_dvd_window hk) hw.start_dvd)).mpr h.low
  have hend := ((hull_iff (Nat.two_pow_pos k)).mp
    (@hull_end (2 ^ k) desc.sizel.toNat desc.pciAddrl.toNat (Nat.two_pow_pos k))).2
  have hle := @le_roundUp (2 ^ k) (desc.pciAddrl.toNat + desc.sizel.toNat)
  refine ⟨?_, ?_, Nat.le_add_right _ _, ?_, ?_⟩
  · rw [vmeCheckMmapRegion_iff hk hw h (by omega), hregion, hlength, ← hend]
    omega
  · show (addr + _) % 2 ^ k = _
    rw [hincr, Nat.add_mod, Nat.mod_eq_zero_of_dvd haddr, Nat.zero_add, Nat.mod_mod,
      Nat.mod_mod]
  · show addr + _ + _ ≤ addr + _
    have hsum := @le_roundUp (2 ^ k) (desc.pciAddrl.toNat % 2 ^ k + desc.sizel.toNat)
    rw [hincr, pageAlignedSize_toNat hk (by omega)]
    omega
  · show (addr + (pageAlignedSizeIncr k desc).toNat - (pageAlignedSizeIncr k desc).toNat,
      pageAlignedSize k desc) = _
    rw [Nat.add_sub_cancel_right]

end

/-! ## The two together -/

section

variable {k : Nat} {b : Bridge}

theorem owned_of_mmaps {n : Fin numOutWindows} {m : Mapping} {file : File} {vma : Vma}
    (hk : k ≤ 16) (hb : AllPlaced b) (hactive : (b.window n).active = true)
    (hmem : m ∈ (b.window n).mappings)
    (hmmaps : Mapping.mmaps k (b.window n).desc file vma m = true)
    (hlow : vma.vmPgoff * 2 ^ k + (vma.vmEnd - vma.vmStart) < 2 ^ 32) :
    vma.Owned k b file := by
  have hw := hb.placed n hactive
  have hwithin := hb.within n hactive m hmem
  have haddr : (vma.addr k).toNat = vma.vmPgoff * 2 ^ k := by
    rw [Vma.addr, BitVec.toNat_ofNat, Nat.shiftLeft_eq, Nat.mod_eq_of_lt (by omega)]
  have hsize : vma.size.toNat = vma.vmEnd - vma.vmStart := by
    rw [Vma.size, BitVec.toNat_ofNat, Nat.mod_eq_of_lt (by omega)]
  unfold Mapping.mmaps at hmmaps
  rw [Bool.and_eq_true, beq_iff_eq] at hmmaps
  obtain ⟨hfile, hcheck⟩ := hmmaps
  rw [vmeCheckMmapRegion_iff hk hw hwithin (by omega), haddr, hsize] at hcheck
  obtain ⟨hstart, hend, hdown, hup⟩ := hcheck
  refine ⟨n, hactive, m, hmem, hfile, hstart, hend, ?_⟩
  have hhull := @hull_end (2 ^ k) m.desc.sizel.toNat m.desc.pciAddrl.toNat
    (Nat.two_pow_pos k)
  rwa [hdown, hup, Nat.add_sub_cancel_left] at hhull

/-- The library gets every mapping that lies inside its window. What the driver maps
for a file are the pages of a mapping of the file, inside its window, if and only if the
offset and the length that were asked for fit in the 32 bits it compares. -/
theorem mmap_owned_iff (hk : k ≤ 16) (hb : AllPlaced b) :
    (∀ n, (b.window n).active = true → ∀ m ∈ (b.window n).mappings, ∀ addr, 2 ^ k ∣ addr →
      Mmapped k (b.window n).desc m.desc addr) ∧
    ∀ interrupted remap file vma,
      vmeWindowMmap k interrupted remap file vma b = .ok () →
        (vma.Owned k b file ↔ vma.vmPgoff * 2 ^ k + (vma.vmEnd - vma.vmStart) < 2 ^ 32) := by
  constructor
  · intro n hactive m hmem addr haddr
    exact libMmap_mmapped hk (hb.placed n hactive) (hb.within n hactive m hmem) haddr
  · intro interrupted remap file vma h
    constructor
    · intro ⟨n, hactive, _, _, _, _, hend, _⟩
      exact Nat.lt_of_le_of_lt hend (hb.placed n hactive).fits
    · intro hlow
      obtain ⟨n, hactive, m, hmem, hmmaps⟩ := mmapFrom_ok h
      exact owned_of_mmaps hk hb hactive hmem hmmaps hlow

end

/-- 20 KB of A32 space from the middle of a page on. -/
def midPage : VmeMapping :=
  { am := .a32UserDataSct, dataWidth := .d32, vmeAddrl := 0x18800, sizel := 0x5000 }

/-- The file 1 has mapped them, in a window at 2 GB. -/
def midPageBridge : Bridge :=
  (vmeFindMapping roomyEnv midPage true (some 1) {}).2.2

theorem midPageBridge_active (n : Fin numOutWindows)
    (h : (midPageBridge.window n).active = true) : n = ⟨0, by decide⟩ := by
  revert n
  decide

theorem midPageBridge_placed : AllPlaced midPageBridge where
  placed n h := by
    rw [midPageBridge_active n h]
    exact ⟨by decide, by decide, by decide⟩
  within n h := by
    rw [midPageBridge_active n h]
    intro m hm
    have hm : m ∈ [(midPageBridge.window ⟨0, by decide⟩).mappings.head (by decide)] := hm
    rw [List.mem_singleton] at hm
    rw [hm]
    exact ⟨by decide, by decide, by decide⟩

/-- The six pages of the mapping are mapped for the file. -/
theorem mmap_owned_iff_midPage :
    Mmapped 12 (midPageBridge.window ⟨0, by decide⟩).desc
        ((midPageBridge.window ⟨0, by decide⟩).mappings.head (by decide)).desc
        0x7f0000000000 ∧
      Vma.Owned 12 midPageBridge 1
        { vmStart := 0x7f0000000000, vmEnd := 0x7f0000006000, vmPgoff := 0x80008 } :=
  have hboth := mmap_owned_iff (by decide) midPageBridge_placed
  ⟨hboth.1 _ (by decide) _ (List.head_mem _) _ (by decide),
    (hboth.2 (fun _ => false) (fun _ => .ok ()) _ _ rfl).mpr (by decide)⟩

/-- The pages 4 GB further up are mapped for the file as well. -/
theorem mmap_not_owned : ¬ ∀ (k : Nat) (b : Bridge) (file : File) (vma : Vma), k ≤ 16 →
    AllPlaced b → vmeWindowMmap k (fun _ => false) (fun _ => .ok ()) file vma b = .ok () →
      vma.Owned k b file := by
  intro h
  have howned := h 12 midPageBridge 1
    { vmStart := 0x7f0000000000, vmEnd := 0x7f0000006000, vmPgoff := 0x180008 }
    (by decide) midPageBridge_placed rfl
  obtain ⟨n, hactive, _, _, _, _, hend, _⟩ := howned
  have hfits := (midPageBridge_placed.placed n hactive).fits
  have hlt := Nat.lt_of_le_of_lt hend hfits
  exact absurd hlt (by decide)

end Coht.Vmebridge
