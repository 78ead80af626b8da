import Coht.Lib.Ledger

/-!
# Installing and removing a module (`skeldrvr.c`, `skelvme.h`, `skelpci.h`,
`skelcar.h`, `mtt-skel.c`)

To install a module the driver maps its address spaces and registers its
interrupt handler, in code of the bus, and then calls the user's code, which
allocates the data of the module. Each of these cleans up after itself when it
fails. When the user's code fails the driver calls what removes an installed
module, and that calls the user's code again to release what it has just given
up.

`resources_balanced_iff` says when the books are balanced in the end: the code
of the bus failed, or all went well on real hardware, or the user's code failed
in emulation, where removing a module does nothing, and there was no handler
to unregister.
-/

namespace Coht.Skel

open Coht.Lib

inductive BusType
  | vme
  | pmc
  | pci
  | carrier
  | other
deriving DecidableEq

structure VmeAddressSpace where
  addressModifier : Nat
  dataWidth : Nat
  freeModifierFlag : Bool
deriving DecidableEq

structure PciAddressSpace where
  baseAddressRegister : Nat
deriving DecidableEq

/-- `InsLibModlDesc`. A VME module without a module address has no spaces; a
PCI module without one is not found. `isrFlag` says that there is an interrupt
description with the flag set. -/
structure Modld where
  busType : BusType
  vmeAddressSpace : List VmeAddressSpace := []
  pciModuleAddress : Option (List PciAddressSpace) := none
  isrFlag : Bool
  ignoreErrors : Bool

inductive Resource
  | mapping (i : Nat)
  | isr
  | udata (p : Nat)
deriving DecidableEq

/-- `SkelDrvrModuleContext`: two of its status bits, the field `Mapped` of the
address spaces by their place in the list, the user's data, and the books. -/
structure Mcon where
  emulation : Bool
  noIsr : Bool := true
  mapped : Nat → Bool := fun _ => false
  userData : Option Nat
  ledger : Ledger Resource := {}

/-- What was compiled in, and what the calls of the kernel come back with.
Releasing succeeds for what is held. `foreign` is what the user's code makes
of the spaces of a module that is not on the VME bus. -/
structure World where
  configVme : Bool
  configPci : Bool
  mapOk : Nat → Bool
  isrOk : Bool
  handle : Bool
  sysbrk : Option Nat
  foreign : Nat → Nat → Bool

/-! ## Address spaces and interrupts -/

variable (w : World)

def mapSpace (i : Nat) (m : Mcon) : Bool × Mcon :=
  if m.emulation = true then
    (true, { m with mapped := Function.update m.mapped i false })
  else if w.mapOk i = true then
    (true, { m with
      mapped := Function.update m.mapped i true
      ledger := m.ledger.acquire (.mapping i) })
  else (false, { m with mapped := Function.update m.mapped i false })

/-- The modifiers of block transfers, which go by DMA. -/
def regionIsABlock (vas : VmeAddressSpace) : Bool :=
  vas.addressModifier ∈
    [0x00, 0x03, 0x08, 0x0b, 0x0c, 0x0f, 0x37, 0x38, 0x3b, 0x3c, 0x3f]

/-- `map_vmeas()` -/
def mapVmeas (vas : VmeAddressSpace) (i : Nat) (m : Mcon) : Bool × Mcon :=
  if m.emulation = false ∧ regionIsABlock vas = true then (true, m)
  else mapSpace w i m

/-- `map_pcias()`, without its look at `IgnoreErrors`, which the caller has
too. -/
def mapPcias (_ : PciAddressSpace) (i : Nat) (m : Mcon) : Bool × Mcon :=
  mapSpace w i m

/-- The loop over the address spaces. -/
def mapAll {σ : Type} (map : σ → Nat → Mcon → Bool × Mcon)
    (ignoreErrors : Bool) : Nat → List σ → Mcon → Bool × Mcon
  | _, [], m => (true, m)
  | i, vas :: rest, m =>
    let cc := map vas i m
    if cc.1 = false ∧ ignoreErrors = false then (false, cc.2)
    else mapAll map ignoreErrors (i + 1) rest cc.2

/-- `unmap_vmeas()` and `unmap_pcias()`: the mappings of the spaces that are
selected. -/
def unmapAll {σ : Type} (select : σ → Bool) : Nat → List σ → Mcon → Mcon
  | _, [], m => m
  | i, vas :: rest, m =>
    if m.mapped i = true ∧ select vas = true then
      unmapAll select (i + 1) rest { m with
        mapped := Function.update m.mapped i false
        ledger := m.ledger.release (.mapping i) }
    else unmapAll select (i + 1) rest m

def unmapVmeas (modld : Modld) (force : Bool) (m : Mcon) : Mcon :=
  unmapAll (fun vas => force || vas.freeModifierFlag) 0 modld.vmeAddressSpace m

/-- `vme_intset()` or `drm_register_isr()`, where a handler is wanted. -/
def registerIsr (modld : Modld) (m : Mcon) : Bool × Mcon :=
  if modld.isrFlag = false then (true, m)
  else if w.isrOk = true then
    (true, { m with noIsr := false, ledger := m.ledger.acquire .isr })
  else (modld.ignoreErrors, m)

def unregisterIsr (m : Mcon) : Mcon :=
  if m.noIsr = true then m
  else { m with noIsr := true, ledger := m.ledger.release .isr }

/-! ## The code of the buses -/

/-- `RemoveVmeModule()` and `RemovePciModule()` -/
def removeSpaces {σ : Type} (spaces : List σ) (m : Mcon) : Mcon :=
  unmapAll (fun _ => true) 0 spaces (unregisterIsr m)

/-- `AddVmeModule()`, and `AddPciModule()` once the device was found. -/
def addSpaces {σ : Type} (map : σ → Nat → Mcon → Bool × Mcon) (modld : Modld)
    (spaces : List σ) (m : Mcon) : Bool × Mcon :=
  let mapping := mapAll map modld.ignoreErrors 0 spaces m
  if mapping.1 = false then (false, removeSpaces spaces mapping.2)
  else
    let isr := registerIsr w modld mapping.2
    if isr.1 = false then (false, removeSpaces spaces isr.2)
    else (true, isr.2)

def addVmeModule (modld : Modld) (m : Mcon) : Bool × Mcon :=
  if w.configVme = true then
    addSpaces w (mapVmeas w) modld modld.vmeAddressSpace m
  else (false, m)

def removeVmeModule (modld : Modld) (m : Mcon) : Mcon :=
  if w.configVme = true then removeSpaces modld.vmeAddressSpace m else m

def addPciModule (modld : Modld) (m : Mcon) : Bool × Mcon :=
  match modld.pciModuleAddress with
  | none => (false, m)
  | some pcias =>
    if w.configPci = true ∧ w.handle = true then
      addSpaces w (mapPcias w) modld pcias m
    else (false, m)

def removePciModule (modld : Modld) (m : Mcon) : Mcon :=
  if w.configPci = true then
    removeSpaces (modld.pciModuleAddress.getD []) m
  else m

/-- The carrier code installs nothing, with or without `CONFIG_BUS_CAR`. -/
def addCarModule (m : Mcon) : Bool × Mcon := (false, m)

/-! ## The user's code -/

/-- The place of the first space with this modifier and width. -/
def findSpace (am dw : Nat) : Nat → List VmeAddressSpace → Option Nat
  | _, [] => none
  | i, vas :: rest =>
    if vas.addressModifier = am ∧ vas.dataWidth = dw then some i
    else findSpace am dw (i + 1) rest

/-- Whether `get_vmemap_addr()` returns an address. -/
def getVmemapAddr (modld : Modld) (am dw : Nat) (m : Mcon) : Bool :=
  if modld.busType = .vme then
    match findSpace am dw 0 modld.vmeAddressSpace with
    | none => false
    | some i => m.mapped i
  else w.foreign am dw

def skelUserModuleInit (modld : Modld) (m : Mcon) : Bool × Mcon :=
  match w.sysbrk with
  | none => (false, m)
  | some p =>
    let m := { m with
      userData := some p
      ledger := m.ledger.acquire (.udata p) }
    if getVmemapAddr w modld 0x39 32 m = true ∧
        getVmemapAddr w modld 0x29 16 m = true then (true, m)
    else (false, { m with ledger := m.ledger.release (.udata p) })

/-- `SkelUserModuleRelease()`, which quiesces the module through its data
first: without data, it never returns. -/
def skelUserModuleRelease (m : Mcon) : Option Mcon :=
  match m.userData with
  | none => none
  | some p => some { m with ledger := m.ledger.release (.udata p) }

/-! ## The driver -/

/-- The part of `RemoveModule()` that depends on the bus. -/
def removeBus (modld : Modld) (m : Mcon) : Mcon :=
  match modld.busType with
  | .vme => removeVmeModule w modld m
  | .pmc | .pci => removePciModule w modld m
  | .carrier | .other => m

def removeModule (modld : Modld) (m : Mcon) : Option Mcon :=
  if m.emulation = true then some m
  else (skelUserModuleRelease m).map (removeBus w modld)

/-- The part of `AddModule()` that depends on the bus. -/
def addBus (modld : Modld) (m : Mcon) : Bool × Mcon :=
  match modld.busType with
  | .vme => addVmeModule w modld m
  | .pmc | .pci => addPciModule w modld m
  | .carrier => addCarModule m
  | .other => (false, m)

def unmapFlagged (modld : Modld) (m : Mcon) : Mcon :=
  if modld.busType = .vme ∧ w.configVme = true then unmapVmeas modld false m
  else m

def addModule (modld : Modld) (m : Mcon) : Option (Bool × Mcon) :=
  let bus := addBus w modld m
  if bus.1 = false then some (false, bus.2)
  else
    let user := skelUserModuleInit w modld bus.2
    if user.1 = false then
      (removeModule w modld user.2).map fun m => (false, m)
    else some (true, unmapFlagged w modld user.2)

/-- An installation, with the removal after one that succeeded. -/
def lifetime (modld : Modld) (m : Mcon) : Option Mcon :=
  (addModule w modld m).bind fun r =>
    if r.1 = true then removeModule w modld r.2 else some r.2

/-- The context `modules_install()` passes. The user's data is that of the
module it was used for before, if there was one. -/
def freshMcon (emulation : Bool) (userData : Option Nat) : Mcon where
  emulation := emulation
  userData := userData

/-! ## When the books are balanced -/

/-- Everything that was acquired is released, once, and nothing else. -/
def ReleasesAll (modld : Modld) (m : Mcon) : Prop :=
  ∃ m', lifetime w modld m = some m' ∧ m'.ledger.Balanced

/-- The mappings and the handler that the code of the bus insists on. -/
def SpacesOk {σ : Type} (modld : Modld) (spaces : List σ)
    (ok : σ → Nat → Bool) : Prop :=
  (modld.ignoreErrors = true ∨
    ∀ i vas, spaces[i]? = some vas → ok vas i = true) ∧
  (modld.isrFlag = true → w.isrOk = true ∨ modld.ignoreErrors = true)

/-- The code of the bus succeeds. -/
def BusOk (modld : Modld) (emulation : Bool) : Prop :=
  match modld.busType with
  | .vme =>
    w.configVme = true ∧
      SpacesOk w modld modld.vmeAddressSpace
        fun vas i => emulation || regionIsABlock vas || w.mapOk i
  | .pmc | .pci =>
    ∃ pcias, modld.pciModuleAddress = some pcias ∧
      (w.configPci = true ∧ w.handle = true) ∧
      SpacesOk w modld pcias fun _ i => emulation || w.mapOk i
  | .carrier | .other => False

/-- The user's code finds the address of this space. -/
def HasAddress (modld : Modld) (emulation : Bool) (am dw : Nat) : Prop :=
  if modld.busType = .vme then
    ∃ i, findSpace am dw 0 modld.vmeAddressSpace = some i ∧
      emulation = false ∧ w.mapOk i = true
  else w.foreign am dw = true

/-- The user's code succeeds. -/
def UserOk (modld : Modld) (emulation : Bool) : Prop :=
  w.sysbrk ≠ none ∧ HasAddress w modld emulation 0x39 32 ∧
    HasAddress w modld emulation 0x29 16

/-- A handler is registered. -/
def IsrTaken (modld : Modld) : Prop := modld.isrFlag = true ∧ w.isrOk = true

/-! ## The books along the way -/

section

variable {w} {modld : Modld} {m : Mcon} {e : Bool} {u live : Option Nat}
  {n i : Nat} {σ : Type}

/-- The books agree with the context: held are the mappings whose `Mapped` is
set, all of them among the first `n` spaces, the handler unless the status says
there is none, and the data `live`. -/
structure Books (e : Bool) (u live : Option Nat) (n : Nat) (m : Mcon) :
    Prop where
  emulation : m.emulation = e
  userData : m.userData = u
  clean : m.ledger.stray = false
  mapping : ∀ i, m.ledger.held (.mapping i) = (m.mapped i).toNat
  isr : m.ledger.held .isr = (!m.noIsr).toNat
  udata : ∀ p, m.ledger.held (.udata p) = if live = some p then 1 else 0
  bound : ∀ i, n ≤ i → m.mapped i = false

theorem freshMcon_books (e : Bool) (u : Option Nat) :
    Books e u none 0 (freshMcon e u) where
  emulation := rfl
  userData := rfl
  clean := rfl
  mapping _ := rfl
  isr := rfl
  udata _ := rfl
  bound _ _ := rfl

theorem Books.mono (h : Books e u live n m) {n' : Nat} (hle : n ≤ n') :
    Books e u live n' m :=
  { h with bound := fun i hi => h.bound i (Nat.le_trans hle hi) }

theorem Books.balanced (h : Books e u none 0 m) (hisr : m.noIsr = true) :
    m.ledger.Balanced where
  none := by
    intro r
    cases r with
    | mapping i =>
      rw [h.mapping, h.bound i (Nat.zero_le i)]
      rfl
    | isr =>
      rw [h.isr, hisr]
      rfl
    | udata p => exact h.udata p
  clean := h.clean

theorem Books.acquire_mapping (h : Books e u live n m)
    (hi : m.mapped i = false) :
    Books e u live (max n (i + 1)) { m with
      mapped := Function.update m.mapped i true
      ledger := m.ledger.acquire (.mapping i) } where
  emulation := h.emulation
  userData := h.userData
  clean := h.clean
  mapping := by
    intro k
    show _ = (Function.update m.mapped i true k).toNat
    rw [Ledger.acquire_held]
    by_cases hk : k = i
    · subst hk
      rw [if_pos rfl, h.mapping, hi, Function.update_self]
      rfl
    · rw [if_neg (by simpa using hk), h.mapping, Function.update_of_ne hk]
  isr := by
    rw [Ledger.acquire_held, if_neg (by simp)]
    exact h.isr
  udata := by
    intro p
    rw [Ledger.acquire_held, if_neg (by simp)]
    exact h.udata p
  bound := by
    intro k hk
    have hne : k ≠ i := by omega
    show Function.update m.mapped i true k = false
    rw [Function.update_of_ne hne]
    exact h.bound k (by omega)

theorem Books.release_mapping (h : Books e u live n m)
    (hi : m.mapped i = true) :
    Books e u live n { m with
      mapped := Function.update m.mapped i false
      ledger := m.ledger.release (.mapping i) } := by
  have hheld : m.ledger.held (.mapping i) ≠ 0 := by
    rw [h.mapping, hi]
    exact Nat.one_ne_zero
  refine ⟨h.emulation, h.userData, ?_, ?_, ?_, ?_, ?_⟩
  · rw [Ledger.release_stray hheld]
    exact h.clean
  · intro k
    show _ = (Function.update m.mapped i false k).toNat
    rw [Ledger.release_held hheld]
    by_cases hk : k = i
    · subst hk
      rw [if_pos rfl, h.mapping, hi, Function.update_self]
      rfl
    · rw [if_neg (by simpa using hk), h.mapping, Function.update_of_ne hk]
  · rw [Ledger.release_held hheld, if_neg (by simp)]
    exact h.isr
  · intro p
    rw [Ledger.release_held hheld, if_neg (by simp)]
    exact h.udata p
  · intro k hk
    show Function.update m.mapped i false k = false
    by_cases hki : k = i
    · rw [hki, Function.update_self]
    · rw [Function.update_of_ne hki]
      exact h.bound k hk

theorem Books.acquire_isr (h : Books e u live n m) (hno : m.noIsr = true) :
    Books e u live n
      { m with noIsr := false, ledger := m.ledger.acquire .isr } where
  emulation := h.emulation
  userData := h.userData
  clean := h.clean
  mapping := by
    intro k
    rw [Ledger.acquire_held, if_neg (by simp)]
    exact h.mapping k
  isr := by
    rw [Ledger.acquire_held, if_pos rfl, h.isr, hno]
    rfl
  udata := by
    intro p
    rw [Ledger.acquire_held, if_neg (by simp)]
    exact h.udata p
  bound := h.bound

theorem Books.unregisterIsr (h : Books e u live n m) :
    Books e u live n (unregisterIsr m) ∧ (unregisterIsr m).noIsr = true := by
  unfold Skel.unregisterIsr
  split
  · next hno => exact ⟨h, hno⟩
  · next hno =>
    have hheld : m.ledger.held .isr ≠ 0 := by
      rw [h.isr, Bool.eq_false_iff.mpr hno]
      exact Nat.one_ne_zero
    refine ⟨⟨h.emulation, h.userData, ?_, ?_, ?_, ?_, h.bound⟩, rfl⟩
    · rw [Ledger.release_stray hheld]
      exact h.clean
    · intro k
      rw [Ledger.release_held hheld, if_neg (by simp)]
      exact h.mapping k
    · rw [Ledger.release_held hheld, if_pos rfl, h.isr,
        Bool.eq_false_iff.mpr hno]
      rfl
    · intro p
      rw [Ledger.release_held hheld, if_neg (by simp)]
      exact h.udata p

theorem Books.acquire_udata (h : Books e u none n m) (p : Nat) :
    Books e (some p) (some p) n { m with
      userData := some p
      ledger := m.ledger.acquire (.udata p) } where
  emulation := h.emulation
  userData := rfl
  clean := h.clean
  mapping := by
    intro k
    rw [Ledger.acquire_held, if_neg (by simp)]
    exact h.mapping k
  isr := by
    rw [Ledger.acquire_held, if_neg (by simp)]
    exact h.isr
  udata := by
    intro q
    rw [Ledger.acquire_held, h.udata, h.udata]
    by_cases hq : q = p
    · subst hq
      simp
    · rw [if_neg (by simpa using hq)]
      simpa using fun hpq => hq hpq.symm
  bound := h.bound

theorem Books.release_udata {p : Nat} (h : Books e u (some p) n m) :
    Books e u none n
      { m with ledger := m.ledger.release (.udata p) } := by
  have hheld : m.ledger.held (.udata p) ≠ 0 := by
    rw [h.udata, if_pos rfl]
    exact Nat.one_ne_zero
  refine ⟨h.emulation, h.userData, ?_, ?_, ?_, ?_, h.bound⟩
  · rw [Ledger.release_stray hheld]
    exact h.clean
  · intro k
    rw [Ledger.release_held hheld, if_neg (by simp)]
    exact h.mapping k
  · rw [Ledger.release_held hheld, if_neg (by simp)]
    exact h.isr
  · intro q
    rw [Ledger.release_held hheld, h.udata, h.udata]
    by_cases hq : q = p
    · subst hq
      simp
    · rw [if_neg (by simpa using hq)]
      simpa using fun hpq => hq hpq.symm

/-! ## One spec lemma for each routine -/

/-- What a routine that maps one space does: it succeeds when `ok` says so, and
what `Mapped` becomes is `sets`, which are functions of emulation, the space
and its place. -/
structure Maps (map : σ → Nat → Mcon → Bool × Mcon)
    (ok sets : Bool → σ → Nat → Bool) : Prop where
  fst : ∀ vas i m, (map vas i m).1 = ok m.emulation vas i
  snd : ∀ vas i m, m.mapped i = false →
    (map vas i m).2 = if sets m.emulation vas i = true then
      { m with
        mapped := Function.update m.mapped i true
        ledger := m.ledger.acquire (.mapping i) }
      else m

theorem mapSpace_fst (i : Nat) (m : Mcon) :
    (mapSpace w i m).1 = (m.emulation || w.mapOk i) := by
  unfold mapSpace
  split
  · next he => rw [he, Bool.true_or]
  · next he =>
    rw [Bool.eq_false_iff.mpr he, Bool.false_or]
    split
    · next hok => exact hok.symm
    · next hok => exact (Bool.eq_false_iff.mpr hok).symm

theorem mapSpace_snd (hi : m.mapped i = false) :
    (mapSpace w i m).2 = if (!m.emulation && w.mapOk i) = true then
      { m with
        mapped := Function.update m.mapped i true
        ledger := m.ledger.acquire (.mapping i) }
      else m := by
  have hsame : Function.update m.mapped i false = m.mapped := by
    rw [← hi]
    exact Function.update_eq_self i m.mapped
  unfold mapSpace
  split
  · next he =>
    rw [if_neg (by simp [he]), hsame]
  · next he =>
    split
    · next hok => rw [if_pos (by simp [he, hok])]
    · next hok => rw [if_neg (by simp [hok]), hsame]

theorem mapVmeas_maps :
    Maps (mapVmeas w) (fun e vas i => e || regionIsABlock vas || w.mapOk i)
      (fun e vas i => !e && w.mapOk i && !regionIsABlock vas) where
  fst := by
    intro vas i m
    unfold mapVmeas
    split
    · next h => simp [h.2]
    · next h =>
      rw [mapSpace_fst]
      cases he : m.emulation
      · cases hb : regionIsABlock vas
        · simp
        · exact absurd ⟨he, hb⟩ h
      · simp
  snd := by
    intro vas i m hi
    unfold mapVmeas
    split
    · next h => rw [if_neg (by simp [h.2])]
    · next h =>
      rw [mapSpace_snd hi]
      cases he : m.emulation
      · cases hb : regionIsABlock vas
        · simp
        · exact absurd ⟨he, hb⟩ h
      · simp

theorem mapPcias_maps :
    Maps (mapPcias w) (fun e _ i => e || w.mapOk i)
      (fun e _ i => !e && w.mapOk i) where
  fst _ i m := mapSpace_fst i m
  snd _ _ _ hi := mapSpace_snd hi

section Loop

variable {map : σ → Nat → Mcon → Bool × Mcon}
  {ok sets : Bool → σ → Nat → Bool}

theorem Maps.step (hmap : Maps map ok sets) (vas : σ)
    (h : Books e u live i m) :
    Books e u live (i + 1) (map vas i m).2 ∧
      (map vas i m).2.noIsr = m.noIsr ∧
      (map vas i m).2.mapped i = sets e vas i ∧
      ∀ k, k ≠ i → (map vas i m).2.mapped k = m.mapped k := by
  have hi := h.bound i (Nat.le_refl i)
  obtain rfl := h.emulation
  rw [hmap.snd vas i m hi]
  split
  · next hset =>
    have hmax : max i (i + 1) ≤ i + 1 := by omega
    refine ⟨(h.acquire_mapping hi).mono hmax, rfl, ?_, ?_⟩
    · rw [hset]
      exact Function.update_self i true m.mapped
    · intro k hk
      exact Function.update_of_ne hk true m.mapped
  · next hset =>
    refine ⟨h.mono (Nat.le_succ i), rfl, ?_, fun _ _ => rfl⟩
    rw [hi]
    exact (Bool.eq_false_iff.mpr hset).symm

theorem mapAll_books (hmap : Maps map ok sets) (ignore : Bool)
    (spaces : List σ) (h : Books e u live i m) :
    Books e u live (i + spaces.length) (mapAll map ignore i spaces m).2 ∧
      (mapAll map ignore i spaces m).2.noIsr = m.noIsr := by
  induction spaces generalizing i m with
  | nil => exact ⟨h, rfl⟩
  | cons vas rest ih =>
    obtain ⟨hstep, hstepIsr, _⟩ := hmap.step vas h
    rw [mapAll]
    split
    · refine ⟨hstep.mono ?_, hstepIsr⟩
      rw [List.length_cons]
      omega
    · obtain ⟨hbooks, hisr⟩ := ih hstep
      refine ⟨hbooks.mono ?_, hisr.trans hstepIsr⟩
      rw [List.length_cons]
      omega

theorem mapAll_fst (hmap : Maps map ok sets) (ignore : Bool)
    (spaces : List σ) (h : Books e u live i m) :
    (mapAll map ignore i spaces m).1 = true ↔
      ignore = true ∨
        ∀ k vas, spaces[k]? = some vas → ok e vas (i + k) = true := by
  induction spaces generalizing i m with
  | nil => simp [mapAll]
  | cons vas rest ih =>
    obtain ⟨hstep, _⟩ := hmap.step vas h
    have hfst := hmap.fst vas i m
    rw [h.emulation] at hfst
    rw [mapAll]
    split
    · next hfail =>
      simp only [Bool.false_eq_true, false_iff]
      rintro (hignore | hall)
      · rw [hfail.2] at hignore
        cases hignore
      · have hvas := hall 0 vas rfl
        rw [Nat.add_zero, ← hfst, hfail.1] at hvas
        cases hvas
    · next hgo =>
      rw [ih hstep]
      refine or_congr_right' fun hignore => ?_
      have hvas : ok e vas i = true := by
        rw [← hfst]
        by_contra hfalse
        exact hgo ⟨Bool.eq_false_iff.mpr hfalse,
          Bool.eq_false_iff.mpr hignore⟩
      constructor
      · intro hall k vas' hget
        cases k with
        | zero =>
          cases hget
          exact hvas
        | succ k =>
          have hk := hall k vas' (by simpa using hget)
          rwa [Nat.add_assoc, Nat.add_comm 1 k] at hk
      · intro hall k vas' hget
        have hk := hall (k + 1) vas' (by simpa using hget)
        rwa [← Nat.add_assoc, Nat.add_right_comm] at hk

theorem mapAll_mapped (hmap : Maps map ok sets) (ignore : Bool)
    (spaces : List σ) (h : Books e u live i m)
    (hok : (mapAll map ignore i spaces m).1 = true) :
    (∀ k vas, spaces[k]? = some vas →
      (mapAll map ignore i spaces m).2.mapped (i + k) =
        sets e vas (i + k)) ∧
    ∀ k < i, (mapAll map ignore i spaces m).2.mapped k = m.mapped k := by
  induction spaces generalizing i m with
  | nil =>
    refine ⟨?_, fun _ _ => rfl⟩
    intro k vas hget
    simp at hget
  | cons vas rest ih =>
    obtain ⟨hstep, _, hself, hothers⟩ := hmap.step vas h
    rw [mapAll] at hok ⊢
    split at hok
    · cases hok
    · next hgo =>
      rw [if_neg hgo]
      obtain ⟨hlater, hearlier⟩ := ih hstep hok
      constructor
      · intro k vas' hget
        cases k with
        | zero =>
          cases hget
          exact (hearlier i (Nat.lt_succ_self i)).trans hself
        | succ k =>
          have hk := hlater k vas' (by simpa using hget)
          have hidx : i + (k + 1) = i + 1 + k := by omega
          rw [hidx]
          exact hk
      · intro k hk
        rw [hearlier k (by omega)]
        exact hothers k (by omega)

end Loop

theorem unmapAll_books (select : σ → Bool) (spaces : List σ)
    (h : Books e u live n m) (i : Nat) :
    Books e u live n (unmapAll select i spaces m) ∧
      (unmapAll select i spaces m).noIsr = m.noIsr := by
  induction spaces generalizing i m with
  | nil => exact ⟨h, rfl⟩
  | cons vas rest ih =>
    rw [unmapAll]
    split
    · next hsel =>
      obtain ⟨hbooks, hisr⟩ := ih (h.release_mapping hsel.1) (i + 1)
      exact ⟨hbooks, hisr⟩
    · exact ih h (i + 1)

theorem unmapAll_mapped (select : σ → Bool) (spaces : List σ) (i k : Nat)
    (m : Mcon) (hk : (unmapAll select i spaces m).mapped k = true) :
    m.mapped k = true ∧
      ∀ vas, i ≤ k → spaces[k - i]? = some vas → select vas = false := by
  induction spaces generalizing i m with
  | nil => exact ⟨hk, fun vas _ hget => by simp at hget⟩
  | cons vas rest ih =>
    have hlater : ∀ vas', i + 1 ≤ k →
        (vas :: rest)[k - i]? = some vas' →
        rest[k - (i + 1)]? = some vas' := by
      intro vas' hle hget
      have hsub : k - i = k - (i + 1) + 1 := by omega
      rwa [hsub, List.getElem?_cons_succ] at hget
    rw [unmapAll] at hk
    split at hk
    · next hsel =>
      obtain ⟨hmapped, hrest⟩ := ih (i + 1) _ hk
      have hne : k ≠ i := by
        intro heq
        rw [heq] at hmapped
        have hself : Function.update m.mapped i false i = true := hmapped
        rw [Function.update_self] at hself
        cases hself
      have hold : Function.update m.mapped i false k = true := hmapped
      rw [Function.update_of_ne hne] at hold
      refine ⟨hold, fun vas' hle hget => ?_⟩
      exact hrest vas' (by omega) (hlater vas' (by omega) hget)
    · next hsel =>
      obtain ⟨hmapped, hrest⟩ := ih (i + 1) m hk
      refine ⟨hmapped, fun vas' hle hget => ?_⟩
      by_cases hki : k = i
      · subst hki
        rw [Nat.sub_self, List.getElem?_cons_zero] at hget
        cases hget
        exact Bool.eq_false_iff.mpr fun h => hsel ⟨hmapped, h⟩
      · exact hrest vas' (by omega) (hlater vas' (by omega) hget)

theorem removeSpaces_books (spaces : List σ)
    (h : Books e u live spaces.length m) :
    Books e u live 0 (removeSpaces spaces m) ∧
      (removeSpaces spaces m).noIsr = true := by
  obtain ⟨hbooks, hisr⟩ := h.unregisterIsr
  obtain ⟨hunmap, hsame⟩ :=
    unmapAll_books (fun _ => true) spaces hbooks 0
  refine ⟨{ hunmap with bound := ?_ }, hsame.trans hisr⟩
  intro k _
  refine Bool.eq_false_iff.mpr fun hk => ?_
  obtain ⟨hmapped, hsel⟩ := unmapAll_mapped _ _ _ _ _ hk
  rcases Nat.lt_or_ge k spaces.length with hlt | hge
  · have hget : spaces[k - 0]? = some spaces[k] := by simp [hlt]
    exact Bool.false_ne_true (hsel _ (Nat.zero_le k) hget).symm
  · rw [hbooks.bound k hge] at hmapped
    cases hmapped

theorem registerIsr_books (modld : Modld) (h : Books e u live n m) (hno : m.noIsr = true) :
    Books e u live n (registerIsr w modld m).2 ∧
      (registerIsr w modld m).2.mapped = m.mapped ∧
      ((registerIsr w modld m).2.noIsr = false ↔
        modld.isrFlag = true ∧ w.isrOk = true) := by
  unfold registerIsr
  split
  · next hflag => exact ⟨h, rfl, by simp [hno, hflag]⟩
  · next hflag =>
    split
    · next hok => exact ⟨h.acquire_isr hno, rfl, by simpa [hok] using hflag⟩
    · next hok => exact ⟨h, rfl, by simp [hno, hok]⟩

theorem registerIsr_fst (modld : Modld) :
    (registerIsr w modld m).1 = true ↔
      (modld.isrFlag = true → w.isrOk = true ∨ modld.ignoreErrors = true) := by
  unfold registerIsr
  split
  · next hflag => simp [hflag]
  · next hflag =>
    have hflag : modld.isrFlag = true := by simpa using hflag
    split
    · next hok => simp [hok]
    · next hok => simp [hok, hflag]

/-- A failed installation of spaces cleans up; one that succeeded has gone
through all of them. -/
structure Added (w : World) (modld : Modld) (e : Bool) (u : Option Nat)
    (spaces : List σ) (ok sets : Bool → σ → Nat → Bool) (r : Bool × Mcon) :
    Prop where
  fst : r.1 = true ↔
    (modld.ignoreErrors = true ∨
      ∀ k vas, spaces[k]? = some vas → ok e vas k = true) ∧
    (modld.isrFlag = true → w.isrOk = true ∨ modld.ignoreErrors = true)
  failed : r.1 = false → r.2.ledger.Balanced
  books : r.1 = true → Books e u none spaces.length r.2
  isr : r.1 = true →
    (r.2.noIsr = false ↔ modld.isrFlag = true ∧ w.isrOk = true)
  mapped : r.1 = true → ∀ k vas, spaces[k]? = some vas →
    r.2.mapped k = sets e vas k

theorem addSpaces_added (modld : Modld) {map : σ → Nat → Mcon → Bool × Mcon}
    {ok sets : Bool → σ → Nat → Bool} (hmap : Maps map ok sets)
    (spaces : List σ) (h : Books e u none 0 m) (hno : m.noIsr = true) :
    Added w modld e u spaces ok sets (addSpaces w map modld spaces m) := by
  obtain ⟨hbooks, hisr⟩ := mapAll_books hmap modld.ignoreErrors spaces h
  have hfst := mapAll_fst hmap modld.ignoreErrors spaces h
  have hmapped := mapAll_mapped hmap modld.ignoreErrors spaces h
  simp only [Nat.zero_add] at hbooks hfst hmapped
  unfold addSpaces
  dsimp only
  split
  · next hfail =>
    obtain ⟨hrem, hremIsr⟩ := removeSpaces_books spaces hbooks
    rw [hfail] at hfst
    refine ⟨?_, fun _ => hrem.balanced hremIsr, ?_, ?_, ?_⟩
    · simp only [Bool.false_eq_true, false_iff] at hfst ⊢
      exact fun hall => hfst hall.1
    all_goals
      intro hcontra
      cases hcontra
  · next hok =>
    have hok := (Bool.not_eq_false _).mp hok
    obtain ⟨hreg, hsame, hregIsr⟩ :=
      registerIsr_books (w := w) modld hbooks (hisr.trans hno)
    have hregFst := registerIsr_fst (w := w) modld
      (m := (mapAll map modld.ignoreErrors 0 spaces m).2)
    split
    · next hfail =>
      obtain ⟨hrem, hremIsr⟩ := removeSpaces_books spaces hreg
      rw [hfail] at hregFst
      refine ⟨?_, fun _ => hrem.balanced hremIsr, ?_, ?_, ?_⟩
      · simp only [Bool.false_eq_true, false_iff] at hregFst ⊢
        exact fun hall => hregFst hall.2
      all_goals
        intro hcontra
        cases hcontra
    · next hdone =>
      have hdone := (Bool.not_eq_false _).mp hdone
      refine ⟨?_, ?_, fun _ => hreg, fun _ => hregIsr, fun _ => ?_⟩
      · simp only [true_iff]
        exact ⟨hfst.mp hok, hregFst.mp hdone⟩
      · intro hcontra
        cases hcontra
      · intro k vas hget
        rw [hsame]
        exact (hmapped hok).1 k vas hget

/-! ## The driver and the user's code -/

def spaceCount (modld : Modld) : Nat :=
  match modld.busType with
  | .vme => modld.vmeAddressSpace.length
  | .pmc | .pci => (modld.pciModuleAddress.getD []).length
  | .carrier | .other => 0

theorem findSpace_some {am dw i k : Nat} {spaces : List VmeAddressSpace}
    (h : findSpace am dw i spaces = some k) :
    ∃ j vas, k = i + j ∧ spaces[j]? = some vas ∧ vas.addressModifier = am := by
  induction spaces generalizing i with
  | nil => cases h
  | cons vas rest ih =>
    rw [findSpace] at h
    split at h
    · next hvas =>
      cases h
      exact ⟨0, vas, rfl, rfl, hvas.1⟩
    · obtain ⟨j, vas', hk, hget, ham⟩ := ih h
      exact ⟨j + 1, vas', by omega, by simpa using hget, ham⟩

structure BusAdded (w : World) (modld : Modld) (e : Bool) (u : Option Nat)
    (m : Mcon) : Prop where
  books : Books e u none (spaceCount modld) m
  isr : m.noIsr = false ↔ IsrTaken w modld
  /-- Nothing is mapped in emulation. -/
  unmapped : e = true → ∀ i, m.mapped i = false
  /-- The modifier is not one of a block transfer. -/
  address : ∀ am dw, (∀ vas, vas.addressModifier = am →
      regionIsABlock vas = false) →
    (getVmemapAddr w modld am dw m = true ↔ HasAddress w modld e am dw)

theorem Added.unmapped {spaces : List σ} {ok sets : Bool → σ → Nat → Bool}
    {r : Bool × Mcon} (h : Added w modld e u spaces ok sets r)
    (hr : r.1 = true) (hsets : ∀ vas i, sets true vas i = false)
    (he : e = true) (i : Nat) : r.2.mapped i = false := by
  rcases Nat.lt_or_ge i spaces.length with hlt | hge
  · rw [h.mapped hr i spaces[i] (by simp [hlt]), he]
    exact hsets _ i
  · exact (h.books hr).bound i hge

theorem addVmeModule_added (hbus : modld.busType = .vme)
    (h : Books e u none 0 m) (hno : m.noIsr = true) :
    ((addVmeModule w modld m).1 = true ↔ BusOk w modld e) ∧
    ((addVmeModule w modld m).1 = false →
      (addVmeModule w modld m).2.ledger.Balanced) ∧
    ((addVmeModule w modld m).1 = true →
      BusAdded w modld e u (addVmeModule w modld m).2) := by
  have hok : BusOk w modld e ↔ w.configVme = true ∧
      SpacesOk w modld modld.vmeAddressSpace
        fun vas i => e || regionIsABlock vas || w.mapOk i := by
    unfold BusOk
    rw [hbus]
  rw [hok]
  unfold addVmeModule
  split
  · next hconfig =>
    have hadd := addSpaces_added (w := w) modld
      (mapVmeas_maps (w := w)) modld.vmeAddressSpace h hno
    refine ⟨?_, hadd.failed, fun hr => ⟨?_, hadd.isr hr, ?_, ?_⟩⟩
    · rw [hadd.fst]
      exact (and_iff_right hconfig).symm
    · unfold spaceCount
      rw [hbus]
      exact hadd.books hr
    · intro he i
      exact hadd.unmapped hr (fun _ _ => rfl) he i
    · intro am dw hblock
      unfold getVmemapAddr HasAddress
      rw [if_pos hbus, if_pos hbus]
      cases hfind : findSpace am dw 0 modld.vmeAddressSpace with
      | none => simp
      | some i =>
        obtain ⟨j, vas, hij, hget, ham⟩ := findSpace_some hfind
        rw [Nat.zero_add] at hij
        subst hij
        dsimp only
        rw [hadd.mapped hr i vas hget, hblock vas ham]
        simp
  · next hconfig =>
    refine ⟨?_, fun _ => h.balanced hno, ?_⟩
    · simp only [Bool.false_eq_true, false_iff]
      exact fun hand => hconfig hand.1
    · intro hr
      cases hr

theorem addPciModule_added (hbus : modld.busType = .pmc ∨ modld.busType = .pci)
    (h : Books e u none 0 m) (hno : m.noIsr = true) :
    ((addPciModule w modld m).1 = true ↔ BusOk w modld e) ∧
    ((addPciModule w modld m).1 = false →
      (addPciModule w modld m).2.ledger.Balanced) ∧
    ((addPciModule w modld m).1 = true →
      BusAdded w modld e u (addPciModule w modld m).2) := by
  have hok : BusOk w modld e ↔ ∃ pcias,
      modld.pciModuleAddress = some pcias ∧
      (w.configPci = true ∧ w.handle = true) ∧
      SpacesOk w modld pcias fun _ i => e || w.mapOk i := by
    unfold BusOk
    rcases hbus with hbus | hbus <;> rw [hbus]
  have hvme : modld.busType ≠ .vme := by
    rcases hbus with hbus | hbus <;> rw [hbus] <;> decide
  rw [hok]
  unfold addPciModule
  cases haddr : modld.pciModuleAddress with
  | none =>
    refine ⟨?_, fun _ => h.balanced hno, ?_⟩
    · simp
    · intro hr
      cases hr
  | some pcias =>
    dsimp only
    split
    · next hconfig =>
      have hadd := addSpaces_added (w := w) modld
        (mapPcias_maps (w := w)) pcias h hno
      refine ⟨?_, hadd.failed, fun hr => ⟨?_, hadd.isr hr, ?_, ?_⟩⟩
      · rw [hadd.fst]
        constructor
        · intro hsp
          exact ⟨pcias, rfl, hconfig, hsp⟩
        · rintro ⟨_, heq, _, hsp⟩
          cases heq
          exact hsp
      · have hcount : spaceCount modld = pcias.length := by
          unfold spaceCount
          rcases hbus with hbus | hbus <;> rw [hbus, haddr] <;> rfl
        rw [hcount]
        exact hadd.books hr
      · intro he i
        exact hadd.unmapped hr (fun _ _ => rfl) he i
      · intro am dw _
        unfold getVmemapAddr HasAddress
        rw [if_neg hvme, if_neg hvme]
    · next hconfig =>
      refine ⟨?_, fun _ => h.balanced hno, ?_⟩
      · simp only [Bool.false_eq_true, false_iff]
        rintro ⟨_, _, hand, _⟩
        exact hconfig hand
      · intro hr
        cases hr

theorem addBus_added (modld : Modld) (h : Books e u none 0 m)
    (hno : m.noIsr = true) :
    ((addBus w modld m).1 = true ↔ BusOk w modld e) ∧
    ((addBus w modld m).1 = false →
      (addBus w modld m).2.ledger.Balanced) ∧
    ((addBus w modld m).1 = true →
      BusAdded w modld e u (addBus w modld m).2) := by
  have hnothing : (¬ BusOk w modld e) →
      ((false : Bool) = true ↔ BusOk w modld e) ∧
      ((false : Bool) = false → m.ledger.Balanced) ∧
      ((false : Bool) = true → BusAdded w modld e u m) := by
    intro hno'
    exact ⟨by simpa using hno', fun _ => h.balanced hno, by simp⟩
  unfold addBus
  split
  · next hbus => exact addVmeModule_added hbus h hno
  · next hbus => exact addPciModule_added (.inl hbus) h hno
  · next hbus => exact addPciModule_added (.inr hbus) h hno
  · next hbus =>
    apply hnothing
    unfold BusOk
    rw [hbus]
    exact id
  · next hbus =>
    apply hnothing
    unfold BusOk
    rw [hbus]
    exact id

theorem removePciModule_balanced (hconfig : w.configPci = true)
    (h : Books e u none (modld.pciModuleAddress.getD []).length m) :
    (removePciModule w modld m).ledger.Balanced := by
  unfold removePciModule
  rw [if_pos hconfig]
  obtain ⟨hrem, hisr⟩ :=
    removeSpaces_books (modld.pciModuleAddress.getD []) h
  exact hrem.balanced hisr

theorem removeBus_balanced (hok : BusOk w modld e)
    (h : Books e u none (spaceCount modld) m) :
    (removeBus w modld m).ledger.Balanced := by
  unfold BusOk at hok
  unfold spaceCount at h
  unfold removeBus
  split at hok
  · next hbus =>
    rw [hbus] at h
    dsimp only at h ⊢
    unfold removeVmeModule
    rw [if_pos hok.1]
    obtain ⟨hrem, hisr⟩ := removeSpaces_books modld.vmeAddressSpace h
    exact hrem.balanced hisr
  · next hbus =>
    rw [hbus] at h
    obtain ⟨_, _, hconfig, _⟩ := hok
    exact removePciModule_balanced hconfig.1 h
  · next hbus =>
    rw [hbus] at h
    obtain ⟨_, _, hconfig, _⟩ := hok
    exact removePciModule_balanced hconfig.1 h
  · exact hok.elim
  · exact hok.elim

theorem unmapAll_stray (select : σ → Bool) (spaces : List σ) (i : Nat)
    (m : Mcon) (h : m.ledger.stray = true) :
    (unmapAll select i spaces m).ledger.stray = true := by
  induction spaces generalizing i m with
  | nil => exact h
  | cons vas rest ih =>
    rw [unmapAll]
    split
    · exact ih _ _ (Ledger.release_stray_of_stray h)
    · exact ih _ _ h

theorem removeBus_stray (h : m.ledger.stray = true) :
    (removeBus w modld m).ledger.stray = true := by
  have hspaces : ∀ {τ : Type} (spaces : List τ),
      (removeSpaces spaces m).ledger.stray = true := by
    intro τ spaces
    unfold removeSpaces
    apply unmapAll_stray
    unfold unregisterIsr
    split
    · exact h
    · exact Ledger.release_stray_of_stray h
  unfold removeBus
  split
  · unfold removeVmeModule
    split
    · exact hspaces _
    · exact h
  · unfold removePciModule
    split
    · exact hspaces _
    · exact h
  · unfold removePciModule
    split
    · exact hspaces _
    · exact h
  · exact h
  · exact h

theorem unmapFlagged_books (modld : Modld) (h : Books e u live n m) :
    Books e u live n (unmapFlagged w modld m) := by
  unfold unmapFlagged
  split
  · exact (unmapAll_books _ _ h 0).1
  · exact h

theorem skelUserModuleInit_cases (h : BusAdded w modld e u m) :
    (UserOk w modld e ∧ ∃ p, (skelUserModuleInit w modld m).1 = true ∧
      Books e (some p) (some p) (spaceCount modld)
        (skelUserModuleInit w modld m).2) ∨
    (¬ UserOk w modld e ∧ (skelUserModuleInit w modld m).1 = false ∧
      (skelUserModuleInit w modld m).2.noIsr = m.noIsr ∧
      (skelUserModuleInit w modld m).2.mapped = m.mapped ∧
      ∃ u', Books e u' none (spaceCount modld)
        (skelUserModuleInit w modld m).2) := by
  unfold skelUserModuleInit UserOk
  cases hbrk : w.sysbrk with
  | none => exact .inr ⟨fun hu => hu.1 rfl, rfl, rfl, rfl, u, h.books⟩
  | some p =>
    have h39 := h.address 0x39 32 (by
      intro vas ham
      unfold regionIsABlock
      rw [ham]
      decide)
    have h29 := h.address 0x29 16 (by
      intro vas ham
      unfold regionIsABlock
      rw [ham]
      decide)
    have hbooks := h.books.acquire_udata p
    dsimp only
    split
    · next haddr =>
      exact .inl ⟨⟨Option.some_ne_none p, h39.mp haddr.1,
        h29.mp haddr.2⟩, p, rfl, hbooks⟩
    · next haddr =>
      refine .inr ⟨?_, rfl, rfl, rfl, some p, hbooks.release_udata⟩
      rintro ⟨_, hu⟩
      exact haddr ⟨h39.mpr hu.1, h29.mpr hu.2⟩

theorem removeModule_hardware (h : Books false u live n m) {m' : Mcon}
    (hm' : removeModule w modld m = some m') (hb : m'.ledger.Balanced) :
    ∃ p, u = some p ∧ live = some p := by
  unfold removeModule at hm'
  rw [h.emulation] at hm'
  unfold skelUserModuleRelease at hm'
  rw [h.userData] at hm'
  cases u with
  | none => cases hm'
  | some p =>
    cases hm'
    refine ⟨p, rfl, ?_⟩
    by_contra hlive
    have hheld : m.ledger.held (.udata p) = 0 := by
      rw [h.udata, if_neg hlive]
    exact Ledger.not_balanced_of_stray
      (removeBus_stray (Ledger.release_of_none hheld)) hb

end

/-- The books of an installation, and of the removal after it, balance exactly
when the code of the bus fails, or real hardware is installed and the user's
code succeeds, or it fails in emulation with no handler registered. -/
theorem resources_balanced_iff (w : World) (modld : Modld) (emulation : Bool)
    (userData : Option Nat) :
    ReleasesAll w modld (freshMcon emulation userData) ↔
      ¬ BusOk w modld emulation ∨
      (emulation = false ∧ UserOk w modld emulation) ∨
      (emulation = true ∧ ¬ UserOk w modld emulation ∧
        ¬ IsrTaken w modld) := by
  obtain ⟨hfst, hfailed, hadded⟩ := addBus_added (w := w) modld
    (freshMcon_books emulation userData) rfl
  unfold ReleasesAll lifetime addModule
  dsimp only
  by_cases hbus : BusOk w modld emulation
  · have hr := hfst.mpr hbus
    have hadd := hadded hr
    rw [if_neg (by rw [hr]; simp)]
    rcases skelUserModuleInit_cases hadd with
      ⟨huser, p, hinit, hbooks⟩ | ⟨huser, hinit, hisr, hmapped, u, hbooks⟩
    · rw [if_neg (by rw [hinit]; simp)]
      have hflagged := unmapFlagged_books (w := w) modld hbooks
      cases emulation with
      | false =>
        refine iff_of_true ?_ (.inr (.inl ⟨rfl, huser⟩))
        refine ⟨_, ?_, removeBus_balanced hbus hflagged.release_udata⟩
        simp [removeModule, skelUserModuleRelease, hflagged.emulation,
          hflagged.userData]
      | true =>
        refine iff_of_false ?_ ?_
        · rintro ⟨m', hm', hb⟩
          simp only [Option.bind_some, if_true, removeModule,
            hflagged.emulation, Option.some.injEq] at hm'
          subst hm'
          refine Ledger.not_balanced_of_held (r := .udata p) ?_ hb
          rw [hflagged.udata, if_pos rfl]
          exact Nat.one_ne_zero
        · rintro (h | ⟨h, _⟩ | ⟨_, h, _⟩)
          · exact h hbus
          · cases h
          · exact h huser
    · rw [if_pos hinit]
      cases emulation with
      | false =>
        refine iff_of_false ?_ ?_
        · rintro ⟨m', hm', hb⟩
          simp only [Option.bind_map, Option.bind_eq_some_iff,
            Function.comp_apply, Bool.false_eq_true, if_false,
            Option.some.injEq] at hm'
          obtain ⟨_, hrem, rfl⟩ := hm'
          obtain ⟨p, _, hlive⟩ := removeModule_hardware hbooks hrem hb
          cases hlive
        · rintro (h | ⟨_, h⟩ | ⟨h, _⟩)
          · exact h hbus
          · exact huser h
          · cases h
      | true =>
        have hrem : removeModule w modld
            (skelUserModuleInit w modld
              (addBus w modld (freshMcon true userData)).2).2 =
            some (skelUserModuleInit w modld
              (addBus w modld (freshMcon true userData)).2).2 := by
          unfold removeModule
          rw [if_pos hbooks.emulation]
        rw [hrem]
        have hfinal : ∀ m : Mcon,
            (Option.map (fun m => (false, m)) (some m)).bind
              (fun r : Bool × Mcon => if r.1 = true then
                removeModule w modld r.2 else some r.2) = some m :=
          fun _ => rfl
        rw [hfinal]
        constructor
        · rintro ⟨m', hm', hb⟩
          cases hm'
          refine .inr (.inr ⟨rfl, huser, fun htaken => ?_⟩)
          have hnone := hb.none .isr
          rw [hbooks.isr, hisr, hadd.isr.mpr htaken] at hnone
          cases hnone
        · rintro (h | ⟨h, _⟩ | ⟨_, _, htaken⟩)
          · exact absurd hbus h
          · cases h
          · refine ⟨_, rfl, ?_⟩
            have hno : (addBus w modld
                (freshMcon true userData)).2.noIsr = true := by
              by_contra hfalse
              exact htaken
                (hadd.isr.mp (Bool.eq_false_iff.mpr hfalse))
            refine Books.balanced (u := u) { hbooks with bound := ?_ }
              (hisr.trans hno)
            intro i _
            rw [hmapped]
            exact hadd.unmapped rfl i
  · have hr : (addBus w modld (freshMcon emulation userData)).1 = false := by
      by_contra htrue
      exact hbus (hfst.mp ((Bool.not_eq_false _).mp htrue))
    rw [if_pos hr]
    refine iff_of_true ⟨_, rfl, hfailed hr⟩ (.inl hbus)

/-! ## A module without its second space -/

def withoutJtag : Modld where
  busType := .vme
  vmeAddressSpace := [⟨0x39, 32, false⟩]
  isrFlag := true
  ignoreErrors := false

def obliging : World where
  configVme := true
  configPci := false
  mapOk := fun _ => true
  isrOk := true
  handle := false
  sysbrk := some 1
  foreign := fun _ _ => false

/-- The user's data is freed by the user's code that fails and again by the
removal. -/
theorem udata_freed_twice :
    ¬ ∀ (w : World) (modld : Modld) (emulation : Bool)
      (userData : Option Nat),
      ReleasesAll w modld (freshMcon emulation userData) := by
  intro h
  obtain ⟨m', hm', hb⟩ := h obliging withoutJtag false none
  have hstray : (lifetime obliging withoutJtag (freshMcon false none)).map
      (fun m => m.ledger.stray) = some true := by decide +kernel
  rw [hm'] at hstray
  exact Ledger.not_balanced_of_stray (Option.some.inj hstray) hb

end Coht.Skel
