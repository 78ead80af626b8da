import Coht.Lib.Ledger

/-!
# Probing and removing a carrier (`carriers/tpci200.c`, `ipack.c`)

`tpci200_pci_probe()` takes the configuration region, its mapping and a reference to the
device, and has `tpci200_install()` do the rest. `tpci200_unregister()` releases all of it,
also what the probe has taken.

`Balances` is what the two are to do together: a probe that fails has released what it has
acquired, and the removal releases what is left by one that does not.
-/

namespace Coht.Ipack.Tpci200

open Coht.Lib

def EBUSY : Int := 16
def EFAULT : Int := 14
def ENODEV : Int := 19
def ENOMEM : Int := 12

def TPCI200_NB_SLOT : Nat := 4

inductive Bar
  | cfgMem | ipInterface | ioIdIntSpaces | mem16Space | mem8Space
  deriving DecidableEq

inductive Resource
  | board
  | info
  | slots
  | dev
  | enabled
  | region (bar : Bar)
  | cfgRegs
  | interfaceRegs
  | irq
  | bus
  | busNr
  | device (i : Nat)
  | id (i : Nat)
  | idMem (i : Nat)
  | registered (i : Nat)
  deriving DecidableEq

abbrev Books := Ledger Resource

/-- What the kernel comes back with for the device of a slot; `identified` says that the
identifier of a module is read. -/
structure SlotWorld where
  kzalloc : Bool
  ioremap : Bool
  identified : Bool
  kmalloc : Bool
  deviceRegister : Int

/-- What the kernel comes back with. An error is not 0. -/
structure World where
  kzallocBoard : Bool
  kzallocInfo : Bool
  kzallocSlots : Bool
  kzallocBus : Bool
  requestRegion : Bar → Int
  ioremapCfg : Bool
  ioremapInterface : Bool
  enableDevice : Int
  requestIrq : Int
  idaGet : Int
  slot : Nat → SlotWorld

variable (w : World)

/-! ## The bus (`ipack.c`) -/

/-- `ipack_bus_register()`, which returns no bus when it fails. -/
def ipackBusRegister (books : Books) : Bool × Books :=
  if !w.kzallocBus then (false, books)
  else
    let books := books.acquire .bus
    if w.idaGet < 0 then (false, books.release .bus) else (true, books.acquire .busNr)

/-- `ipack_device_read_id()` -/
def ipackDeviceReadId (i : Nat) (books : Books) : Int × Books :=
  if !(w.slot i).ioremap then (-ENOMEM, books)
  else
    let books := books.acquire (.idMem i)
    if !(w.slot i).identified then (-ENODEV, books.release (.idMem i))
    else if !(w.slot i).kmalloc then (-ENOMEM, books.release (.idMem i))
    else (0, (books.acquire (.id i)).release (.idMem i))

/-- `ipack_device_register()` -/
def ipackDeviceRegister (i : Nat) (books : Books) : Int × Books :=
  let r := ipackDeviceReadId w i books
  if r.1 < 0 then r
  else if (w.slot i).deviceRegister < 0 then
    ((w.slot i).deviceRegister, r.2.release (.id i))
  else ((w.slot i).deviceRegister, r.2.acquire (.registered i))

/-- `ipack_device_unregister()`; the last reference frees the identifier and the record. -/
def ipackDeviceUnregister (i : Nat) (books : Books) : Books :=
  ((books.release (.registered i)).release (.id i)).release (.device i)

/-- `ipack_bus_unregister()`, with the slots whose devices are on the bus. -/
def ipackBusUnregister (members : List Nat) (books : Books) : Books :=
  let books := members.foldl (fun books i => ipackDeviceUnregister i books) books
  (books.release .busNr).release .bus

/-! ## The carrier -/

/-- `tpci200_unregister()` -/
def unregister (books : Books) : Books :=
  let books := books.release .irq
  let books := (books.release .interfaceRegs).release .cfgRegs
  let books := (books.release (.region .ipInterface)).release (.region .ioIdIntSpaces)
  let books := (books.release (.region .mem16Space)).release (.region .mem8Space)
  let books := books.release (.region .cfgMem)
  (books.release .enabled).release .dev

/-- The labels of `tpci200_register()`. -/
def outDisablePci (books : Books) : Books := books.release .enabled

def outReleaseIpSpace (books : Books) : Books :=
  outDisablePci (books.release (.region .ipInterface))

def outReleaseIoidIntSpace (books : Books) : Books :=
  outReleaseIpSpace (books.release (.region .ioIdIntSpaces))

def outReleaseMem8Space (books : Books) : Books :=
  outReleaseIoidIntSpace (books.release (.region .mem8Space))

/-- `tpci200_register()`. There is no result when the registers are written through a mapping
that there is not. -/
def register (books : Books) : Option (Int × Books) :=
  if w.enableDevice < 0 then some (-ENODEV, books)
  else
    let books := books.acquire .enabled
    if w.requestRegion .ipInterface ≠ 0 then
      some (w.requestRegion .ipInterface, outDisablePci books)
    else
      let books := books.acquire (.region .ipInterface)
      if w.requestRegion .ioIdIntSpaces ≠ 0 then
        some (w.requestRegion .ioIdIntSpaces, outReleaseIpSpace books)
      else
        let books := books.acquire (.region .ioIdIntSpaces)
        if w.requestRegion .mem8Space ≠ 0 then
          some (w.requestRegion .mem8Space, outReleaseIoidIntSpace books)
        else
          let books := books.acquire (.region .mem8Space)
          if w.requestRegion .mem16Space ≠ 0 then
            some (w.requestRegion .mem16Space, outReleaseMem8Space books)
          else
            let books := books.acquire (.region .mem16Space)
            if !w.ioremapInterface then none
            else
              let books := books.acquire .interfaceRegs
              if w.requestIrq ≠ 0 then some (w.requestIrq, outReleaseIoidIntSpace books)
              else some (0, books.acquire .irq)

/-- `tpci200_install()` -/
def install (books : Books) : Option (Int × Books) :=
  if !w.kzallocSlots then some (-ENOMEM, books)
  else
    (register w (books.acquire .slots)).map fun r =>
      if r.1 ≠ 0 then (r.1, r.2.release .slots) else (0, r.2)

/-- `tpci200_uninstall()` -/
def uninstall (books : Books) : Books := (unregister books).release .slots

/-- `tpci200_create_device()` -/
def createDevice (i : Nat) (books : Books) : Int × Books :=
  if !(w.slot i).kzalloc then (-ENOMEM, books)
  else ipackDeviceRegister w i (books.acquire (.device i))

/-- The loop over the slots, with those whose devices are on the bus; what the calls return is
ignored. -/
def createDevices : List Nat → List Nat × Books → List Nat × Books
  | [], s => s
  | i :: is, s =>
    let r := createDevice w i s.2
    createDevices is (if r.1 < 0 then s.1 else s.1 ++ [i], r.2)

/-! ## Probe and removal -/

/-- The labels of `tpci200_pci_probe()`. -/
def outErrInfo (books : Books) : Books := books.release .board

def outErrPciRequest (books : Books) : Books :=
  outErrInfo ((books.release .dev).release .info)

def outErrIoremap (books : Books) : Books :=
  outErrPciRequest (books.release (.region .cfgMem))

def outErrInstall (books : Books) : Books := outErrIoremap (books.release .cfgRegs)

def outErrBusRegister (books : Books) : Books := outErrInstall (uninstall books)

structure Probed where
  ret : Int
  books : Books
  members : List Nat := []

/-- `tpci200_pci_probe()` -/
def probe : Option Probed :=
  if !w.kzallocBoard then some { ret := -ENOMEM, books := {} }
  else
    let books := ({} : Books).acquire .board
    if !w.kzallocInfo then some { ret := -ENOMEM, books := outErrInfo books }
    else
      let books := (books.acquire .info).acquire .dev
      if w.requestRegion .cfgMem ≠ 0 then
        some { ret := -EBUSY, books := outErrPciRequest books }
      else
        let books := books.acquire (.region .cfgMem)
        if !w.ioremapCfg then some { ret := -EFAULT, books := outErrIoremap books }
        else
          (install w (books.acquire .cfgRegs)).map fun r =>
            if r.1 ≠ 0 then { ret := -ENODEV, books := outErrInstall r.2 }
            else
              let b := ipackBusRegister w r.2
              if !b.1 then { ret := -EFAULT, books := outErrBusRegister b.2 }
              else
                let s := createDevices w (List.range TPCI200_NB_SLOT) ([], b.2)
                { ret := 0, books := s.2, members := s.1 }

/-- `__tpci200_pci_remove()` -/
def remove (members : List Nat) (books : Books) : Books :=
  ((uninstall (ipackBusUnregister members books)).release .info).release .board

/-- A probe that fails has released what it has acquired, and otherwise the removal does. -/
def Balances : Prop :=
  ∃ r, probe w = some r ∧ (r.ret ≠ 0 → r.books.Balanced) ∧
    (r.ret = 0 → (remove r.members r.books).Balanced)

/-- All goes well up to the regions of the carrier. -/
structure World.HasRegions : Prop where
  board : w.kzallocBoard = true
  info : w.kzallocInfo = true
  cfgMem : w.requestRegion .cfgMem = 0
  cfgRegs : w.ioremapCfg = true
  slots : w.kzallocSlots = true
  enabled : 0 ≤ w.enableDevice
  ipInterface : w.requestRegion .ipInterface = 0
  ioIdIntSpaces : w.requestRegion .ioIdIntSpaces = 0
  mem8Space : w.requestRegion .mem8Space = 0
  mem16Space : w.requestRegion .mem16Space = 0

/-- The device of the slot gets on the bus. -/
def SlotWorld.registers (s : SlotWorld) : Bool :=
  s.ioremap && s.identified && s.kmalloc && 0 ≤ s.deviceRegister

/-- There is no record of the slot, or its device gets on the bus. -/
def SlotWorld.Settled (s : SlotWorld) : Prop := s.kzalloc = true → s.registers = true

/-- From there on nothing fails. -/
structure World.Completes : Prop where
  interfaceRegs : w.ioremapInterface = true
  irq : w.requestIrq = 0
  bus : w.kzallocBus = true
  busNr : 0 ≤ w.idaGet
  settled : ∀ i < TPCI200_NB_SLOT, (w.slot i).Settled

end Coht.Ipack.Tpci200

/-!
## What a carrier leaves behind (`carriers/tpci200.c`, `ipack.c`)

Up to the regions of the carrier every step is undone by the label behind it. After that a
bus that is not registered is cleaned up twice, by `tpci200_uninstall()` and by the labels of
the probe. An interrupt that is not registered leaves two regions and a mapping behind, for
its label is the one of an earlier step; and the registers of the interface are written
whether they are mapped or not. The record of a slot whose device is not registered is never
freed: `probe_balances_iff` says that this is all.
-/

namespace Coht.Ipack.Tpci200

open Coht.Lib

variable (w : World)

/-! ### The slots -/

def World.slotHeld (i : Nat) : List Resource :=
  if !(w.slot i).kzalloc then []
  else if (w.slot i).registers then [.device i, .id i, .registered i]
  else [.device i]

def World.member (i : Nat) : Bool := (w.slot i).kzalloc && (w.slot i).registers

section Slots

variable {w} {i : Nat} {books : Books}

theorem readId_ok (hmap : (w.slot i).ioremap = true) (hid : (w.slot i).identified = true)
    (halloc : (w.slot i).kmalloc = true) :
    ipackDeviceReadId w i books = (0, books.acquire (.id i)) := by
  have hmem : ((books.acquire (.idMem i)).acquire (.id i)).release (.idMem i) =
      books.acquire (.id i) := by
    rw [← Ledger.release_acquire_of_ne (by simp), Ledger.release_acquire]
  simp [ipackDeviceReadId, hmap, hid, halloc, hmem]

theorem readId_error
    (h : ((w.slot i).ioremap && (w.slot i).identified && (w.slot i).kmalloc) = false) :
    ∃ error < 0, ipackDeviceReadId w i books = (error, books) := by
  cases hmap : (w.slot i).ioremap with
  | false => exact ⟨-ENOMEM, by decide, by simp [ipackDeviceReadId, hmap]⟩
  | true =>
    cases hid : (w.slot i).identified with
    | false =>
      exact ⟨-ENODEV, by decide,
        by simp [ipackDeviceReadId, hmap, hid, Ledger.release_acquire]⟩
    | true =>
      have halloc : (w.slot i).kmalloc = false := by simpa [hmap, hid] using h
      exact ⟨-ENOMEM, by decide,
        by simp [ipackDeviceReadId, hmap, hid, halloc, Ledger.release_acquire]⟩

theorem deviceRegister_books (i : Nat) (books : Books) :
    let r := ipackDeviceRegister w i books
    ((w.slot i).registers = true →
        0 ≤ r.1 ∧ r.2 = (books.acquire (.id i)).acquire (.registered i)) ∧
      ((w.slot i).registers = false → r.1 < 0 ∧ r.2 = books) := by
  intro r
  cases hread : (w.slot i).ioremap && (w.slot i).identified && (w.slot i).kmalloc with
  | false =>
    obtain ⟨error, herror, heq⟩ := @readId_error w i books hread
    have hr : r = (error, books) := by
      simp only [r, ipackDeviceRegister, heq, if_pos herror]
    simp [SlotWorld.registers, hread, hr, herror]
  | true =>
    simp only [Bool.and_eq_true] at hread
    obtain ⟨⟨hmap, hid⟩, halloc⟩ := hread
    have heq := @readId_ok w i books hmap hid halloc
    by_cases hreg : (w.slot i).deviceRegister < 0
    · have hr : r = ((w.slot i).deviceRegister, books) := by
        simp [r, ipackDeviceRegister, heq, hreg, Ledger.release_acquire]
      simp [SlotWorld.registers, hmap, hid, halloc, hr, hreg, Int.not_le.mpr hreg]
    · have hr : r = ((w.slot i).deviceRegister,
          (books.acquire (.id i)).acquire (.registered i)) := by
        simp [r, ipackDeviceRegister, heq, hreg]
      simp [SlotWorld.registers, hmap, hid, halloc, hr, hreg, Int.not_lt.mp hreg]

theorem createDevice_books (i : Nat) (books : Books) :
    (createDevice w i books).2 = Ledger.acquireAll (w.slotHeld i) books ∧
      ((createDevice w i books).1 < 0 ↔ w.member i = false) := by
  rw [createDevice, World.slotHeld, World.member]
  cases (w.slot i).kzalloc with
  | false => simp [Ledger.acquireAll, ENOMEM]
  | true =>
    have hregister := deviceRegister_books (w := w) i (books.acquire (.device i))
    cases hreg : (w.slot i).registers with
    | false => simp [hregister.2 hreg, Ledger.acquireAll]
    | true => simp [hregister.1 hreg, Int.not_lt.mpr (hregister.1 hreg).1, Ledger.acquireAll]

theorem createDevices_books (is members : List Nat) (books : Books) :
    createDevices w is (members, books) =
      (members ++ is.filter w.member, Ledger.acquireAll (is.flatMap w.slotHeld) books) := by
  induction is generalizing members books with
  | nil => simp [createDevices, Ledger.acquireAll]
  | cons i is ih =>
    obtain ⟨hbooks, hret⟩ := createDevice_books (w := w) i books
    rw [createDevices, ih, hbooks, List.flatMap_cons, Ledger.acquireAll_append]
    cases hmember : w.member i with
    | false => simp [hret.mpr hmember, hmember]
    | true =>
      have hno : ¬ (createDevice w i books).1 < 0 := by
        rw [hret, hmember]
        decide
      simp [hno, hmember]

def released (members : List Nat) : List Resource :=
  members.flatMap fun i => [.registered i, .id i, .device i]

theorem unregister_members (members : List Nat) (books : Books) :
    members.foldl (fun books i => ipackDeviceUnregister i books) books =
      Ledger.releaseAll (released members) books := by
  induction members generalizing books with
  | nil => rfl
  | cons i is ih =>
    rw [List.foldl_cons, ih]
    exact (@Ledger.releaseAll_append _ _ _
      [Resource.registered i, .id i, .device i] _).symm

end Slots

/-! ### Where the probe ends -/

def carrierHeld : List Resource :=
  [.board, .info, .dev, .region .cfgMem, .cfgRegs, .slots, .enabled, .region .ipInterface,
    .region .ioIdIntSpaces, .region .mem8Space, .region .mem16Space, .interfaceRegs, .irq, .bus,
    .busNr]

def carrierReleased : List Resource :=
  [.busNr, .bus, .irq, .interfaceRegs, .cfgRegs, .region .ipInterface, .region .ioIdIntSpaces,
    .region .mem16Space, .region .mem8Space, .region .cfgMem, .enabled, .dev, .slots, .info,
    .board]

section Probe

variable {w}

theorem probe_of_not_hasRegions (h : ¬ w.HasRegions) :
    ∃ ret, ret ≠ 0 ∧ probe w = some { ret, books := {} } := by
  rw [probe]
  by_cases hboard : w.kzallocBoard = true
  case neg => exact ⟨-ENOMEM, by decide, by simp [hboard]⟩
  by_cases hinfo : w.kzallocInfo = true
  case neg =>
    exact ⟨-ENOMEM, by decide, by simp [hboard, hinfo, outErrInfo, Ledger.release_acquire]⟩
  by_cases hcfg : w.requestRegion .cfgMem = 0
  case neg =>
    exact ⟨-EBUSY, by decide, by
      simp [hboard, hinfo, hcfg, outErrPciRequest, outErrInfo, Ledger.release_acquire]⟩
  by_cases hmap : w.ioremapCfg = true
  case neg =>
    exact ⟨-EFAULT, by decide, by
      simp [hboard, hinfo, hcfg, hmap, outErrIoremap, outErrPciRequest, outErrInfo,
        Ledger.release_acquire]⟩
  -- the installation fails and leaves its books as they were
  have hinstall : ∀ books, ∃ ret, ret ≠ 0 ∧ install w books = some (ret, books) := by
    intro books
    rw [install]
    by_cases hslots : w.kzallocSlots = true
    case neg => exact ⟨-ENOMEM, by decide, by simp [hslots]⟩
    have hregister : ∀ books, ∃ ret, ret ≠ 0 ∧ register w books = some (ret, books) := by
      intro books
      rw [register]
      by_cases henable : w.enableDevice < 0
      case pos => exact ⟨-ENODEV, by decide, by simp [henable]⟩
      by_cases hip : w.requestRegion .ipInterface = 0
      case neg =>
        exact ⟨_, hip, by simp [henable, hip, outDisablePci, Ledger.release_acquire]⟩
      by_cases hio : w.requestRegion .ioIdIntSpaces = 0
      case neg =>
        exact ⟨_, hio, by
          simp [henable, hip, hio, outReleaseIpSpace, outDisablePci, Ledger.release_acquire]⟩
      by_cases hmem8 : w.requestRegion .mem8Space = 0
      case neg =>
        exact ⟨_, hmem8, by
          simp [henable, hip, hio, hmem8, outReleaseIoidIntSpace, outReleaseIpSpace,
            outDisablePci, Ledger.release_acquire]⟩
      have hmem16 : w.requestRegion .mem16Space ≠ 0 := fun hmem16 =>
        h ⟨hboard, hinfo, hcfg, hmap, hslots, Int.not_lt.mp henable, hip, hio, hmem8, hmem16⟩
      exact ⟨_, hmem16, by
        simp [henable, hip, hio, hmem8, hmem16, outReleaseMem8Space, outReleaseIoidIntSpace,
          outReleaseIpSpace, outDisablePci, Ledger.release_acquire]⟩
    obtain ⟨ret, hret, heq⟩ := hregister (books.acquire .slots)
    exact ⟨ret, hret, by simp [hslots, heq, hret, Ledger.release_acquire]⟩
  obtain ⟨ret, hret, heq⟩ := hinstall
    (((((({} : Books).acquire .board).acquire .info).acquire .dev).acquire
      (.region .cfgMem)).acquire .cfgRegs)
  exact ⟨-ENODEV, by decide, by
    simp [hboard, hinfo, hcfg, hmap, heq, hret, outErrInstall, outErrIoremap, outErrPciRequest,
      outErrInfo, Ledger.release_acquire]⟩

theorem register_of_hasRegions (h : w.HasRegions) (books : Books) :
    register w books =
      let books := Ledger.acquireAll
        [.enabled, .region .ipInterface, .region .ioIdIntSpaces, .region .mem8Space,
          .region .mem16Space] books
      if !w.ioremapInterface then none
      else if w.requestIrq ≠ 0 then
        some (w.requestIrq, outReleaseIoidIntSpace (books.acquire .interfaceRegs))
      else some (0, (books.acquire .interfaceRegs).acquire .irq) := by
  simp only [register, Int.not_lt.mpr h.enabled, h.ipInterface, h.ioIdIntSpaces, h.mem8Space,
    h.mem16Space, ne_eq, not_true, if_false, Ledger.acquireAll]

def probeBooks : Books :=
  Ledger.acquireAll [.board, .info, .dev, .region .cfgMem, .cfgRegs] {}

theorem probe_of_hasRegions (h : w.HasRegions) :
    probe w = (install w probeBooks).map fun r =>
      if r.1 ≠ 0 then { ret := -ENODEV, books := outErrInstall r.2 }
      else
        let b := ipackBusRegister w r.2
        if !b.1 then { ret := -EFAULT, books := outErrBusRegister b.2 }
        else
          let s := createDevices w (List.range TPCI200_NB_SLOT) ([], b.2)
          { ret := 0, books := s.2, members := s.1 } := by
  simp only [probe, h.board, h.info, h.cfgMem, h.cfgRegs, Bool.not_true, Bool.false_eq_true,
    ne_eq, not_true, if_false]
  rfl

theorem install_of_hasRegions (h : w.HasRegions) (books : Books) :
    install w books = (register w (books.acquire .slots)).map fun r =>
      if r.1 ≠ 0 then (r.1, r.2.release .slots) else (0, r.2) := by
  simp only [install, h.slots, Bool.not_true, Bool.false_eq_true, if_false]

def mappedBooks : Books :=
  Ledger.acquireAll
    [.slots, .enabled, .region .ipInterface, .region .ioIdIntSpaces, .region .mem8Space,
      .region .mem16Space, .interfaceRegs] probeBooks

theorem probe_of_no_irq (h : w.HasRegions) (hiface : w.ioremapInterface = true)
    (hirq : w.requestIrq ≠ 0) :
    ∃ r, probe w = some r ∧ r.ret ≠ 0 ∧ ¬ r.books.Balanced := by
  refine ⟨{ ret := -ENODEV
            books := outErrInstall ((outReleaseIoidIntSpace mappedBooks).release .slots) },
    ?_, ?_, ?_⟩
  · rw [probe_of_hasRegions h, install_of_hasRegions h, register_of_hasRegions h, hiface]
    simp only [Bool.not_true, Bool.false_eq_true, if_false, ne_eq, hirq, not_false_iff, if_true,
      Option.map_some]
    rfl
  · exact (by decide : (-ENODEV : Int) ≠ 0)
  · exact Ledger.not_balanced_of_held (r := .region .mem16Space) (by decide)

theorem probe_of_no_bus (h : w.HasRegions) (hiface : w.ioremapInterface = true)
    (hirq : w.requestIrq = 0) (hbus : ¬ (w.kzallocBus = true ∧ 0 ≤ w.idaGet)) :
    ∃ r, probe w = some r ∧ r.ret ≠ 0 ∧ ¬ r.books.Balanced := by
  have hregister : ∀ books, ipackBusRegister w books = (false, books) := by
    intro books
    rw [ipackBusRegister]
    cases hkzalloc : w.kzallocBus with
    | false => rfl
    | true =>
      have hida : w.idaGet < 0 := Int.not_le.mp fun hida => hbus ⟨hkzalloc, hida⟩
      simp [hida, Ledger.release_acquire]
  refine ⟨{ ret := -EFAULT, books := outErrBusRegister (mappedBooks.acquire .irq) }, ?_, ?_, ?_⟩
  · rw [probe_of_hasRegions h, install_of_hasRegions h, register_of_hasRegions h, hiface, hirq]
    simp only [Bool.not_true, Bool.false_eq_true, if_false, ne_eq, not_true, Option.map_some,
      hregister, Bool.not_false, if_true]
    rfl
  · exact (by decide : (-EFAULT : Int) ≠ 0)
  · exact Ledger.not_balanced_of_stray (by decide)

theorem probe_of_bus (h : w.HasRegions) (hiface : w.ioremapInterface = true)
    (hirq : w.requestIrq = 0) (hkzalloc : w.kzallocBus = true) (hida : 0 ≤ w.idaGet) :
    probe w = some
      { ret := 0
        books := Ledger.acquireAll
          (carrierHeld ++ (List.range TPCI200_NB_SLOT).flatMap w.slotHeld) {}
        members := (List.range TPCI200_NB_SLOT).filter w.member } := by
  have hregister : ∀ books, ipackBusRegister w books =
      (true, (books.acquire .bus).acquire .busNr) := by
    intro books
    simp [ipackBusRegister, hkzalloc, Int.not_lt.mpr hida]
  rw [probe_of_hasRegions h, install_of_hasRegions h, register_of_hasRegions h, hiface, hirq]
  simp only [Bool.not_true, Bool.false_eq_true, if_false, ne_eq, not_true, Option.map_some,
    hregister, createDevices_books, List.nil_append, Ledger.acquireAll_append]
  rfl

theorem remove_balanced_iff :
    (remove ((List.range TPCI200_NB_SLOT).filter w.member)
      (Ledger.acquireAll (carrierHeld ++ (List.range TPCI200_NB_SLOT).flatMap w.slotHeld)
        {})).Balanced ↔ ∀ i < TPCI200_NB_SLOT, (w.slot i).Settled := by
  have heq : ∀ books : Books, remove ((List.range TPCI200_NB_SLOT).filter w.member) books =
      Ledger.releaseAll
        (released ((List.range TPCI200_NB_SLOT).filter w.member) ++ carrierReleased) books := by
    intro books
    rw [Ledger.releaseAll_append, ← unregister_members]
    rfl
  rw [heq, Ledger.balanced_iff_perm]
  constructor
  · intro hperm i hi hkzalloc
    -- the record of the slot is released, so its device is on the bus
    have hheld : Resource.device i ∈ carrierHeld ++
        (List.range TPCI200_NB_SLOT).flatMap w.slotHeld := by
      refine List.mem_append_right _ (List.mem_flatMap.mpr ⟨i, List.mem_range.mpr hi, ?_⟩)
      rw [World.slotHeld, hkzalloc]
      simp only [Bool.not_true, Bool.false_eq_true, if_false]
      split <;> exact List.mem_cons_self ..
    have hreleased := hperm.symm.subset hheld
    simp [released, carrierReleased, World.member] at hreleased
    exact hreleased.2.2
  · intro hsettled
    have hslots : ∀ is : List Nat, (∀ i ∈ is, (w.slot i).Settled) →
        (released (is.filter w.member)).Perm (is.flatMap w.slotHeld) := by
      intro is his
      induction is with
      | nil => exact .refl _
      | cons i is ih =>
        have hrest := ih fun j hj => his j (List.mem_cons_of_mem _ hj)
        have hi := his i (List.mem_cons_self ..)
        cases hkzalloc : (w.slot i).kzalloc with
        | false => simpa [World.member, World.slotHeld, hkzalloc] using hrest
        | true =>
          have hreg := hi hkzalloc
          have hmember : w.member i = true := by simp [World.member, hkzalloc, hreg]
          have hheld : w.slotHeld i = [.device i, .id i, .registered i] := by
            simp [World.slotHeld, hkzalloc, hreg]
          rw [List.filter_cons_of_pos hmember, List.flatMap_cons, hheld, released,
            List.flatMap_cons]
          have hswap : [Resource.registered i, .id i, .device i].Perm
              [.device i, .id i, .registered i] :=
            List.reverse_perm [Resource.device i, .id i, .registered i]
          exact hswap.append hrest
    refine List.Perm.trans List.perm_append_comm (List.Perm.append ?_ (hslots _ ?_))
    · decide
    · exact fun i hi => hsettled i (List.mem_range.mp hi)

/-- A probe leaves nothing behind, nor does the removal after it, if and only if it fails
before the carrier has its regions, or does not fail and has all devices on the bus for whose
slots it has made a record. -/
theorem probe_balances_iff (w : World) : Balances w ↔ (w.HasRegions → w.Completes) := by
  by_cases h : w.HasRegions
  · rw [forall_prop_of_true h]
    cases hiface : w.ioremapInterface with
    | false =>
      have hnone : probe w = none := by
        rw [probe_of_hasRegions h, install_of_hasRegions h, register_of_hasRegions h, hiface]
        rfl
      refine iff_of_false ?_ fun hcompletes => ?_
      · rintro ⟨r, hr, -⟩
        rw [hnone] at hr
        cases hr
      · rw [hcompletes.interfaceRegs] at hiface
        cases hiface
    | true =>
      by_cases hirq : w.requestIrq = 0
      · by_cases hbus : w.kzallocBus = true ∧ 0 ≤ w.idaGet
        · have hprobe := probe_of_bus h hiface hirq hbus.1 hbus.2
          have hremove := remove_balanced_iff (w := w)
          constructor
          · rintro ⟨r, hr, -, hbalanced⟩
            rw [hprobe] at hr
            cases hr
            exact ⟨hiface, hirq, hbus.1, hbus.2, hremove.mp (hbalanced rfl)⟩
          · intro hcompletes
            exact ⟨_, hprobe, fun hno => absurd rfl hno,
              fun _ => hremove.mpr hcompletes.settled⟩
        · obtain ⟨r, hr, hret, hno⟩ := probe_of_no_bus h hiface hirq hbus
          refine iff_of_false ?_ fun hcompletes => hbus ⟨hcompletes.bus, hcompletes.busNr⟩
          rintro ⟨r', hr', hbalanced, -⟩
          rw [hr] at hr'
          cases hr'
          exact hno (hbalanced hret)
      · obtain ⟨r, hr, hret, hno⟩ := probe_of_no_irq h hiface hirq
        refine iff_of_false ?_ fun hcompletes => hirq hcompletes.irq
        rintro ⟨r', hr', hbalanced, -⟩
        rw [hr] at hr'
        cases hr'
        exact hno (hbalanced hret)
  · obtain ⟨ret, hret, hprobe⟩ := probe_of_not_hasRegions h
    refine iff_of_true ?_ fun hyes => absurd hyes h
    exact ⟨_, hprobe, fun _ => ⟨fun _ => rfl, rfl⟩, fun hzero => absurd hzero hret⟩

end Probe

def onlyIrq (requestIrq : Int) : World :=
  { kzallocBoard := true
    kzallocInfo := true
    kzallocSlots := true
    kzallocBus := true
    requestRegion := fun _ => 0
    ioremapCfg := true
    ioremapInterface := true
    enableDevice := 0
    requestIrq
    idaGet := 0
    slot := fun _ =>
      { kzalloc := true, ioremap := true, identified := true, kmalloc := true,
        deviceRegister := 0 } }

theorem probe_unbalanced : ¬ ∀ w, Balances w := by
  intro h
  obtain ⟨r, hr, hbalanced, -⟩ := h (onlyIrq (-EBUSY))
  obtain ⟨r', hr', hret, hno⟩ := probe_of_no_irq (w := onlyIrq (-EBUSY))
    ⟨rfl, rfl, rfl, rfl, rfl, by decide, rfl, rfl, rfl, rfl⟩ rfl (by decide)
  rw [hr] at hr'
  cases hr'
  exact hno (hbalanced hret)

end Coht.Ipack.Tpci200
