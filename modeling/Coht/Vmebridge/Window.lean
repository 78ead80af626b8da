import Coht.Lib.Word
import Coht.Vmebridge.Tsi148

/-!
# Windows and mappings (`vme_window.c`)

The driver keeps a table of eight hardware windows. An active window owns a
PCI resource, a remapping of it and the register block of the chip, and carries
the list of the logical mappings made on it with a count of them.

Each function of the source is split where it takes and drops a window's
mutex: `createLocked`, `destroyLocked`, `findLocked`, `releaseLocked` and
`closeLocked` are the sections under one lock, `attach` the tail of
`__vme_find_mapping()` that the creation path runs without one. The functions
under the source's names compose the sections for a caller that runs alone;
there the mutex is never contended and `mutex_lock_interruptible()` returns 0.

What the driver gets from the kernel during a call is an `Env`: whether the
allocations succeed, where the PCI resource ends up and what `ioremap()`
answers. Its field `fits` is the one promise used, that a memory resource of
this bus lies below 4 GB, where the 32-bit `pci_addrl` can hold it.
-/

namespace Coht.Vmebridge

/-- `struct resource`; `last` is the field `end`. -/
structure Resource where
  name : Option Nat := none
  start : Nat := 0
  last : Nat := 0
  flags : Nat := 0
  deriving DecidableEq, Repr

def ioresourceMem : Nat := 0x200

/-- The identity of a `struct file`. -/
abbrev File := Nat

/-- `struct mapping`, with the address of the record as `id` and the owner's
`struct file`, `none` for a request from the kernel. -/
structure Mapping where
  id : Nat
  desc : VmeMapping
  file : Option File
  deriving DecidableEq, Repr

/-- `struct window` -/
structure Window where
  active : Bool := false
  rsrc : Resource := {}
  desc : VmeMapping := {}
  mappings : List Mapping := []
  users : Int := 0
  deriving DecidableEq, Repr

/-- The driver's `window_table`, the window registers of the chip and what the
kernel has handed out: the resources on the PCI bus, the remapped areas and
the addresses of the mapping records so far. -/
structure Bridge where
  window : Fin numOutWindows → Window := fun _ => {}
  otrans : Fin numOutWindows → Otrans := fun _ => {}
  regions : List (Nat × Nat) := []
  remaps : List Nat := []
  nextMapping : Nat := 0

/-- What the kernel answers during one call. -/
structure Env where
  kmallocName : Bool
  pciBusAllocResource : Word → Except Errno Nat
  ioremap : Nat → Word → Nat
  kzalloc : Bool
  fits : ∀ {size : Word} {start : Nat}, pciBusAllocResource size = .ok start →
    start < 2 ^ 32 ∧ start + size.toNat ≤ 2 ^ 32

/-- A kernel with room for one resource at 2 GB. -/
def roomyEnv : Env where
  kmallocName := true
  pciBusAllocResource size :=
    if size.toNat ≤ 2 ^ 31 then .ok (2 ^ 31) else .error .enomem
  ioremap start _ := start
  kzalloc := true
  fits := by
    intro size start h
    split at h
    · cases h
      omega
    · cases h

def Resource.range (rsrc : Resource) : Nat × Nat := (rsrc.start, rsrc.last)

def Bridge.setWindow (b : Bridge) (n : Fin numOutWindows) (w : Window) :
    Bridge :=
  { b with window := Function.update b.window n w }

/-! ## Mappings on a window -/

/-- `add_mapping()` -/
def addMapping (env : Env) (n : Fin numOutWindows) (desc : VmeMapping)
    (file : Option File) (b : Bridge) : Rc × Bridge :=
  if env.kzalloc then
    let window := b.window n
    (.ok (), { b.setWindow n { window with
        mappings := window.mappings ++ [⟨b.nextMapping, desc, file⟩]
        users := window.users + 1 } with
      nextMapping := b.nextMapping + 1 })
  else (.error .enomem, b)

/-- The test of `remove_mapping()` on one mapping: a request from the kernel
matches whoever owns it. -/
def Mapping.matches (desc : VmeMapping) (file : Option File) (m : Mapping) :
    Bool :=
  m.desc.vmeAddru == desc.vmeAddru && m.desc.vmeAddrl == desc.vmeAddrl &&
    m.desc.sizeu == desc.sizeu && m.desc.sizel == desc.sizel &&
    m.desc.kernelVa == desc.kernelVa &&
    (file.isNone || m.file == file)

/-- `remove_mapping()`: the first match in list order goes. -/
def removeMapping (window : Window) (desc : VmeMapping) (file : Option File) :
    Rc × Window :=
  if window.mappings.any (Mapping.matches desc file) then
    (.ok (), { window with
      mappings := window.mappings.eraseP (Mapping.matches desc file)
      users := window.users - 1 })
  else (.error .einval, window)

/-! ## Creating and destroying windows -/

/-- The address part of the 64K alignment in `vme_create_window()`. The
address is overwritten before the size is grown by the difference. -/
def alignVmeAddrl (desc : VmeMapping) : VmeMapping :=
  if desc.vmeAddrl &&& 0xffff ≠ 0 then
    let lowaddr := desc.vmeAddrl &&& ~~~0xffff
    let desc := { desc with vmeAddrl := lowaddr }
    { desc with sizel := desc.sizel + (desc.vmeAddrl - lowaddr) }
  else desc

/-- The size part of the 64K alignment in `vme_create_window()`. -/
def roundSizel (desc : VmeMapping) : VmeMapping :=
  if desc.sizel &&& 0xffff ≠ 0 then
    { desc with sizel := (desc.sizel + 0x10000) &&& ~~~0xffff }
  else desc

/-- The resource of window `n` once `pci_bus_alloc_resource()` has placed it. A
name that cannot be allocated is not fatal. -/
def windowRsrc (env : Env) (n : Fin numOutWindows) (start : Nat)
    (sizel : Word) : Resource where
  name := if env.kmallocName then some n.val else none
  start := start
  last := start + sizel.toNat - 1
  flags := ioresourceMem

/-- `vme_create_window()` under the window's lock. The failing exits undo in
the order of the labels `out_unmap`, `out_release` and `out_free`. -/
def createLocked (env : Env) (n : Fin numOutWindows) (desc : VmeMapping)
    (b : Bridge) : Rc × VmeMapping × Bridge :=
  let window := b.window n
  if window.active then (.error .ebusy, desc, b)
  else
    match env.pciBusAllocResource desc.sizel with
    | .error rc => (.error rc, desc, b.setWindow n { window with rsrc := {} })
    | .ok start =>
      let rsrc := windowRsrc env n start desc.sizel
      let regions := rsrc.range :: b.regions
      let desc := { desc with kernelVa := env.ioremap start desc.sizel }
      if desc.kernelVa = 0 then
        (.error .enomem, desc,
          { b.setWindow n { window with rsrc := {} } with
            regions := regions.erase rsrc.range })
      else
        let remaps := desc.kernelVa :: b.remaps
        let desc := { desc with pciAddrl := BitVec.ofNat 32 start }
        match tsi148CreateWindow desc (b.otrans n) with
        | (.error rc, desc, regs) =>
          (.error rc, desc,
            { b.setWindow n { window with rsrc := {} } with
              otrans := Function.update b.otrans n regs
              remaps := remaps.erase desc.kernelVa
              regions := regions.erase rsrc.range })
        | (.ok _, desc, regs) =>
          (.ok (), desc,
            { b.setWindow n { window with
                rsrc := rsrc
                desc := desc
                active := true } with
              otrans := Function.update b.otrans n regs
              remaps := remaps
              regions := regions })

/-- `vme_create_window()` -/
def vmeCreateWindow (env : Env) (desc : VmeMapping) (b : Bridge) :
    Rc × VmeMapping × Bridge :=
  match windowIndex? desc.windowNum with
  | none => (.error .einval, desc, b)
  | some n =>
    if desc.sizel = 0 then (.error .einval, desc, b)
    else createLocked env n (roundSizel (alignVmeAddrl desc)) b

/-- `vme_destroy_window()` under the window's lock. -/
def destroyLocked (n : Fin numOutWindows) (b : Bridge) : Rc × Bridge :=
  let window := b.window n
  if window.active = false then (.error .einval, b)
  else
    let window :=
      if window.users > 0 then
        { window with
          mappings := []
          users := window.users - window.mappings.length }
      else window
    let remaps := b.remaps.erase window.desc.kernelVa
    let (desc, otrans) :=
      tsi148RemoveWindow { window.desc with kernelVa := 0 } b.otrans
    let regions := b.regions.erase window.rsrc.range
    (.ok (), { b.setWindow n { window with
        active := false
        desc := desc
        rsrc := {} } with
      otrans := otrans
      remaps := remaps
      regions := regions })

/-- `vme_destroy_window()` -/
def vmeDestroyWindow (windowNum : Int) (b : Bridge) : Rc × Bridge :=
  match windowIndex? windowNum with
  | none => (.error .einval, b)
  | some n => destroyLocked n b

/-! ## Finding a mapping -/

/-- The size `vme_optimize_window_size()` gives a window of an address space
it maps whole, 0 for the others. -/
def wholeSpace : VmeAddressModifier → Word
  | .a24UserMblt | .a24UserDataSct | .a24UserPrgSct | .a24UserBlt
  | .a24SupMblt | .a24SupDataSct | .a24SupPrgSct | .a24SupBlt => 0x1000000
  | .a16User | .a16Lck | .a16Sup => 0x10000
  | _ => 0

/-- `vme_optimize_window_size()` -/
def vmeOptimizeWindowSize (desc : VmeMapping) : VmeMapping :=
  let resize := wholeSpace desc.am
  if resize = 0 then desc
  else
    { desc with sizeu := 0, sizel := resize, vmeAddru := 0, vmeAddrl := 0 }

/-- `vme_mapping_sanity_check()` -/
def vmeMappingSanityCheck (mapping : VmeMapping) : Rc :=
  let err : Bool :=
    match mapping.am with
    | .a16User | .a16Lck | .a16Sup =>
      mapping.vmeAddru ≠ 0 ∨ mapping.vmeAddrl &&& ~~~0xffff ≠ 0
    | .a24UserMblt | .a24UserDataSct | .a24UserPrgSct | .a24UserBlt
    | .a24SupMblt | .a24SupDataSct | .a24SupPrgSct | .a24SupBlt =>
      mapping.vmeAddru ≠ 0 ∨ mapping.vmeAddrl &&& ~~~0xffffff ≠ 0
    | .a32Lck | .a32UserMblt | .a32UserDataSct | .a32UserPrgSct | .a32UserBlt
    | .a32SupMblt | .a32SupDataSct | .a32SupPrgSct | .a32SupBlt =>
      mapping.vmeAddru ≠ 0
    | .a40Sct | .a40Lck | .a40Blt => mapping.vmeAddru &&& ~~~0xff ≠ 0
    | _ => false
  if err then .error .einval else .ok ()

/-- The checks `__vme_find_mapping()` makes on one window. The boundary test
adds in 32 bits. -/
def Window.matches (window : Window) (m : VmeMapping) : Bool :=
  window.active &&
    window.desc.windowEnabled != 0 &&
    window.desc.vmeAddru == 0 && window.desc.sizeu == 0 &&
    window.desc.am == m.am && window.desc.dataWidth == m.dataWidth &&
    !(decide (window.desc.vmeAddrl > m.vmeAddrl) ||
      decide (window.desc.vmeAddrl + window.desc.sizel <
        m.vmeAddrl + m.sizel)) &&
    !(window.desc.am == .twoE6U && window.desc.v2esstMode != m.v2esstMode)

/-- The mapping of a request on window `n`: the virtual and the PCI address
are the window's plus the same offset. -/
def placeOn (window : Window) (n : Fin numOutWindows) (m : VmeMapping) :
    VmeMapping :=
  let offset := m.vmeAddrl - window.desc.vmeAddrl
  { m with
    kernelVa := window.desc.kernelVa + offset.toNat
    pciAddrl := window.desc.pciAddrl + offset
    windowNum := n.val }

/-- The common tail of both paths of `__vme_find_mapping()`: place the mapping
on window `n` and add it there. -/
def attach (env : Env) (file : Option File) (n : Fin numOutWindows)
    (m : VmeMapping) (b : Bridge) : Rc × VmeMapping × Bridge :=
  let m := placeOn (b.window n) n m
  let (rc, b) := addMapping env n m file b
  (rc, m, b)

/-- One round of the search loop, under the window's lock: `none` when the
window does not match and the loop goes on. -/
def findLocked (env : Env) (file : Option File) (n : Fin numOutWindows)
    (m : VmeMapping) (b : Bridge) : Option (Rc × VmeMapping × Bridge) :=
  if (b.window n).matches m then some (attach env file n m b) else none

/-- The search loop: the first window that matches. -/
def findWindow (b : Bridge) (m : VmeMapping) : Option (Fin numOutWindows) :=
  (List.finRange numOutWindows).find? fun n => (b.window n).matches m

/-- The loop over `window->active`: the first unused window. -/
def firstUnused (b : Bridge) : Option (Fin numOutWindows) :=
  (List.finRange numOutWindows).find? fun n => !(b.window n).active

/-- The private descriptor `__vme_find_mapping()` creates a window from. -/
def windowFor (m : VmeMapping) (n : Fin numOutWindows) : VmeMapping :=
  vmeOptimizeWindowSize { m with windowNum := n.val }

/-- `__vme_find_mapping()` -/
def vmeFindMapping (env : Env) (m : VmeMapping) (force : Bool)
    (file : Option File) (b : Bridge) : Rc × VmeMapping × Bridge :=
  match vmeMappingSanityCheck m with
  | .error rc => (.error rc, m, b)
  | .ok _ =>
    match findWindow b m with
    | some n => attach env file n m b
    | none =>
      if force = false then (.error .ebusy, m, b)
      else
        match firstUnused b with
        | none => (.error .ebusy, m, b)
        | some n =>
          match vmeCreateWindow env (windowFor m n) b with
          | (.error rc, _, b) => (.error rc, m, b)
          | (.ok _, _, b) => attach env file n m b

/-! ## Releasing mappings -/

/-- `__vme_release_mapping()` under the window's lock. -/
def releaseLocked (n : Fin numOutWindows) (desc : VmeMapping)
    (file : Option File) (b : Bridge) : Rc × Bridge :=
  if (b.window n).active = false then (.error .einval, b)
  else
    let (rc, window) := removeMapping (b.window n) desc file
    (rc, b.setWindow n window)

/-- `__vme_release_mapping()`: with `force` the last user takes the window
down, after the lock has been dropped. -/
def vmeReleaseMapping (desc : VmeMapping) (force : Bool) (file : Option File)
    (b : Bridge) : Rc × Bridge :=
  match windowIndex? desc.windowNum with
  | none => (.error .einval, b)
  | some n =>
    match releaseLocked n desc file b with
    | (.error rc, b) => (.error rc, b)
    | (.ok _, b) =>
      if (b.window n).users = 0 ∧ force then vmeDestroyWindow desc.windowNum b
      else (.ok (), b)

/-- One round of `vme_window_release()`, under the window's lock. -/
def closeLocked (file : File) (n : Fin numOutWindows) (b : Bridge) : Bridge :=
  let window := b.window n
  if window.active = false ∨ window.mappings = [] then b
  else
    b.setWindow n { window with
      mappings := window.mappings.filter fun m => m.file != some file
      users := window.users -
        (window.mappings.filter fun m => m.file == some file).length }

/-- `vme_window_release()` -/
def vmeWindowRelease (file : File) (b : Bridge) : Bridge :=
  (List.finRange numOutWindows).foldl (fun b n => closeLocked file n b) b

/-- `vme_get_window_attr()` -/
def vmeGetWindowAttr (desc : VmeMapping) (b : Bridge) : Rc × VmeMapping :=
  match windowIndex? desc.windowNum with
  | none => (.error .einval, desc)
  | some n => (.ok (), tsi148GetWindowAttr (b.window n).desc (b.otrans n))

end Coht.Vmebridge
