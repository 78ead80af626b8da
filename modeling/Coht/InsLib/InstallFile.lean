import Coht.InsLib.Attributes
import Mathlib.Logic.Function.Basic

/-!
# Reading an install file (`libinst.c`)

`doElement` walks over the elements of the file and builds the driver tree. The
memory of the tree is three lists here, one each for the descriptors of hosts,
drivers and modules, in the order of their allocation, and a pointer to a
descriptor is its index.

What the walk knows of the elements it has come from is in static pointers.
`pcima`, `vmema` and `carma` are one here, `ma`, with the kind of the address for
an argument. Such a pointer leads to the address of a module, a block of memory
of its own, and is named by the module. Nothing takes the pointers back at the
end of a module.
-/

namespace Coht.InsLib

inductive InsLibBusType
  | notSet
  | carrier
  | vme
  | pmc
  | pci
  deriving DecidableEq, Repr

/-! ## The attributes of each element -/

section Tables

def hostTable : Table HostFields where
  rows :=
    [textRow .host 32
       ⟨(·.hostName), fun r v => { r with hostName := v }, fun _ _ => rfl⟩,
     textRow .comment 128
       ⟨(·.comment), fun r v => { r with comment := v }, fun _ _ => rfl⟩]
  keys := by decide
  known := by decide
  apart := by
    simp only [List.forall_mem_cons, List.not_mem_nil]
    simp [textRow]

/-- Only the first character is looked at, and what is not `y` is a no. -/
def drivergenRow : Row DrvrFields where
  key := .drivergen
  V := BitVec 32
  take := reading fun s =>
    .value (if s.head? = some 'y'.toNat.toUInt8 then 1 else 0) 0
  set r v := { r with isdg := v }
  get := (·.isdg)
  holds v s := s.head? = some 'y'.toNat.toUInt8 ∧ v = 1 ∨
    s.head? = some 'n'.toNat.toUInt8 ∧ v = 0
  fits s := s.head? = some 'y'.toNat.toUInt8 ∨ s.head? = some 'n'.toNat.toUInt8
  get_set _ _ _ := rfl
  taken := by
    intro a p hfits
    have hne : a.value ≠ [] := by
      intro hnil
      rw [hnil] at hfits
      rcases hfits with h | h <;> cases h
    rw [XmlAttr.given_eq hne]
    refine .inl ⟨_, 0, rfl, ?_⟩
    rcases hfits with h | h
    · exact .inl ⟨h, if_pos h⟩
    · exact .inr ⟨h, by rw [h]; rfl⟩
  failed_errors := by
    intro p n h
    cases p <;> cases h

def drvrTable : Table DrvrFields where
  rows :=
    [textRow .name 32
       ⟨(·.drvrName), fun r v => { r with drvrName := v }, fun _ _ => rfl⟩,
     textRow .comment 128
       ⟨(·.comment), fun r v => { r with comment := v }, fun _ _ => rfl⟩,
     numberRow .installDebugLevel
       ⟨(·.debugFlags), fun r v => { r with debugFlags := v }, fun _ _ => rfl⟩,
     numberRow .emulationFlag
       ⟨(·.emulationFlags), fun r v => { r with emulationFlags := v },
         fun _ _ => rfl⟩,
     drivergenRow]
  keys := by decide
  known := by decide
  apart := by
    simp only [List.forall_mem_cons, List.not_mem_nil]
    simp [textRow, numberRow, checkedRow, drivergenRow]

/-- What the attributes of a module are written to. -/
structure ModlRec where
  fields : ModlFields := {}
  busType : InsLibBusType := .notSet
  extra : Option CString := none
  deriving DecidableEq, Repr

def busTypeWord (s : CString) : Option InsLibBusType :=
  if s = ascii "VME" then some .vme
  else if s = ascii "PCI" then some .pci
  else if s = ascii "PMC" then some .pmc
  else if s = ascii "CAR" then some .carrier
  else if s = ascii "MODULBUS" ∨ s = ascii "IP" then some .carrier
  else none

def InsLibMAX_MODULES : BitVec 32 := 16

def logicalModuleNumberRow : Row ModlRec :=
  let number := checkedRow .logicalModuleNumber
    ⟨(·.fields.moduleNumber),
      fun (r : ModlRec) v => { r with fields := { r.fields with moduleNumber := v } },
      fun _ _ => rfl⟩
    (fun v => decide (v > InsLibMAX_MODULES)) false
  { number with
    take := reading fun s =>
      if s.length = 0 then .failed 1 else number.take (some s)
    taken := by
      intro a p hfits
      obtain ⟨v, hv⟩ := hfits
      have hlen : ¬ a.value.length = 0 := fun h =>
        hv.ne_nil (List.length_eq_zero_iff.mp h)
      have htaken := number.taken (p := p) ⟨v, hv⟩
      rw [XmlAttr.given_eq hv.ne_nil] at htaken ⊢
      simp only [reading, if_neg hlen]
      exact htaken
    failed_errors := by
      intro p n h
      cases p with
      | none => cases h
      | some s =>
        simp only [reading] at h
        split at h
        · cases h
          exact Nat.one_pos
        · exact number.failed_errors h }

/-- The memory for the text is one byte short of it, and the terminating zero is
written behind the end. `mem` says if there is any memory. -/
def extraRow (mem : Bool) : Row ModlRec where
  key := .extra
  V := Option CString
  take := reading fun _ => if mem then .fault else .failed 1
  set r v := { r with extra := v }
  get := (·.extra)
  holds v s := v = some s
  fits _ := False
  get_set _ _ _ := rfl
  taken h := h.elim
  failed_errors := by
    intro p n h
    cases p with
    | none => cases h
    | some s =>
      simp only [reading] at h
      cases mem
      · cases h
        exact Nat.one_pos
      · cases h

/-- The attribute is a flag, whatever its text. -/
def ignoreInstallErrorsRow : Row ModlRec where
  key := .ignoreInstallErrors
  V := BitVec 32
  take _ := .value 1 0
  set r v := { r with fields := { r.fields with ignoreErrors := v } }
  get := (·.fields.ignoreErrors)
  holds v _ := v = 1
  fits _ := True
  get_set _ _ _ := rfl
  taken _ := .inl ⟨1, 0, rfl, rfl⟩
  failed_errors h := by cases h

def modlTable (mem : Bool) : Table ModlRec where
  rows :=
    [wordRow .busType
       ⟨(·.busType), fun r v => { r with busType := v }, fun _ _ => rfl⟩
       busTypeWord (by decide),
     logicalModuleNumberRow,
     extraRow mem,
     textRow .comment 128
       ⟨(·.fields.comment),
         fun r v => { r with fields := { r.fields with comment := v } },
         fun _ _ => rfl⟩,
     ignoreInstallErrorsRow,
     textRow .name 32
       ⟨(·.fields.moduleName),
         fun r v => { r with fields := { r.fields with moduleName := v } },
         fun _ _ => rfl⟩]
  keys := by cases mem <;> decide
  known := by cases mem <;> decide
  apart := by
    simp only [List.forall_mem_cons, List.not_mem_nil]
    simp [wordRow, logicalModuleNumberRow, checkedRow, extraRow, textRow,
      ignoreInstallErrorsRow]

def intrTable : Table InsLibIntrDesc where
  rows :=
    [checkedRow .vector
       ⟨(·.vector), fun r v => { r with vector := v }, fun _ _ => rfl⟩
       (fun v => decide (v < 1 ∨ v > 255)) false,
     checkedRow .level
       ⟨(·.level), fun r v => { r with level := v }, fun _ _ => rfl⟩
       (fun v => decide (v < 1 ∨ v > 8)) false,
     textRow .comment 128
       ⟨(·.comment), fun r v => { r with comment := v }, fun _ _ => rfl⟩]
  keys := by decide
  known := by decide
  apart := by
    simp only [List.forall_mem_cons, List.not_mem_nil]
    simp [checkedRow, textRow]

def pciTable : Table PciFields where
  rows :=
    [checkedRow .busNumber
       ⟨(·.busNumber), fun r v => { r with busNumber := v }, fun _ _ => rfl⟩
       (fun v => decide (v > 16)) true,
     checkedRow .slotNumber
       ⟨(·.slotNumber), fun r v => { r with slotNumber := v }, fun _ _ => rfl⟩
       (fun v => decide (v > 16)) true,
     numberRow .vendorId
       ⟨(·.vendorId), fun r v => { r with vendorId := v }, fun _ _ => rfl⟩,
     numberRow .deviceId
       ⟨(·.deviceId), fun r v => { r with deviceId := v }, fun _ _ => rfl⟩,
     numberRow .subvendorId
       ⟨(·.subVendorId), fun r v => { r with subVendorId := v }, fun _ _ => rfl⟩,
     numberRow .subdeviceId
       ⟨(·.subDeviceId), fun r v => { r with subDeviceId := v }, fun _ _ => rfl⟩,
     textRow .comment 128
       ⟨(·.comment), fun r v => { r with comment := v }, fun _ _ => rfl⟩]
  keys := by decide
  known := by decide
  apart := by
    simp only [List.forall_mem_cons, List.not_mem_nil]
    simp [checkedRow, numberRow, textRow]

def vmeTable : Table VmeFields where
  rows :=
    [textRow .comment 128
       ⟨(·.comment), fun r v => { r with comment := v }, fun _ _ => rfl⟩]
  keys := by decide
  known := by decide
  apart := by
    simp only [List.forall_mem_cons, List.not_mem_nil]
    simp [textRow]

def carTable : Table CarFields where
  rows :=
    [textRow .drvrName 32
       ⟨(·.driverName), fun r v => { r with driverName := v }, fun _ _ => rfl⟩,
     checkedRow .motherboardNumber
       ⟨(·.motherboardNumber), fun r v => { r with motherboardNumber := v },
         fun _ _ => rfl⟩
       (fun v => decide (v < 1 ∨ v > 16)) true,
     checkedRow .slotNumber
       ⟨(·.slotNumber), fun r v => { r with slotNumber := v }, fun _ _ => rfl⟩
       (fun v => decide (v < 1 ∨ v > 8)) true,
     textRow .comment 128
       ⟨(·.comment), fun r v => { r with comment := v }, fun _ _ => rfl⟩]
  keys := by decide
  known := by decide
  apart := by
    simp only [List.forall_mem_cons, List.not_mem_nil]
    simp [checkedRow, textRow]

/-- A field of an address space, where the loop has the module address at hand
too. -/
def Field.ofSpace {α σ V : Type} (f : Field σ V) : Field (α × σ) V where
  get r := f.get r.2
  set r v := (r.1, f.set r.2 v)
  get_set r v := f.get_set r.2 v

def endianWord (s : CString) : Option InsLibEndian :=
  if s = ascii "BIG" then some .big
  else if s = ascii "LITTLE" then some .little
  else none

def pciSpaceTable : Table (PciFields × InsLibPciAddressSpace) where
  rows :=
    [checkedRow .bar
       (Field.ofSpace ⟨(·.baseAddressRegister),
         fun r v => { r with baseAddressRegister := v }, fun _ _ => rfl⟩)
       (fun v => decide (v > 6)) false,
     wordRow .endian
       (Field.ofSpace ⟨(·.endian), fun r v => { r with endian := v },
         fun _ _ => rfl⟩)
       endianWord (by decide),
     textRow .comment 128
       (Field.ofSpace ⟨(·.comment), fun r v => { r with comment := v },
         fun _ _ => rfl⟩)]
  keys := by decide
  known := by decide
  apart := by
    simp only [List.forall_mem_cons, List.not_mem_nil]
    simp [checkedRow, wordRow, textRow, Field.ofSpace]

def modifierRow : Row (VmeFields × InsLibVmeAddressSpace) :=
  checkedRow .modifier
    (Field.ofSpace ⟨(·.addressModifier),
      fun r v => { r with addressModifier := v }, fun _ _ => rfl⟩)
    (fun v => decide (v > 0xFF)) false

def vmeSpaceTable : Table (VmeFields × InsLibVmeAddressSpace) where
  rows :=
    [modifierRow,
     checkedRow .dataWidth
       (Field.ofSpace ⟨(·.dataWidth), fun r v => { r with dataWidth := v },
         fun _ _ => rfl⟩)
       (fun v => decide (v ≠ 16 ∧ v ≠ 32)) false,
     numberRow .windowSize
       (Field.ofSpace ⟨(·.windowSize), fun r v => { r with windowSize := v },
         fun _ _ => rfl⟩),
     numberRow .address
       (Field.ofSpace ⟨(·.baseAddress), fun r v => { r with baseAddress := v },
         fun _ _ => rfl⟩),
     numberRow .freeFlag
       (Field.ofSpace ⟨(·.freeModifierFlag),
         fun r v => { r with freeModifierFlag := v }, fun _ _ => rfl⟩),
     textRow .comment 128
       (Field.ofSpace ⟨(·.comment), fun r v => { r with comment := v },
         fun _ _ => rfl⟩)]
  keys := by decide
  known := by decide
  apart := by
    simp only [List.forall_mem_cons, List.not_mem_nil]
    simp [modifierRow, checkedRow, numberRow, textRow, Field.ofSpace]

/-- `strncpy(carma->Comment,pvalu,InsLibCOMMENT_SIZE)`: the comment of an address
space goes to the carrier. -/
def carSpaceCommentRow : Row (CarFields × InsLibCarAddressSpace) where
  key := .comment
  V := CString
  take := reading fun s => .value (s.take 128) 0
  set r v := ({ r.1 with comment := v }, r.2)
  get r := r.2.comment
  holds v s := v = s ∧ s ≠ [] ∧ s.length < 128
  fits _ := False
  get_set h := h.elim
  taken h := h.elim
  failed_errors := by
    intro p n h
    cases p <;> cases h

def carSpaceTable : Table (CarFields × InsLibCarAddressSpace) where
  rows :=
    [checkedRow .dataWidth
       (Field.ofSpace ⟨(·.dataWidth), fun r v => { r with dataWidth := v },
         fun _ _ => rfl⟩)
       (fun v => decide (v ≠ 16 ∧ v ≠ 32)) false,
     numberRow .windowSize
       (Field.ofSpace ⟨(·.windowSize), fun r v => { r with windowSize := v },
         fun _ _ => rfl⟩),
     carSpaceCommentRow]
  keys := by decide
  known := by decide
  apart := by
    simp only [List.forall_mem_cons, List.not_mem_nil]
    simp [checkedRow, numberRow, carSpaceCommentRow, Field.ofSpace]

end Tables

/-! ## The tree while it is built -/

/-- The three kinds of module addresses. -/
inductive Kind
  | pci
  | vme
  | car
  deriving DecidableEq, Repr

abbrev Kind.Fields : Kind → Type
  | .pci => PciFields
  | .vme => VmeFields
  | .car => CarFields

abbrev Kind.Space : Kind → Type
  | .pci => InsLibPciAddressSpace
  | .vme => InsLibVmeAddressSpace
  | .car => InsLibCarAddressSpace

/-- Memory that is all zero. -/
def Kind.noFields : (k : Kind) → k.Fields
  | .pci => {}
  | .vme => {}
  | .car => {}

def Kind.noSpace : (k : Kind) → k.Space
  | .pci => {}
  | .vme => {}
  | .car => {}

abbrev Kind.Address (k : Kind) : Type := ModuleAddress User k.Space k.Fields

/-- `InsLibModlDesc`. `moduleAddress` says what the pointer leads to, `address` what
is there. -/
structure ModlNode where
  desc : ModlRec
  isr : Option InsLibIntrDesc := none
  moduleAddress : Option Kind := none
  address : (k : Kind) → k.Address := fun k => ⟨k.noFields, []⟩

/-- `InsLibDrvrDesc`, with its list of modules. -/
structure DrvrNode where
  desc : DrvrFields
  modules : List Nat := []

/-- `InsLibHostDesc`, with its list of drivers. -/
structure HostNode where
  desc : HostFields
  drivers : List Nat := []

/-- `InsLibErrorCount`, the memory of the tree, and the static pointers of
`DoElement()`. `allocs` is how often memory has been asked for. -/
structure State where
  errors : Nat := 0
  allocs : Nat := 0
  hosts : List HostNode := []
  drvrs : List DrvrNode := []
  modls : List ModlNode := []
  hostd : Option Nat := none
  drvrd : Option Nat := none
  modld : Option Nat := none
  /-- `pcima`, `vmema`, `carma` -/
  ma : Kind → Option Nat := fun _ => none
  /-- `pcias`, `caras`: the last one of the list of that address. -/
  last : Kind → Option Nat := fun _ => none

def ModlNode.setAddress (m : ModlNode) {k : Kind} (a : k.Address) : ModlNode :=
  { m with address := Function.update m.address k a }

def State.setAddress (s : State) (q : Nat) {k : Kind} (a : k.Address) : State :=
  { s with modls := s.modls.modify q (·.setAddress a) }

/-- A pointer of `DoElement()` that has been set. -/
def State.setMa (s : State) (k : Kind) (p : Option Nat) : State :=
  { s with ma := Function.update s.ma k p }

/-- What a function returns: a pointer or null. Where it does not return, it has
gone where no memory of its own is. -/
inductive Outcome (α : Type)
  | ok (a : α)
  | null (errors : Nat)
  | fault (errors : Nat)

def Outcome.bind {α β : Type} (o : Outcome α) (f : α → Outcome β) : Outcome β :=
  match o with
  | .ok a => f a
  | .null errors => .null errors
  | .fault errors => .fault errors

/-- Most functions do not care how their loop ended. -/
def Looped.andThen {R α : Type} (l : Looped R) (f : R → Nat → Outcome α) :
    Outcome α :=
  match l with
  | .done r errors | .left r errors => f r errors
  | .failed errors => .null errors
  | .fault errors => .fault errors

/-! ## Hosts, drivers and modules -/

section Walk

variable (mem : Nat → Bool)

def handleInstallNode (prop : List XmlAttr) (s : State) : Outcome State :=
  if mem s.allocs then
    (attrLoop hostTable.rows prop none {} s.errors).andThen fun desc errors =>
      .ok { s with
        errors := errors + (if desc.hostName.length = 0 then 1 else 0)
        allocs := s.allocs + 1
        hosts := s.hosts ++ [⟨desc, []⟩]
        hostd := some s.hosts.length }
  else .null (s.errors + 1)

/-- Behind the last driver of the list. -/
def addDriverNode (dd : Nat) (hd : HostNode) : HostNode :=
  { hd with drivers := hd.drivers ++ [dd] }

def handleDriverNode (prop : List XmlAttr) (hostd : Nat) (s : State) :
    Outcome State :=
  if mem s.allocs then
    (attrLoop drvrTable.rows prop none { isdg := -1 } s.errors).andThen
      fun desc errors =>
        .ok { s with
          errors := errors + (if desc.drvrName.length < 1 then 1 else 0)
          allocs := s.allocs + 1
          hosts := s.hosts.modify hostd (addDriverNode s.drvrs.length)
          drvrs := s.drvrs ++ [⟨desc, []⟩]
          drvrd := some s.drvrs.length }
  else .null (s.errors + 1)

/-- Behind the last module of the list. -/
def addModuleNode (nmd : Nat) (dd : DrvrNode) : DrvrNode :=
  { desc := { dd.desc with moduleCount := dd.desc.moduleCount + 1 }
    modules := dd.modules ++ [nmd] }

def handleModuleNode (prop : List XmlAttr) (drvrd : Nat) (s : State) :
    Outcome State :=
  if mem s.allocs then
    (attrLoop (modlTable (mem (s.allocs + 1))).rows prop none {} s.errors).andThen
      fun desc errors =>
        .ok { s with
          errors := errors + (if desc.busType = .notSet then 1 else 0)
          allocs := s.allocs + 1
          drvrs := s.drvrs.modify drvrd (addModuleNode s.modls.length)
          modls := s.modls ++ [{ desc }]
          modld := some s.modls.length }
  else .null (s.errors + 1)

/-- The branch of `DoElement()` for INTERRUPT. -/
def doInterrupt (prop : List XmlAttr) (pvalu : Option CString) (s : State) :
    Outcome State :=
  match s.modld with
  | none => .null (s.errors + 1)
  | some i =>
    if mem s.allocs then
      (attrLoop intrTable.rows prop pvalu { isrFlag := 1 } s.errors).andThen
        fun isr errors =>
          .ok { s with
            errors := errors
            allocs := s.allocs + 1
            modls := s.modls.modify i fun m => { m with isr := some isr } }
    else .null (s.errors + 1)

/-! ## Module addresses -/

/-- How the functions for the three kinds of addresses differ: the bus types they
are for, if another one is only reported, and what is missing after the loop. -/
structure AddressTag (k : Kind) where
  accepts : InsLibBusType → Bool
  onlyReports : Bool
  table : Table k.Fields
  missing : List (k.Fields → Bool)

/-- An address that fails is freed. The module still points to it then, and the
static pointer is null. -/
def parseAddressTag {k : Kind} (t : AddressTag k) (prop : List XmlAttr)
    (s : State) : Outcome State :=
  match s.modld with
  | none =>
    if t.onlyReports then .fault (s.errors + 1)
    else .ok { s.setMa k none with errors := s.errors + 1 }
  | some i =>
    match s.modls[i]? with
    | none => .fault s.errors
    | some md =>
      let wrongBus := !t.accepts md.desc.busType
      if wrongBus && !t.onlyReports then
        .ok { s.setMa k none with errors := s.errors + 1 }
      else
        let errors := s.errors + wrongBus.toNat
        if !mem s.allocs then
          .ok { s.setMa k none with
            errors := errors + 1
            allocs := s.allocs + 1 }
        else if md.moduleAddress.isSome then
          .ok { s.setMa k none with
            errors := errors + 1
            allocs := s.allocs + 1 }
        else
          let parsed (fields : k.Fields) (errors : Nat) (p : Option Nat) :=
            { s.setMa k p with
              errors := errors
              allocs := s.allocs + 1
              modls := s.modls.modify i fun m =>
                { m.setAddress (k := k) ⟨fields, []⟩ with
                  moduleAddress := some k } }
          match attrLoop t.table.rows prop none k.noFields errors with
          | .left fields errors => .ok (parsed fields errors (some i))
          | .done fields errors =>
            if t.missing.any (· fields) then
              .ok (parsed fields (errors + 1) none)
            else .ok (parsed fields errors (some i))
          | .failed errors => .ok (parsed k.noFields errors none)
          | .fault errors => .fault errors

def pciTag : AddressTag .pci where
  accepts b := b = .pmc ∨ b = .pci
  onlyReports := false
  table := pciTable
  missing :=
    [(·.busNumber = 0), (·.slotNumber = 0), (·.vendorId = 0), (·.deviceId = 0)]

def parsePciAddressTag : List XmlAttr → State → Outcome State :=
  parseAddressTag mem pciTag

def vmeTag : AddressTag .vme where
  accepts b := b = .vme
  onlyReports := false
  table := vmeTable
  missing := []

def parseVmeAddressTag : List XmlAttr → State → Outcome State :=
  parseAddressTag mem vmeTag

/-- `DriverName` is an array and never null. -/
def carTag : AddressTag .car where
  accepts b := b = .carrier
  onlyReports := true
  table := carTable
  missing := [(·.motherboardNumber = 0), (·.slotNumber = 0)]

def parseCarAddressTag : List XmlAttr → State → Outcome State :=
  parseAddressTag mem carTag

/-! ## Address spaces -/

/-- `if (pcima->PciAddressSpace == NULL) pcima->PciAddressSpace = npcias; else
pcias->Next = npcias; pcias = npcias;` -/
def linkLast {k : Kind} (s : State) (q : Nat) (m : ModlNode) (space : k.Space) :
    Option State :=
  if (m.address k).spaces.isEmpty then
    some { s.setAddress q (k := k) { m.address k with spaces := [space] } with
      last := Function.update s.last k (some q) }
  else do
    let q' ← s.last k
    let m' ← s.modls[q']?
    some (s.setAddress q' (k := k)
      { m'.address k with spaces := (m'.address k).spaces ++ [space] })

theorem linkLast_links {k : Kind} {s s' : State} {q : Nat} {m : ModlNode}
    {space : k.Space} (h : linkLast s q m space = some s') :
    ∃ modls last, s' = { s with modls := modls, last := last } := by
  unfold linkLast at h
  split at h
  · cases h
    exact ⟨_, _, rfl⟩
  · obtain ⟨q', -, h⟩ := Option.bind_eq_some_iff.mp h
    obtain ⟨m', -, h⟩ := Option.bind_eq_some_iff.mp h
    cases h
    exact ⟨_, _, rfl⟩

def AM_A24_CR_CSR : BitVec 32 := 0x2F

/-- To get to the last one, the loop goes from a block of memory to what follows
it, and not to the next of the list. It stays inside where the list has one
element, which is the last. -/
def addVmeAddrSpace (spaces : List InsLibVmeAddressSpace)
    (nvmeas : InsLibVmeAddressSpace) : Option (List InsLibVmeAddressSpace) :=
  match spaces with
  | [] => some [nvmeas]
  | first :: rest =>
    if nvmeas.addressModifier ≠ AM_A24_CR_CSR then
      if rest.isEmpty then some [first, nvmeas] else none
    else some (nvmeas :: first :: rest)

def linkVme (s : State) (q : Nat) (m : ModlNode) (space : InsLibVmeAddressSpace) :
    Option State := do
  let spaces ← addVmeAddrSpace (m.address .vme).spaces space
  some (s.setAddress q (k := .vme) { m.address .vme with spaces := spaces })

theorem linkVme_links {s s' : State} {q : Nat} {m : ModlNode}
    {space : InsLibVmeAddressSpace} (h : linkVme s q m space = some s') :
    ∃ modls last, s' = { s with modls := modls, last := last } := by
  obtain ⟨spaces, -, h⟩ := Option.bind_eq_some_iff.mp h
  cases h
  exact ⟨_, _, rfl⟩

/-- How the elements for the three kinds of address spaces differ: what is missing
after the loop, and how the space is put into the list of the address. -/
structure SpaceTag (k : Kind) where
  table : Table (k.Fields × k.Space)
  missing : List (k.Space → Bool)
  link : State → Nat → ModlNode → k.Space → Option State
  links : ∀ {s q m space s'}, link s q m space = some s' →
    ∃ modls last, s' = { s with modls := modls, last := last }

/-- An address space is hung on the address that `ma` leads to. -/
def doSpace {k : Kind} (t : SpaceTag k) (prop : List XmlAttr)
    (pvalu : Option CString) (s : State) : Outcome State :=
  match s.ma k with
  | none => .null (s.errors + 1)
  | some q =>
    match s.modls[q]? with
    | none => .fault s.errors
    | some m =>
      if mem s.allocs then
        (attrLoop t.table.rows prop pvalu ((m.address k).fields, k.noSpace)
          s.errors).andThen fun r errors =>
            let m' := m.setAddress (k := k) { m.address k with fields := r.1 }
            let s' := { s with
              errors := errors + t.missing.countP (· r.2)
              allocs := s.allocs + 1
              modls := s.modls.set q m' }
            match t.link s' q m' r.2 with
            | none => .fault s'.errors
            | some s' => .ok s'
      else .null (s.errors + 1)

def pciSpaceTag : SpaceTag .pci where
  table := pciSpaceTable
  missing := []
  link := linkLast
  links := linkLast_links

def vmeSpaceTag : SpaceTag .vme where
  table := vmeSpaceTable
  missing :=
    [(·.addressModifier = 0), (·.dataWidth = 0), (·.windowSize = 0),
      (·.baseAddress = 0)]
  link := linkVme
  links := linkVme_links

def carSpaceTag : SpaceTag .car where
  table := carSpaceTable
  missing := [(·.dataWidth = 0), (·.windowSize = 0)]
  link := linkLast
  links := linkLast_links

/-- The name of the module is only for the texts of the errors. -/
def handleVmeSpaceNode (prop : List XmlAttr) : State → Outcome State :=
  doSpace mem vmeSpaceTag prop none

/-! ## The walk -/

/-- A node of the file and what is reached from it; `other` is a node that is no
element, a text or a comment. -/
inductive XmlNode
  | nil
  | element (name : CString) (properties : List XmlAttr)
      (children next : XmlNode)
  | other (children next : XmlNode)

/-- The `switch` of `DoElement()`. The functions it calls have a `pvalu` of their
own. -/
def doNode (pky : KeyWord) (prop : List XmlAttr) (pvalu : Option CString)
    (s : State) : Outcome (State × Option CString) :=
  match pky with
  | .install => (handleInstallNode mem prop s).bind fun s => .ok (s, pvalu)
  | .driver =>
    match s.hostd with
    | none => .null (s.errors + 1)
    | some hostd =>
      (handleDriverNode mem prop hostd s).bind fun s => .ok (s, pvalu)
  | .module =>
    match s.drvrd with
    | none => .null (s.errors + 1)
    | some drvrd =>
      (handleModuleNode mem prop drvrd s).bind fun s => .ok (s, pvalu)
  | .interrupt =>
    (doInterrupt mem prop pvalu s).bind fun s =>
      .ok (s, pvaluAfter intrTable.rows prop pvalu)
  | .pci => (parsePciAddressTag mem prop s).bind fun s => .ok (s, pvalu)
  | .pciSpace =>
    (doSpace mem pciSpaceTag prop pvalu s).bind fun s =>
      .ok (s, pvaluAfter pciSpaceTable.rows prop pvalu)
  | .vme => (parseVmeAddressTag mem prop s).bind fun s => .ok (s, pvalu)
  | .vmeSpace =>
    match s.ma .vme, s.modld with
    | some _, none => .null (s.errors + 1)
    | _, _ => (handleVmeSpaceNode mem prop s).bind fun s => .ok (s, pvalu)
  | .carrier => (parseCarAddressTag mem prop s).bind fun s => .ok (s, pvalu)
  | .carrierSpace =>
    (doSpace mem carSpaceTag prop pvalu s).bind fun s =>
      .ok (s, pvaluAfter carSpaceTable.rows prop pvalu)
  | .empty => .ok ({ s with errors := s.errors + 2 }, pvalu)
  | _ => .ok ({ s with errors := s.errors + 1 }, pvalu)

/-- Where a call for the children returns null, its caller does. -/
def doElement : XmlNode → Option CString → State → Outcome State
  | .nil, _, s => .ok s
  | .element name prop children next, pvalu, s =>
    (doNode mem (lookUp name) prop pvalu s).bind fun r =>
      (doElement children none r.1).bind fun s =>
        if s.hostd.isNone then .null s.errors else doElement next r.2 s
  | .other children next, pvalu, s =>
    (doElement children none s).bind fun s =>
      if s.hostd.isNone then .null s.errors else doElement next pvalu s

/-- `xmlReadFile()` has no document for a file that is not well formed. -/
def insLibParseInstallFile (doc : Option XmlNode) (s : State) :
    Outcome State :=
  match doc with
  | none => .null s.errors
  | some root => doElement mem root none s

end Walk

end Coht.InsLib
