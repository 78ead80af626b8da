/-!
# The driver tree (`config_data.h`)

A host has drivers, a driver has modules, and a module has an address on its bus
with the address spaces found there. The tree is made of blocks of memory that
are linked by pointers: a list by the `Next` of its elements, the rest by one
pointer each. Here each block is split into the fields that a copy of the block
takes over, a record of its own, and the pointers, which are the structure of
the tree. How a block is held is a parameter `B`: a tree in the memory of a
user holds the record, a copy of it in the kernel an allocation.

`ModuleAddress` has no type of its own in the source; what it leads to is
decided by `BusType`, so the two are one here, a `BusAddress`.
-/

namespace Coht.InsLib

/-- The bytes of a C string before the terminating zero. -/
abbrev CString := List UInt8

inductive InsLibEndian
  | notSet
  | big
  | little
  deriving DecidableEq, Repr

/-- `InsLibIntrDesc` -/
structure InsLibIntrDesc where
  isrFlag : BitVec 32 := 0
  vector : BitVec 32 := 0
  level : BitVec 32 := 0
  comment : CString := []
  deriving DecidableEq, Repr

/-- `InsLibPciAddressSpace`; `mapped` is the pointer, where it is not null. -/
structure InsLibPciAddressSpace where
  mapped : Option Nat := none
  baseAddressRegister : BitVec 32 := 0
  windowSize : BitVec 32 := 0
  dataWidth : BitVec 32 := 0
  endian : InsLibEndian := .notSet
  comment : CString := []
  deriving DecidableEq, Repr

/-- `InsLibVmeAddressSpace` -/
structure InsLibVmeAddressSpace where
  mapped : Option Nat := none
  addressModifier : BitVec 32 := 0
  windowSize : BitVec 32 := 0
  dataWidth : BitVec 32 := 0
  endian : InsLibEndian := .notSet
  baseAddress : BitVec 32 := 0
  freeModifierFlag : BitVec 32 := 0
  comment : CString := []
  deriving DecidableEq, Repr

/-- `InsLibCarAddressSpace` -/
structure InsLibCarAddressSpace where
  mapped : Option Nat := none
  spaceNumber : BitVec 32 := 0
  dataWidth : BitVec 32 := 0
  windowSize : BitVec 32 := 0
  endian : InsLibEndian := .notSet
  comment : CString := []
  deriving DecidableEq, Repr

/-- The fields of `InsLibPciModuleAddress`. -/
structure PciFields where
  busNumber : BitVec 32 := 0
  slotNumber : BitVec 32 := 0
  vendorId : BitVec 32 := 0
  deviceId : BitVec 32 := 0
  subVendorId : BitVec 32 := 0
  subDeviceId : BitVec 32 := 0
  comment : CString := []
  deriving DecidableEq, Repr

/-- The fields of `InsLibVmeModuleAddress`. -/
structure VmeFields where
  comment : CString := []
  deriving DecidableEq, Repr

/-- The fields of `InsLibCarModuleAddress`. -/
structure CarFields where
  driverName : CString := []
  motherboardNumber : BitVec 32 := 0
  slotNumber : BitVec 32 := 0
  comment : CString := []
  deriving DecidableEq, Repr

/-- The fields of `InsLibModlDesc`. -/
structure ModlFields where
  moduleNumber : BitVec 32 := 0
  ignoreErrors : BitVec 32 := 0
  comment : CString := []
  moduleName : CString := []
  deriving DecidableEq, Repr

/-- The fields of `InsLibDrvrDesc`. -/
structure DrvrFields where
  drvrName : CString := []
  debugFlags : BitVec 32 := 0
  emulationFlags : BitVec 32 := 0
  moduleCount : BitVec 32 := 0
  comment : CString := []
  isdg : BitVec 32 := 0
  deriving DecidableEq, Repr

/-- The fields of `InsLibHostDesc`. -/
structure HostFields where
  hostName : CString := []
  comment : CString := []
  deriving DecidableEq, Repr

/-- A module address of one of the three kinds: its fields and its list of
address spaces. -/
structure ModuleAddress (B : Type → Type) (σ α : Type) where
  fields : B α
  spaces : List (B σ)

abbrev InsLibPciModuleAddress (B : Type → Type) :=
  ModuleAddress B InsLibPciAddressSpace PciFields

abbrev InsLibVmeModuleAddress (B : Type → Type) :=
  ModuleAddress B InsLibVmeAddressSpace VmeFields

abbrev InsLibCarModuleAddress (B : Type → Type) :=
  ModuleAddress B InsLibCarAddressSpace CarFields

/-- `BusType` and the `ModuleAddress` that goes with it. Under a type that is none
of the four, as `InsLibBusTypeNOT_SET`, nobody knows what the pointer leads
to. -/
inductive BusAddress (B : Type → Type)
  | notSet (address : Option Nat)
  | carrier (address : Option (InsLibCarModuleAddress B))
  | vme (address : Option (InsLibVmeModuleAddress B))
  | pmc (address : Option (InsLibPciModuleAddress B))
  | pci (address : Option (InsLibPciModuleAddress B))

/-- `InsLibModlDesc` -/
structure InsLibModlDesc (B : Type → Type) where
  fields : B ModlFields
  isr : Option (B InsLibIntrDesc) := none
  moduleAddress : BusAddress B := .notSet none
  extra : Option (B CString) := none

/-- `InsLibDrvrDesc` -/
structure InsLibDrvrDesc (B : Type → Type) where
  fields : B DrvrFields
  modules : List (InsLibModlDesc B) := []

structure InsLibHostDesc (B : Type → Type) where
  fields : B HostFields
  drivers : List (InsLibDrvrDesc B) := []

/-- A block in the memory of a user is what it holds. -/
abbrev User (α : Type) : Type := α

end Coht.InsLib
