import Mathlib.Logic.Function.Basic

/-!
# The slots of a TPCI200 carrier (`carrier_tpci200.c`)

A carrier has four slots. Drivers of the modules in them get a `slot_id` for a slot, map
its address spaces and install a handler for its interrupts. Every operation does its work
in one section under `carrier_mutex`; the interrupt handler reads the same records under
another lock.

`slotIds` and `irqs` are the records that are allocated and not freed, by their pointers. A
pointer is never given out twice, so that a record that has been freed is one that is
not there. `maps` counts for each space of a slot the mappings that the kernel holds.
-/

namespace Coht.Tpci200

abbrev U16 := BitVec 16
abbrev Ptr := Nat

def TPCI200_NB_SLOT : Nat := 4
def TPCI200_IO_SPACE_SIZE : Nat := 0x80
def TPCI200_ID_SPACE_SIZE : Nat := 0x40
def TPCI200_MEM8_SIZE : Nat := 0x00400000
def TPCI200_INT0_EN : U16 := 0x0040
def TPCI200_INT1_EN : U16 := 0x0080
def TPCI200_A_INT0 : U16 := 0x0001
def TPCI200_A_INT1 : U16 := 0x0002
def TPCI200_SLOT_INT_MASK : U16 := 0x00FF

inductive Errno
  | EINVAL
  | ENOMEM
  | ERESTARTSYS
  deriving DecidableEq, Repr

/-- `slot_space` -/
inductive Space
  | io
  | id
  | mem
  deriving DecidableEq, Repr

/-- `slot_addr_space` -/
structure AddrSpace where
  address : Option Nat := none
  size : Nat := 0
  deriving DecidableEq

structure SlotId where
  position : Nat
  io : AddrSpace := {}
  id : AddrSpace := {}
  mem : AddrSpace := {}
  deriving DecidableEq

structure SlotIrq where
  vector : Nat := 0
  handler : Nat := 0
  arg : Nat := 0
  deriving DecidableEq

def SlotId.space (r : SlotId) : Space → AddrSpace
  | .io => r.io
  | .id => r.id
  | .mem => r.mem

def SlotId.setSpace (r : SlotId) (a : AddrSpace) : Space → SlotId
  | .io => { r with io := a }
  | .id => { r with id := a }
  | .mem => { r with mem := a }

structure Carrier where
  slotId : Nat → Option Ptr := fun _ => none
  irq : Nat → Option Ptr := fun _ => none
  slotIds : Ptr → Option SlotId := fun _ => none
  irqs : Ptr → Option SlotIrq := fun _ => none
  maps : Nat → Space → Nat := fun _ _ => 0
  control : Nat → U16 := fun _ => 0
  next : Ptr := 0

namespace Carrier

variable (c : Carrier)

/-- `check_slot()` for a `slot_id` that has not been freed. -/
def checkSlot (r : SlotId) : Prop :=
  r.position < TPCI200_NB_SLOT ∧ c.slotId r.position ≠ none

instance (r : SlotId) : Decidable (c.checkSlot r) := inferInstanceAs (Decidable (_ ∧ _))

/-! ## The sections under the mutex

`memory` is whether `kzalloc()` succeeds, and `remapped` is what `ioremap()` returns.
-/

/-- `ip_slot_register()` -/
def register (i : Nat) (memory : Bool) : Option Ptr × Carrier :=
  if TPCI200_NB_SLOT ≤ i ∨ c.slotId i ≠ none ∨ memory = false then (none, c)
  else
    (some c.next,
      { c with
        slotId := Function.update c.slotId i (some c.next)
        slotIds := Function.update c.slotIds c.next (some { position := i })
        next := c.next + 1 })

/-- The size that is mapped: the hardware's, and for the memory what is asked for. -/
def sizeToMap (memorySize : Nat) : Space → Nat
  | .io => TPCI200_IO_SPACE_SIZE
  | .id => TPCI200_ID_SPACE_SIZE
  | .mem => memorySize

def oneMapping (address : Option Nat) : Nat := if address.isSome then 1 else 0

/-- `ip_slot_map_space()` -/
def mapSpace (p : Ptr) (r : SlotId) (space : Space) (memorySize : Nat)
    (remapped : Option Nat) : Except Errno Unit × Carrier :=
  if (r.space space).address ≠ none then (.error .EINVAL, c)
  else if space = .mem ∧ TPCI200_MEM8_SIZE < memorySize then (.error .EINVAL, c)
  else
    (.ok (),
      { c with
        slotIds := Function.update c.slotIds p (some (r.setSpace
          { address := remapped, size := sizeToMap memorySize space } space))
        maps := Function.update c.maps r.position (Function.update (c.maps r.position) space
          (c.maps r.position space + oneMapping remapped)) })

/-- `ip_slot_unmap_space()` -/
def unmapSpace (p : Ptr) (r : SlotId) (space : Space) : Except Errno Unit × Carrier :=
  if (r.space space).address = none then (.ok (), c)
  else
    (.ok (),
      { c with
        slotIds := Function.update c.slotIds p (some (r.setSpace {} space))
        maps := Function.update c.maps r.position (Function.update (c.maps r.position) space
          (c.maps r.position space - 1)) })

/-- `ip_slot_request_irq()` -/
def requestIrq (r : SlotId) (irq : SlotIrq) (memory : Bool) : Except Errno Unit × Carrier :=
  if c.irq r.position ≠ none then (.error .EINVAL, c)
  else if memory = false then (.error .ENOMEM, c)
  else
    (.ok (),
      { c with
        irq := Function.update c.irq r.position (some c.next)
        irqs := Function.update c.irqs c.next (some irq)
        control := Function.update c.control r.position (TPCI200_INT0_EN ||| TPCI200_INT1_EN)
        next := c.next + 1 })

/-- `ip_slot_free_irq()` -/
def freeIrq (r : SlotId) : Except Errno Unit × Carrier :=
  match c.irq r.position with
  | none => (.error .EINVAL, c)
  | some q =>
    (.ok (),
      { c with
        irq := Function.update c.irq r.position none
        irqs := Function.update c.irqs q none
        control := Function.update c.control r.position 0 })

/-- The last section of `ip_slot_unregister()`. -/
def remove (p : Ptr) (r : SlotId) : Carrier :=
  { c with
    slotId := Function.update c.slotId r.position none
    slotIds := Function.update c.slotIds p none }

/-! ## Interrupts -/

/-- The handler of the slot is called. -/
def interrupted (status : U16) (i : Nat) : Prop :=
  i < TPCI200_NB_SLOT ∧ status &&& TPCI200_SLOT_INT_MASK ≠ 0 ∧ c.irq i ≠ none ∧
    status &&& ((TPCI200_A_INT0 ||| TPCI200_A_INT1) <<< (2 * i)) ≠ 0

instance (status : U16) (i : Nat) : Decidable (c.interrupted status i) :=
  inferInstanceAs (Decidable (_ ∧ _))

/-- The interrupts that no handler has taken. -/
def unhandled (status : U16) : U16 :=
  (List.range TPCI200_NB_SLOT).foldl
    (fun left i =>
      if c.interrupted status i then
        left &&& ~~~((TPCI200_A_INT0 ||| TPCI200_A_INT1) <<< (2 * i))
      else left)
    (status &&& TPCI200_SLOT_INT_MASK)

/-- `carrier_interrupt()`: the handlers are called, and the slots that the code takes for
the others' are disabled. -/
def interrupt (status : U16) : Carrier :=
  { c with
    control := fun i =>
      if i < TPCI200_NB_SLOT ∧
          c.unhandled status &&& ((TPCI200_INT0_EN ||| TPCI200_INT1_EN) <<< (2 * i)) ≠ 0 then
        c.control i &&& ~~~(TPCI200_INT0_EN ||| TPCI200_INT1_EN)
      else c.control i }

/-- What `carrier_interrupt()` reads for a slot whose handler it calls has not been freed:
the `irq` record, the `slot_id`, and its I/O space, which holds the acknowledge registers. -/
def Ready (i : Nat) : Prop :=
  (∃ q irq, c.irq i = some q ∧ c.irqs q = some irq) ∧
    ∃ p r, c.slotId i = some p ∧ c.slotIds p = some r ∧ r.io.address ≠ none

/-- Nothing of the slot is left. -/
structure Cleared (i : Nat) : Prop where
  slotId : c.slotId i = none
  irq : c.irq i = none
  maps : ∀ space, c.maps i space = 0

end Carrier

end Coht.Tpci200
