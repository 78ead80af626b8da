/-!
# The PCI-VME bridge: public data types (`vmebus.h`)

One descriptor, `struct vme_mapping`, describes both a hardware window and a
logical mapping on top of one, and it crosses the user boundary as it is. A
field declared with an enumeration can therefore hold any integer, so each
enumeration below ends in an `other` constructor for the values the header
does not name; those are what the `default` branches of the driver see.

`unsigned int` fields are 32-bit words. Kernel pointers are natural numbers
with 0 for `NULL`.
-/

namespace Coht.Vmebridge

/-- An `unsigned int` of the driver and a TSI148 register. -/
abbrev Word := BitVec 32

/-- The error codes the bridge functions return, without their sign. -/
inductive Errno
  | einval
  | ebusy
  | enomem
  | efault
  | erestartsys
  | eintr
  | edeadlk
  deriving DecidableEq, Repr

/-- A return code: 0 is `.ok ()`. -/
abbrev Rc := Except Errno Unit

/-- `enum vme_data_width` -/
inductive VmeDataWidth
  | d8
  | d16
  | d32
  | d64
  | other (value : Nat)
  deriving DecidableEq, Repr

/-- `enum vme_2esst_mode` -/
inductive Vme2esstMode
  | sst160
  | sst267
  | sst320
  | other (value : Nat)
  deriving DecidableEq, Repr

/-- The value the header gives to a 2eSST mode. -/
def Vme2esstMode.value : Vme2esstMode → Nat
  | .sst160 => 0
  | .sst267 => 1
  | .sst320 => 2
  | .other value => value

/-- `enum vme_address_modifier` -/
inductive VmeAddressModifier
  | a64Mblt
  | a64Sct
  | a64Blt
  | a64Lck
  | a32Lck
  | a32UserMblt
  | a32UserDataSct
  | a32UserPrgSct
  | a32UserBlt
  | a32SupMblt
  | a32SupDataSct
  | a32SupPrgSct
  | a32SupBlt
  | twoE6U
  | twoE3U
  | a16User
  | a16Lck
  | a16Sup
  | crCsr
  | a40Sct
  | a40Lck
  | a40Blt
  | a24UserMblt
  | a24UserDataSct
  | a24UserPrgSct
  | a24UserBlt
  | a24SupMblt
  | a24SupDataSct
  | a24SupPrgSct
  | a24SupBlt
  | other (value : Nat)
  deriving DecidableEq, Repr

/-- `struct vme_mapping` -/
structure VmeMapping where
  windowNum : Int := 0
  kernelVa : Nat := 0
  userVa : Nat := 0
  fd : Int := 0
  windowEnabled : Int := 0
  dataWidth : VmeDataWidth := .other 0
  am : VmeAddressModifier := .a64Mblt
  readPrefetchEnabled : Int := 0
  readPrefetchSize : Word := 0
  v2esstMode : Vme2esstMode := .sst160
  bcastSelect : Word := 0
  pciAddru : Word := 0
  pciAddrl : Word := 0
  sizeu : Word := 0
  sizel : Word := 0
  vmeAddru : Word := 0
  vmeAddrl : Word := 0
  deriving DecidableEq, Repr

/-- The number of outbound windows (`TSI148_NUM_OUT_WINDOWS`). -/
def numOutWindows : Nat := 8

/-- The bounds check every entry point makes on a window number before it
indexes a table with it. -/
def windowIndex? (windowNum : Int) : Option (Fin numOutWindows) :=
  if h : 0 ≤ windowNum ∧ windowNum < numOutWindows then
    some ⟨windowNum.toNat, by omega⟩
  else
    none

theorem windowIndex?_val {windowNum : Int} {n : Fin numOutWindows}
    (h : windowIndex? windowNum = some n) : windowNum = (n.val : Int) := by
  unfold windowIndex? at h
  split at h
  · next hb =>
    cases h
    show windowNum = (windowNum.toNat : Int)
    omega
  · cases h

@[simp] theorem windowIndex?_cast (n : Fin numOutWindows) :
    windowIndex? (n.val : Int) = some n := by
  have hn : (n.val : Int) < (numOutWindows : Int) := by
    exact_mod_cast n.isLt
  unfold windowIndex?
  rw [dif_pos ⟨Int.natCast_nonneg _, hn⟩]
  simp

end Coht.Vmebridge
