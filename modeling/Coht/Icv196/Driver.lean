import Coht.Lib.System
import Coht.Lib.Word
import Mathlib.Logic.Function.Basic

/-!
# The ICV196 driver (`icv196.c`)

The module has twelve groups of eight lines, each an input or an output as its bit in the
direction register says, and a Z8536 that watches the first two groups, its ports A and B,
for interrupts. The requests of `__icv196_ioctl()` that change this are here: `RESET`,
`CONNECT`, `BYTE_SET_OUTPUT` and `BYTE_WRITE`. All commands of the driver copy their
argument in and out, so that a request that has been carried out can still fail.

The Z8536 and the other registers are storage. `writes` has every value that was put into
one of them, the last one first; selecting a register of the Z8536 is not a write.
-/

namespace Coht.Icv196

abbrev U8 := BitVec 8
abbrev U16 := BitVec 16
abbrev U32 := BitVec 32

inductive Errno
  | ENOMEM
  | EACCES
  | EBUSY
  | EISCONN
  | EPERM
  deriving DecidableEq, Repr

/-! ## Registers of the Z8536 (`Z8536CIO.h`) -/

def MIC_reg : U8 := 0x00
def MCC_reg : U8 := 0x01
def ItVct_Areg : U8 := 0x02
def ItVct_Breg : U8 := 0x03
def CSt_Areg : U8 := 0x08
def CSt_Breg : U8 := 0x09
def MSpec_Areg : U8 := 0x20
def DPPol_Areg : U8 := 0x22
def DDir_Areg : U8 := 0x23
def SIO_Areg : U8 := 0x24
def PtrPo_Areg : U8 := 0x25
def PtrTr_Areg : U8 := 0x26
def PtrMsk_Areg : U8 := 0x27
def MSpec_Breg : U8 := 0x28
def DPPol_Breg : U8 := 0x2A
def DDir_Breg : U8 := 0x2B
def SIO_Breg : U8 := 0x2C
def PtrPo_Breg : U8 := 0x2D
def PtrTr_Breg : U8 := 0x2E
def PtrMsk_Breg : U8 := 0x2F

def CoSt_ClIpIus : U8 := 1 <<< 5
def CoSt_SeIe : U8 := 6 <<< 5
def PtrM_Or : U8 := 2 <<< 1
def b_MIE : U8 := 0x80
def b_RESET : U8 := 0x01
def PortA_Enable : U8 := 0x04
def PortB_Enable : U8 := 0x80
def Latch_On_Pat_Match : U8 := 0x01
def All_Input : U8 := 0xFF
def All_Masked : U8 := 0
def Norm_Inp : U8 := 0
def Non_Invert : U8 := 0

def ICV196_INTERRUPT_LEVEL_2 : U8 := 0xFD
def MAX_BYTES : Nat := 12

/-! ## The device -/

inductive Write
  | z8536 (reg valu : U8)
  | csnit (valu : U8)
  | csdir (valu : U16)
  | group (i : Nat) (valu : U8)
  deriving DecidableEq

/-- `icv196_device_s` and the module behind it. -/
structure Device where
  outMsk : U32 := 0
  intMsk : U32 := 0
  z8536 : U8 → U8 := fun _ => 0
  csnit : U8 := 0
  csdir : U16 := 0
  group : Nat → U8 := fun _ => 0
  writes : List Write := []

namespace Device

variable (dev : Device)

def setreg (reg valu : U8) : Device :=
  { dev with
    z8536 := Function.update dev.z8536 reg valu
    writes := .z8536 reg valu :: dev.writes }

def setregs (l : List (U8 × U8)) : Device :=
  l.foldl (fun dev r => dev.setreg r.1 r.2) dev

/-- `b_RESET` is set in `MIC_reg` and taken back, which clears the Z8536. -/
def resetZ8536 : Device :=
  { dev with
    z8536 := fun _ => 0
    writes := .z8536 MIC_reg 0 :: .z8536 MIC_reg b_RESET :: dev.writes }

def setLevel (valu : U8) : Device :=
  { dev with csnit := valu, writes := .csnit valu :: dev.writes }

def setDirection (valu : U16) : Device :=
  { dev with csdir := valu, writes := .csdir valu :: dev.writes }

def writeGroup (i : Nat) (valu : U8) : Device :=
  { dev with
    group := Function.update dev.group i valu
    writes := .group i valu :: dev.writes }

/-- `reset()`, with `mad->vec` -/
def reset (vec : U32) : Device :=
  let dev := ((dev.resetZ8536.setLevel ICV196_INTERRUPT_LEVEL_2).setDirection 0).setregs
    [(MCC_reg, PortA_Enable ||| PortB_Enable),
      (MSpec_Areg, PtrM_Or ||| Latch_On_Pat_Match),
      (MSpec_Breg, PtrM_Or ||| Latch_On_Pat_Match),
      (CSt_Areg, CoSt_SeIe), (CSt_Breg, CoSt_SeIe),
      (DPPol_Areg, Non_Invert), (DPPol_Breg, Non_Invert),
      (DDir_Areg, All_Input), (DDir_Breg, All_Input),
      (SIO_Areg, Norm_Inp), (SIO_Breg, Norm_Inp),
      (PtrMsk_Areg, All_Masked), (PtrTr_Areg, 0), (PtrPo_Areg, 0),
      (PtrMsk_Breg, All_Masked), (PtrTr_Breg, 0), (PtrPo_Breg, 0),
      (MIC_reg, 0), (ItVct_Areg, vec.setWidth 8), (ItVct_Breg, vec.setWidth 8),
      (MIC_reg, b_MIE)]
  { dev with outMsk := 0 }

/-- Lines of a port are added to the ones that interrupt. -/
def addLines (cst ptrPo ptrTr ptrMsk lines : U8) : Device :=
  if lines ≠ 0 then
    let dev := dev.setreg cst CoSt_ClIpIus
    let dev := dev.setreg ptrPo (dev.z8536 ptrPo ||| lines)
    let dev := dev.setreg ptrTr (dev.z8536 ptrTr ||| lines)
    let dev := dev.setreg ptrMsk (dev.z8536 ptrMsk ||| lines)
    dev.setreg cst CoSt_ClIpIus
  else dev

/-- `ICV196_CONNECT`. In `*ival & 0xFF00 >> 8` the shift is done first. -/
def connect (ival : U32) : Except Errno Unit × Device :=
  if dev.outMsk &&& 3 ≠ 0 then (.error .EBUSY, dev)
  else
    let dev := { dev with intMsk := ival &&& 0xFFFF }
    let br : U8 := (ival &&& 0x00FF).setWidth 8
    let bl : U8 := (ival &&& (0xFF00 >>> 8)).setWidth 8
    let dev := dev.setreg MIC_reg (dev.z8536 MIC_reg ||| b_MIE)
    let dev := dev.addLines CSt_Areg PtrPo_Areg PtrTr_Areg PtrMsk_Areg br
    (.ok (), dev.addLines CSt_Breg PtrPo_Breg PtrTr_Breg PtrMsk_Breg bl)

/-- `ICV196_BYTE_SET_OUTPUT` -/
def byteSetOutput (ival : U32) : Except Errno Unit × Device :=
  if dev.intMsk &&& 1 ≠ 0 ∧ ival &&& 1 ≠ 0 ∨ dev.intMsk &&& 2 ≠ 0 ∧ ival &&& 2 ≠ 0 then
    (.error .EISCONN, dev)
  else
    let dev := { dev with outMsk := ival &&& 0xFFF }
    (.ok (), dev.setDirection (dev.outMsk.setWidth 16))

/-- `ICV196_BYTE_WRITE`, from some byte on. -/
def byteWrite (msk : U16) (val : Nat → U8) :
    List Nat → Device → Except Errno Unit × Device
  | [], dev => (.ok (), dev)
  | i :: is, dev =>
    if !msk.getLsbD i then byteWrite msk val is dev
    else if !dev.outMsk.getLsbD i then (.error .EPERM, dev)
    else byteWrite msk val is (dev.writeGroup i (val i))

end Device

/-! ## Requests -/

inductive Request
  | reset
  | connect (ival : U32)
  | byteSetOutput (ival : U32)
  | byteWrite (msk : U16) (val : Nat → U8)

/-- A request, and whether `kmalloc()`, `copy_from_user()` and `copy_to_user()` do their
work for it. -/
structure Call where
  request : Request
  memory : Bool := true
  copyFrom : Bool := true
  copyTo : Bool := true

def Device.serve (vec : U32) (dev : Device) : Request → Except Errno Unit × Device
  | .reset => (.ok (), dev.reset vec)
  | .connect ival => dev.connect ival
  | .byteSetOutput ival => dev.byteSetOutput ival
  | .byteWrite msk val => Device.byteWrite msk val (List.range MAX_BYTES) dev

/-- The argument is copied back. -/
def answer (copyTo : Bool) (r : Except Errno Unit × Device) : Except Errno Unit × Device :=
  match r with
  | (.error e, dev) => (.error e, dev)
  | (.ok (), dev) => if !copyTo then (.error .EACCES, dev) else (.ok (), dev)

/-- `__icv196_ioctl()` -/
def Device.ioctl (vec : U32) (dev : Device) (call : Call) : Except Errno Unit × Device :=
  if !call.memory then (.error .ENOMEM, dev)
  else if !call.copyFrom then (.error .EACCES, dev)
  else answer call.copyTo (dev.serve vec call.request)

/-- `icv196_install()` for a device: the working area is all zero. -/
def install (vec : U32) (dev : Device) : Device :=
  { dev with outMsk := 0, intMsk := 0 }.reset vec

end Coht.Icv196
