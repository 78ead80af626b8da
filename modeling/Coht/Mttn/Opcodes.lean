/-!
# The instruction set of the MTT module (`asm.h`, `opcodes.h`, `opcodes.c`)

One table describes what the three fields of an instruction hold for each
op-code. The assembler reads an instruction by it and the disassembler prints
one by it. A `long` is 32 bits wide, as on the front-end computers.
-/

namespace Coht.Mttn

inductive ArgType
  | nothing
  | literal
  | address
  | register
deriving DecidableEq

inductive IdNumber
  | halt | noop | int
  | weqv | weqr | wrlv | wrlr | worv | worr
  | movv | movr | movir | movri
  | addv | addr | subv | subr | lorv | lorr | andv | andr | xorv | xorr
  | lsv | lsr | rsv | rsr
  | wdog | jmp | beq | bne | blt | bgt | ble | bge | bcr
deriving DecidableEq

def IdNumber.number : IdNumber → BitVec 8
  | .halt => 0x00
  | .noop => 0x4d
  | .int => 0xC1
  | .weqv => 0x91
  | .weqr => 0x11
  | .wrlv => 0x92
  | .wrlr => 0x12
  | .worv => 0x93
  | .worr => 0x13
  | .movv => 0xe2
  | .movr => 0x62
  | .movir => 0x64
  | .movri => 0x65
  | .addv => 0xe6
  | .addr => 0x66
  | .subv => 0xe7
  | .subr => 0x67
  | .lorv => 0xe8
  | .lorr => 0x68
  | .andv => 0xe9
  | .andr => 0x69
  | .xorv => 0xea
  | .xorr => 0x6a
  | .lsv => 0xeb
  | .lsr => 0x6b
  | .rsv => 0xec
  | .rsr => 0x6c
  | .wdog => 0x34
  | .jmp => 0x85
  | .beq => 0x86
  | .bne => 0x87
  | .blt => 0x88
  | .bgt => 0x89
  | .ble => 0x8a
  | .bge => 0x8b
  | .bcr => 0x8c

def IdNumber.all : List IdNumber := [
  .halt, .noop, .int, .weqv, .weqr, .wrlv, .wrlr, .worv, .worr,
  .movv, .movr, .movir, .movri, .addv, .addr, .subv, .subr, .lorv, .lorr,
  .andv, .andr, .xorv, .xorr, .lsv, .lsr, .rsv, .rsr,
  .wdog, .jmp, .beq, .bne, .blt, .bgt, .ble, .bge, .bcr]

/-- The enumerator of a number, for a `switch` over it. -/
def idNumber (n : BitVec 8) : Option IdNumber :=
  IdNumber.all.find? fun id => id.number = n

structure OpCode where
  name : String
  number : IdNumber
  src1 : ArgType
  src2 : ArgType
  dest : ArgType
deriving DecidableEq

def instructionSet : List OpCode := [
  ⟨"HALT", .halt, .nothing, .nothing, .nothing⟩,
  ⟨"NOOP", .noop, .nothing, .nothing, .nothing⟩,
  ⟨"INT", .int, .literal, .nothing, .nothing⟩,
  ⟨"WEQV", .weqv, .literal, .register, .nothing⟩,
  ⟨"WRLV", .wrlv, .literal, .register, .nothing⟩,
  ⟨"WORV", .worv, .literal, .register, .nothing⟩,
  ⟨"WEQR", .weqr, .register, .register, .nothing⟩,
  ⟨"WRLR", .wrlr, .register, .register, .nothing⟩,
  ⟨"WORR", .worr, .register, .register, .nothing⟩,
  ⟨"MOVV", .movv, .literal, .nothing, .register⟩,
  ⟨"MOVR", .movr, .register, .nothing, .register⟩,
  ⟨"MOVIR", .movir, .register, .nothing, .register⟩,
  ⟨"MOVRI", .movri, .register, .register, .nothing⟩,
  ⟨"ADDR", .addr, .register, .register, .register⟩,
  ⟨"SUBR", .subr, .register, .register, .register⟩,
  ⟨"LORR", .lorr, .register, .register, .register⟩,
  ⟨"ANDR", .andr, .register, .register, .register⟩,
  ⟨"XORR", .xorr, .register, .register, .register⟩,
  ⟨"LSR", .lsr, .register, .register, .register⟩,
  ⟨"RSR", .rsr, .register, .register, .register⟩,
  ⟨"ADDV", .addv, .literal, .register, .register⟩,
  ⟨"SUBV", .subv, .literal, .register, .register⟩,
  ⟨"LORV", .lorv, .literal, .register, .register⟩,
  ⟨"ANDV", .andv, .literal, .register, .register⟩,
  ⟨"XORV", .xorv, .literal, .register, .register⟩,
  ⟨"LSV", .lsv, .literal, .register, .register⟩,
  ⟨"RSV", .rsv, .literal, .register, .register⟩,
  ⟨"WDOG", .wdog, .address, .nothing, .nothing⟩,
  ⟨"JMP", .jmp, .address, .nothing, .nothing⟩,
  ⟨"BEQ", .beq, .address, .nothing, .nothing⟩,
  ⟨"BNE", .bne, .address, .nothing, .nothing⟩,
  ⟨"BLT", .blt, .address, .nothing, .nothing⟩,
  ⟨"BGT", .bgt, .address, .nothing, .nothing⟩,
  ⟨"BLE", .ble, .address, .nothing, .nothing⟩,
  ⟨"BGE", .bge, .address, .nothing, .nothing⟩,
  ⟨"BCR", .bcr, .address, .nothing, .nothing⟩]

/-- A name for one register, or for a row of them that are numbered from
`offset` on. -/
structure RegisterDsc where
  name : String
  start : Nat
  last : Nat
  offset : Nat

def regs : List RegisterDsc := [
  ⟨"GR", 0, 211, 1⟩,
  ⟨"OUTPUTS", 212, 212, 0⟩,
  ⟨"EVIN", 213, 213, 0⟩,
  ⟨"EVINCNT", 214, 214, 0⟩,
  ⟨"EVOUTCNT", 215, 215, 0⟩,
  ⟨"EVOUTFB", 216, 216, 0⟩,
  ⟨"EVOUTL", 217, 217, 0⟩,
  ⟨"MSMR", 218, 218, 0⟩,
  ⟨"TSYNC", 219, 219, 0⟩,
  ⟨"VMEP2", 220, 220, 0⟩,
  ⟨"EVOUTH", 221, 221, 0⟩,
  ⟨"MSFR", 222, 222, 0⟩,
  ⟨"SYNCFR", 223, 223, 0⟩,
  ⟨"INDEX", 224, 224, 0⟩,
  ⟨"LR", 225, 255, 1⟩]

structure Instruction where
  dest : BitVec 8 := 0
  src2 : BitVec 8 := 0
  number : BitVec 8 := 0
  crc : BitVec 8 := 0
  src1 : BitVec 32 := 0
deriving DecidableEq

/-- The entry for an op-code number. -/
def opCode (n : BitVec 8) : Option OpCode :=
  instructionSet.find? fun o => o.number.number = n

theorem number_of_idNumber {n : BitVec 8} {id : IdNumber}
    (h : idNumber n = some id) : n = id.number := by
  have hfound := List.find?_some h
  simp only [decide_eq_true_eq] at hfound
  exact hfound.symm

@[simp] theorem idNumber_number (id : IdNumber) :
    idNumber id.number = some id := by
  cases id <;> rfl

/-! ## Shifts -/

/-- What the machine does for a count that is negative or not below 32, which C
leaves open. -/
structure Shifts where
  shl : BitVec 32 → BitVec 32 → BitVec 32
  shr : BitVec 32 → BitVec 32 → BitVec 32

def Shifts.left (p : Shifts) (x count : BitVec 32) : BitVec 32 :=
  if count.toNat < 32 then x <<< count.toNat else p.shl x count

def Shifts.right (p : Shifts) (x count : BitVec 32) : BitVec 32 :=
  if count.toNat < 32 then x.sshiftRight count.toNat else p.shr x count

end Coht.Mttn
