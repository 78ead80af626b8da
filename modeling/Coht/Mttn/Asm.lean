import Coht.Mttn.Expression

/-!
# The two passes of the assembler (`asm.c`)

`Assemble()` goes once over the atoms. Four flags say which operands of the
current instruction are still to come, and whatever atom supplies one stores
it through the one pointer to that instruction. An operand that is a symbol
whose value is still zero is put on the table of forward references, which the
second pass patches.

As in `Expression.lean` there is no state after a fatal error or undefined
behaviour: too many forward references, an instruction for which the block of
one instruction a line has no room, or a colon before any other atom (`patom`
is not initialised). The memory of an instruction is cleared before it is
used, so what is in the rest of the block does not matter.
-/

namespace Coht.Mttn

/-- What of the current instruction is still expected. -/
structure Flags where
  lit : Bool := false
  sr1 : Bool := false
  sr2 : Bool := false
  dst : Bool := false
deriving DecidableEq

/-- What `Assemble()` works on. `inst` is the place of the current
instruction. -/
structure Asm where
  program : Nat → Instruction := fun _ => {}
  inst : Nat := 0
  index : Nat := 0
  pc : BitVec 32 := 0
  loadAddress : BitVec 32 := 0
  expect : Flags := {}
  forward : List (Nat × List Char) := []
  patom : Option Atom := none
  eval : Evaluator := {}

def FORWARD_REFS : Nat := 100

/-! ## Syntax -/

def compareAtomTypes (x y : AtomType) : Bool :=
  x = y ∨ x = .notSet ∨ y = .notSet ∨
  x = .expression ∧ (y = .numeric ∨ y = .alpha) ∨
  y = .expression ∧ (x = .numeric ∨ x = .alpha) ∨
  x = .seperator ∧ y = .comment ∨ y = .seperator ∧ x = .comment

def Atom.separates (a : Atom) : Bool := compareAtomTypes a.type .seperator

/-- On to the next atom that is no separator, or to the last one. -/
def nextAtom : List Atom → List Atom
  | _ :: b :: rest =>
    if b.separates then nextAtom (b :: rest) else b :: rest
  | atoms => atoms

/-- One operand of `GetConfirm()`, at the first of `atoms`. -/
def confirmOperand (expected : Bool) (kind : AtomType) (text : String)
    (atoms : List Atom) : Except String (List Atom) :=
  if expected then
    match atoms with
    | a :: rest =>
      if compareAtomTypes a.type kind then .ok (nextAtom (a :: rest))
      else .error text
    | [] => .error text
  else .ok atoms

def OpCode.expected (opcd : OpCode) : Flags where
  lit := opcd.src1 = .literal ∨ opcd.src1 = .address
  sr1 := opcd.src1 = .register
  sr2 := opcd.src2 = .register
  dst := opcd.dest = .register

/-- `GetConfirm()` from the atom of the op-code on. -/
def getConfirm (opcd : OpCode) (atoms : List Atom) :
    Except String (List Atom) := do
  let atoms ← confirmOperand opcd.expected.lit .expression
    "Expected: Symbol or literal value" (nextAtom atoms)
  let atoms ← confirmOperand opcd.expected.sr1 .register "Expected: Register"
    atoms
  let atoms ← confirmOperand opcd.expected.sr2 .register "Expected: Register"
    atoms
  confirmOperand opcd.expected.dst .register "Expected: Register" atoms

/-! ## One atom -/

namespace Asm

def modify (f : Instruction → Instruction) (s : Asm) : Asm :=
  { s with
    program := fun i => if i = s.inst then f (s.program i) else s.program i }

def setSrc1 (v : BitVec 32) (s : Asm) : Asm :=
  s.modify fun inst => { inst with src1 := v }

def withEval (f : Evaluator → Option Evaluator) (s : Asm) : Option Asm :=
  (f s.eval).map fun eval => { s with eval }

def numeric (a : Atom) (s : Asm) : Option Asm :=
  if s.expect.lit then
    some { s.setSrc1 a.value with expect := { s.expect with lit := false } }
  else s.withEval (Evaluator.pushOperand { literalValue := a.value })

/-- A symbol without a value yet is a forward reference. -/
def operandSymbol (a : Atom) (s : Asm) : Option Asm :=
  let v := s.eval.symbolValue a.text
  let s := { s.setSrc1 v with expect := { s.expect with lit := false } }
  if v = 0 then
    if FORWARD_REFS ≤ s.forward.length + 1 then none
    else some { s with forward := s.forward ++ [(s.inst, a.text)] }
  else some s

def alpha (a : Atom) (s : Asm) : Option Asm :=
  (s.withEval (Evaluator.getSymbol a.text)).bind fun s =>
    if s.expect.lit then s.operandSymbol a
    else s.withEval (Evaluator.pushOperand { symbolRef := some a.text })

/-- A definition is taken for a second one by the value of the symbol. -/
def defineLabel (name : List Char) (s : Asm) : Option Asm :=
  s.withEval fun e =>
    (e.getSymbol name).bind fun e =>
      (if e.symbolValue name = 0 then some e
        else e.error "Label: double definition").map
          (Evaluator.store ⟨name, s.pc, .label⟩)

def startAddress (v : BitVec 32) (s : Asm) : Option Asm :=
  if s.pc = 0 then some { s with pc := v, loadAddress := v }
  else s.withEval (Evaluator.error
    "Code block must be contiguous, one start address only")

def operator (a : Atom) (s : Asm) : Option Asm :=
  if a.oprId = .lbl then
    match s.patom with
    | none => none
    | some patom =>
      if patom.type = .alpha then s.defineLabel patom.text
      else if patom.type = .numeric then s.startAddress patom.value
      else some s
  else s.withEval (Evaluator.pushOperator a.oprId)

/-- The first of an instruction: `rest` are the atoms behind its op-code. -/
def opCode (lines : Nat) (rest : List Atom) (a : Atom) (s : Asm) :
    Option Asm :=
  match instructionSet[a.value.toNat]? with
  | none => none
  | some opcd =>
    if lines ≤ s.index then none
    else
      let s := { s with
        program := fun i =>
          if i = s.index then { number := opcd.number.number }
          else s.program i
        inst := s.index
        index := s.index + 1
        pc := s.pc + 1
        expect := opcd.expected }
      match getConfirm opcd (a :: rest) with
      | .ok _ => some s
      | .error text => s.withEval (Evaluator.error text)

def register (a : Atom) (s : Asm) : Asm :=
  if s.expect.sr1 then
    { s.setSrc1 a.value with expect := { s.expect with sr1 := false } }
  else if s.expect.sr2 then
    { s.modify (fun inst => { inst with src2 := a.value.setWidth 8 }) with
      expect := { s.expect with sr2 := false } }
  else if s.expect.dst then
    { s.modify (fun inst => { inst with dest := a.value.setWidth 8 }) with
      expect := { s.expect with dst := false } }
  else s

def openBracket (s : Asm) : Option Asm :=
  (s.withEval (Evaluator.pushOperator .stm)).map fun s =>
    { s with expect := { s.expect with lit := false } }

/-- The value of the expression goes to the current instruction, whichever that
is. -/
def closeBracket (p : Shifts) (s : Asm) : Option Asm :=
  (s.eval.doExpression p).map fun r =>
    { setSrc1 r.2 { s with eval := r.1 } with
      expect := { s.expect with lit := false } }

def seperator (s : Asm) : Option Asm :=
  let s := { s with eval := s.eval.resetStacks }
  if s.expect.lit then
    (s.withEval (Evaluator.error "Unexpected seperator")).map fun s =>
      { s with expect := { s.expect with lit := false } }
  else some s

/-- The switch on the type of an atom. -/
def atom (p : Shifts) (lines : Nat) (rest : List Atom) (a : Atom) (s : Asm) :
    Option Asm :=
  match a.type with
  | .numeric => s.numeric a
  | .alpha => s.alpha a
  | .operator => s.operator a
  | .opCode => s.opCode lines rest a
  | .register => some (s.register a)
  | .open | .openIndex => s.openBracket
  | .close | .closeIndex => s.closeBracket p
  | .seperator => s.seperator
  | .comment | .illegalChar | .terminator | .bit | .expression | .notSet =>
    some s

/-- One round of the loop of `Assemble()`. -/
def step (p : Shifts) (lines : Nat) (rest : List Atom) (a : Atom) (s : Asm) :
    Option Asm :=
  (s.atom p lines rest a).map fun s => { s with patom := some a }

end Asm

/-- `Assemble()` over a list of atoms. -/
def assemble (p : Shifts) (lines : Nat) : List Atom → Asm → Option Asm
  | [], s => some s
  | a :: rest, s => (s.step p lines rest a).bind (assemble p lines rest)

/-- The second pass over the forward references. -/
def Asm.pass2 (s : Asm) : Nat → Instruction :=
  s.forward.foldl
    (fun program r i =>
      if i = r.1 then
        { program i with src1 := s.eval.symbolValue r.2 }
      else program i)
    s.program

/-! ## Source texts -/

/-- What `main()` reads of a file. -/
def readSource (file : List Char) : List Char :=
  file.takeWhile fun c => c ≠ '\x00' ∧ c ≠ 'ÿ'

/-- `Assemble()` of a source text, with one instruction of memory for each of
its lines. -/
def assembleText (p : Shifts) (file : List Char) : Option Asm :=
  let source := readSource file
  if file.length < 2 ∨ source.head? = some '.' ∨ source.count '\n' = 0 then
    none
  else match getAtoms source with
    | none => none
    | some (atoms, illegal) =>
      assemble p (source.count '\n') atoms
        { eval := { errors := if illegal then ["Illegal character"] else [] } }

end Coht.Mttn
