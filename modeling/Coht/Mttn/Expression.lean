import Coht.Mttn.Atoms

/-!
# Symbols and expressions of the assembler (`asm.c`)

Symbols live in one table of at most `SYMBOLS` entries and are told apart by
their names, so a `Symbol *` is a name here. An expression is a stack of
operands and a stack of operators, and `DoExpression()` works the operators
off from the top. What a popped operand leaves behind on its stack stays
there: `OprSTM` returns it.

A fatal error exits, as does one error too many, and a division that traps or
a read behind the operand stack is undefined: there is no state afterwards.
`stores` is a history of what symbols were given. Nothing reads it but the
statements about symbols.
-/

namespace Coht.Mttn

structure Symbol where
  name : List Char
  value : BitVec 32 := 0
  isDefined : Bool := false

structure Operand where
  symbolRef : Option (List Char) := none
  literalValue : BitVec 32 := 0

/-- What gave a symbol its value: a label, an assignment, or `++` and `--`. -/
inductive StoreKind
  | label
  | assigned
  | counted
deriving DecidableEq

structure Store where
  name : List Char
  value : BitVec 32
  kind : StoreKind
deriving DecidableEq

structure Evaluator where
  symbolTable : List Symbol := []
  operandStack : Nat → Operand := fun _ => {}
  operandStackSize : Nat := 0
  operatorStack : List OprId := []
  errors : List String := []
  stores : List Store := []

def MAX_ERROR_COUNT : Nat := 10
def SYMBOLS : Nat := 1024
def OPERAND_STACK : Nat := 64
def OPERATOR_STACK : Nat := 32

namespace Evaluator

/-- `Error()` of a kind that is not fatal. -/
def error (text : String) (e : Evaluator) : Option Evaluator :=
  if MAX_ERROR_COUNT ≤ e.errors.length then none
  else some { e with errors := text :: e.errors }

/-! ## The symbol table -/

def symbol (e : Evaluator) (name : List Char) : Option Symbol :=
  e.symbolTable.find? fun y => y.name = name

/-- `GetSymbol()`: an unknown name gets an entry. -/
def getSymbol (name : List Char) (e : Evaluator) : Option Evaluator :=
  match e.symbol name with
  | some _ => some e
  | none =>
    if e.symbolTable.length < SYMBOLS then
      some { e with symbolTable := e.symbolTable ++ [{ name }] }
    else none

def symbolValue (e : Evaluator) (name : List Char) : BitVec 32 :=
  match e.symbol name with
  | some y => y.value
  | none => 0

/-- A symbol gets a value, and is defined from there on unless it was only
counted. -/
def store (st : Store) (e : Evaluator) : Evaluator :=
  { e with
    symbolTable := e.symbolTable.map fun y =>
      if y.name = st.name then
        { y with
          value := st.value
          isDefined := y.isDefined || st.kind ≠ .counted }
      else y
    stores := st :: e.stores }

/-! ## The stacks -/

def pushOperand (o : Operand) (e : Evaluator) : Option Evaluator :=
  if e.operandStackSize < OPERAND_STACK then
    some { e with
      operandStack := fun i =>
        if i = e.operandStackSize then o else e.operandStack i
      operandStackSize := e.operandStackSize + 1 }
  else none

def pushOperator (opr : OprId) (e : Evaluator) : Option Evaluator :=
  if e.operatorStack.length < OPERATOR_STACK then
    some { e with operatorStack := opr :: e.operatorStack }
  else none

def popOperand (e : Evaluator) : Option (Operand × Evaluator) :=
  if e.operandStackSize = 0 then none
  else some (e.operandStack (e.operandStackSize - 1),
    { e with operandStackSize := e.operandStackSize - 1 })

def resetStacks (e : Evaluator) : Evaluator :=
  { e with operandStackSize := 0, operatorStack := [] }

def getValue (e : Evaluator) (o : Operand) : BitVec 32 :=
  match o.symbolRef with
  | some name => e.symbolValue name
  | none => o.literalValue

/-! ## Operators -/

/-- The state after an operator, and what `DoExpression()` returns with it if
it returns. -/
abbrev Outcome := Option (Evaluator × Option (BitVec 32))

def underflow (e : Evaluator) : Outcome :=
  (e.error "Operand stack underflow").map fun e => (e, some 0)

def unary (f : BitVec 32 → BitVec 32) (e : Evaluator) : Outcome :=
  match e.popOperand with
  | none => e.underflow
  | some (left, e) =>
    (e.pushOperand { literalValue := f (e.getValue left) }).map (·, none)

def binary (f : BitVec 32 → BitVec 32 → Option (BitVec 32)) (e : Evaluator) :
    Outcome :=
  match e.popOperand with
  | none => e.underflow
  | some (right, e) =>
    match e.popOperand with
    | none => e.underflow
    | some (left, e) =>
      match f (e.getValue left) (e.getValue right) with
      | none => none
      | some v => (e.pushOperand { literalValue := v }).map (·, none)

/-- `++` and `--`, in place. -/
def counting (f : BitVec 32 → BitVec 32) (text : String) (e : Evaluator) :
    Outcome :=
  match e.popOperand with
  | none => e.underflow
  | some (left, e) =>
    match left.symbolRef with
    | some name =>
      let v := f (e.getValue left)
      ((e.store ⟨name, v, .counted⟩).pushOperand
        { literalValue := v }).map (·, none)
    | none => (e.error text).map (·, none)

def assign (e : Evaluator) : Outcome :=
  match e.popOperand with
  | none => e.underflow
  | some (right, e) =>
    match e.popOperand with
    | none => e.underflow
    | some (left, e) =>
      match left.symbolRef with
      | some name =>
        ((e.store ⟨name, e.getValue right, .assigned⟩).pushOperand
          right).map (·, none)
      | none =>
        (e.error
          "Becomes Equal: Attempt to write to a literal").map (·, none)

def truth (b : Bool) : Option (BitVec 32) :=
  some (if b then BitVec.allOnes 32 else 0)

/-- The quotient, where the division does not trap. -/
def quotient (left right : BitVec 32) : Option (BitVec 32) :=
  if right = 0 ∨ left = BitVec.intMin 32 ∧ right = BitVec.allOnes 32 then none
  else some (left.sdiv right)

/-- One round of the loop of `DoExpression()`. -/
def applyOperator (p : Shifts) (e : Evaluator) : OprId → Outcome
  | .ne => e.binary fun l r => truth (l ≠ r)
  | .eq => e.binary fun l r => truth (l = r)
  | .gt => e.binary fun l r => truth (r.slt l)
  | .ge => e.binary fun l r => truth (r.sle l)
  | .lt => e.binary fun l r => truth (l.slt r)
  | .le => e.binary fun l r => truth (l.sle r)
  | .pl => e.binary fun l r => some (l + r)
  | .mi => e.binary fun l r => some (l - r)
  | .ti => e.binary fun l r => some (l * r)
  | .di => e.binary quotient
  | .and => e.binary fun l r => some (l &&& r)
  | .or => e.binary fun l r => some (l ||| r)
  | .xor => e.binary fun l r => some (l ^^^ r)
  | .not => e.unary fun l => ~~~l
  | .neg => e.unary fun l => -l
  | .lsh => e.binary fun l r => some (p.left l r)
  | .rsh => e.binary fun l r => some (p.right l r)
  | .inc => e.counting (· + 1) "Increment: Attempt to write to a literal"
  | .decr => e.counting (· - 1) "Decrement: Attempt to write to a literal"
  | .pop =>
    match e.popOperand with
    | none => e.underflow
    | some (right, e) => some (e, some right.literalValue)
  | .as => e.assign
  | .stm =>
    if e.operandStackSize < OPERAND_STACK then
      some (e, some (e.operandStack e.operandStackSize).literalValue)
    else none
  | .noop | .lbl => some (e, some 0)

def expressionLoop (p : Shifts) :
    List OprId → Evaluator → Option (Evaluator × BitVec 32)
  | [], e => (e.error "Operator stack underflow").map (·, 0)
  | opr :: oprs, e =>
    match ({ e with operatorStack := oprs }).applyOperator p opr with
    | none => none
    | some (e, some v) => some (e, v)
    | some (e, none) => expressionLoop p oprs e

/-- `DoExpression()`. -/
def doExpression (p : Shifts) (e : Evaluator) :
    Option (Evaluator × BitVec 32) :=
  expressionLoop p e.operatorStack e

end Evaluator

end Coht.Mttn
