import Coht.Mttn.Asm

/-!
# Expressions in brackets (`asm.c`)

All operators of an expression have one priority, and each takes everything
that stands behind it. Symbols are operands by reference: what counts is their
value when an operator comes to them. An expression in brackets is worked off
at its closing bracket, before the rest of what it stands in.

`Expr.eval` is that meaning, and `Expr.tokens` is how an expression is
written. `Evaluator.called` is the call of `DoExpression()` at its closing
bracket, and `assemble_takeAll` says that `Assemble()` gets there.
-/

namespace Coht.Mttn

/-! ## Meaning -/

inductive UnaryId
  | not | neg | inc | decr
deriving DecidableEq

inductive BinaryId
  | ne | eq | gt | ge | lt | le | as | pl | mi | ti | di | and | or | xor
  | lsh | rsh
deriving DecidableEq

mutual

inductive Term
  | literal (v : BitVec 32)
  | symbol (name : List Char)
  | bracket (x : Expr)

inductive Expr
  | term (t : Term)
  | unary (f : UnaryId) (x : Expr)
  | binary (g : BinaryId) (left : Term) (right : Expr)

end

abbrev Values := List Char → BitVec 32

def Values.set (values : Values) (name : List Char) (v : BitVec 32) : Values :=
  fun x => if x = name then v else values x

/-- Why an expression has no value. -/
inductive Fault
  | zeroDivisor
  | literalTarget
deriving DecidableEq

abbrev Result := Except Fault (Operand × Values)

def Result.andThen (result : Result) (f : Operand → Values → Result) :
    Result :=
  match result with
  | .ok (o, values) => f o values
  | .error fault => .error fault

def Operand.valueIn (values : Values) (o : Operand) : BitVec 32 :=
  match o.symbolRef with
  | some name => values name
  | none => o.literalValue

def counted (f : BitVec 32 → BitVec 32) (values : Values) (o : Operand) :
    Result :=
  match o.symbolRef with
  | some name =>
    .ok ({ literalValue := f (values name) },
      values.set name (f (values name)))
  | none => .error .literalTarget

def UnaryId.apply (values : Values) (o : Operand) : UnaryId → Result
  | .not => .ok ({ literalValue := ~~~o.valueIn values }, values)
  | .neg => .ok ({ literalValue := -o.valueIn values }, values)
  | .inc => counted (· + 1) values o
  | .decr => counted (· - 1) values o

def flag (b : Bool) : BitVec 32 := if b then BitVec.allOnes 32 else 0

/-- The operators that have a value for any two operands. -/
def BinaryId.value (p : Shifts) (l r : BitVec 32) : BinaryId → BitVec 32
  | .ne => flag (l ≠ r)
  | .eq => flag (l = r)
  | .gt => flag (r.slt l)
  | .ge => flag (r.sle l)
  | .lt => flag (l.slt r)
  | .le => flag (l.sle r)
  | .pl => l + r
  | .mi => l - r
  | .ti => l * r
  | .di => l.sdiv r
  | .and => l &&& r
  | .or => l ||| r
  | .xor => l ^^^ r
  | .lsh => p.left l r
  | .rsh => p.right l r
  | .as => r

def BinaryId.apply (p : Shifts) (values : Values) (left right : Operand)
    (g : BinaryId) : Result :=
  if g = .as then
    match left.symbolRef with
    | some name => .ok (right, values.set name (right.valueIn values))
    | none => .error .literalTarget
  else if g = .di ∧ right.valueIn values = 0 then .error .zeroDivisor
  else
    .ok ({ literalValue :=
      g.value p (left.valueIn values) (right.valueIn values) }, values)

mutual

def Term.eval (p : Shifts) : Term → Values → Result
  | .literal v, values => .ok ({ literalValue := v }, values)
  | .symbol name, values => .ok ({ symbolRef := some name }, values)
  | .bracket x, values => x.eval p values

def Expr.eval (p : Shifts) : Expr → Values → Result
  | .term t, values => t.eval p values
  | .unary f x, values =>
    (x.eval p values).andThen fun o values => f.apply values o
  | .binary g left right, values =>
    (left.eval p values).andThen fun l values =>
      (right.eval p values).andThen fun r values => g.apply p values l r

end

/-! ## Atoms of an expression -/

inductive Token
  | literal (v : BitVec 32)
  | symbol (name : List Char)
  | opr (opr : OprId)
  | openBracket
  | closeBracket
deriving DecidableEq

def UnaryId.opr : UnaryId → OprId
  | .not => .not
  | .neg => .neg
  | .inc => .inc
  | .decr => .decr

def BinaryId.opr : BinaryId → OprId
  | .ne => .ne
  | .eq => .eq
  | .gt => .gt
  | .ge => .ge
  | .lt => .lt
  | .le => .le
  | .as => .as
  | .pl => .pl
  | .mi => .mi
  | .ti => .ti
  | .di => .di
  | .and => .and
  | .or => .or
  | .xor => .xor
  | .lsh => .lsh
  | .rsh => .rsh

mutual

def Term.tokens : Term → List Token
  | .literal v => [.literal v]
  | .symbol name => [.symbol name]
  | .bracket x => .openBracket :: (x.tokens ++ [.closeBracket])

def Expr.tokens : Expr → List Token
  | .term t => t.tokens
  | .unary f x => .opr f.opr :: x.tokens
  | .binary g left right => left.tokens ++ .opr g.opr :: right.tokens

end

namespace Evaluator

/-- What `Assemble()` does to the stacks and the symbols at an atom. -/
def take (p : Shifts) (e : Evaluator) : Token → Option Evaluator
  | .literal v => e.pushOperand { literalValue := v }
  | .symbol name =>
    (e.getSymbol name).bind (pushOperand { symbolRef := some name })
  | .opr opr => e.pushOperator opr
  | .openBracket => e.pushOperator .stm
  | .closeBracket => (e.doExpression p).map Prod.fst

def takeAll (p : Shifts) : Evaluator → List Token → Option Evaluator
  | e, [] => some e
  | e, t :: ts => (e.take p t).bind fun e => takeAll p e ts

/-- The call of `DoExpression()` at the closing bracket of `x`. -/
def called (p : Shifts) (x : Expr) (e : Evaluator) :
    Option (Evaluator × BitVec 32) :=
  (e.takeAll p (.openBracket :: x.tokens)).bind (doExpression p)

end Evaluator

def Atom.token (a : Atom) : Option Token :=
  match a.type with
  | .numeric => some (.literal a.value)
  | .alpha => some (.symbol a.text)
  | .operator => if a.oprId = .lbl then none else some (.opr a.oprId)
  | .open | .openIndex => some .openBracket
  | .close | .closeIndex => some .closeBracket
  | _ => none

section Assembling

variable {p : Shifts} {lines : Nat} {rest atoms : List Atom} {a : Atom}
  {t : Token} {tokens : List Token} {s s' : Asm}

theorem Asm.withEval_eval (f : Evaluator → Option Evaluator) (s : Asm) :
    (s.withEval f).map Asm.eval = f s.eval := by
  rw [withEval, Option.map_map]
  exact Option.map_id'

theorem Asm.withEval_expect {f : Evaluator → Option Evaluator}
    (h : s.withEval f = some s') : s'.expect = s.expect := by
  obtain ⟨e, _, rfl⟩ := Option.map_eq_some_iff.mp h
  rfl

theorem Asm.atom_take (ha : a.token = some t) (hs : s.expect.lit = false) :
    (s.atom p lines rest a).map Asm.eval = s.eval.take p t := by
  have hnumeric : s.numeric a =
      s.withEval (Evaluator.pushOperand { literalValue := a.value }) := by
    rw [numeric, hs]
    rfl
  cases htype : a.type with
  | numeric =>
    simp only [Atom.token, htype, Option.some.injEq] at ha
    rw [← ha, atom, htype]
    dsimp only
    rw [hnumeric, withEval_eval]
    rfl
  | alpha =>
    simp only [Atom.token, htype, Option.some.injEq] at ha
    rw [← ha, atom, htype]
    dsimp only
    rw [alpha, Evaluator.take, withEval]
    cases s.eval.getSymbol a.text with
    | none => rfl
    | some e =>
      rw [Option.map_some, Option.bind_some, Option.bind_some]
      dsimp only
      rw [hs, if_neg Bool.false_ne_true, withEval_eval]
  | operator =>
    simp only [Atom.token, htype] at ha
    split at ha
    · cases ha
    · rename_i hlbl
      injection ha with ha
      rw [← ha, atom, htype]
      dsimp only
      rw [operator, if_neg hlbl, withEval_eval]
      rfl
  | «open» | openIndex =>
    simp only [Atom.token, htype, Option.some.injEq] at ha
    rw [← ha, atom, htype]
    dsimp only
    rw [openBracket, Option.map_map]
    exact withEval_eval _ s
  | close | closeIndex =>
    simp only [Atom.token, htype, Option.some.injEq] at ha
    rw [← ha, atom, htype]
    dsimp only
    rw [closeBracket, Option.map_map]
    rfl
  | seperator | comment | illegalChar | terminator | bit | opCode | register
  | expression | notSet =>
    simp [Atom.token, htype] at ha

theorem Asm.atom_expect (ha : a.token = some t) (hs : s.expect.lit = false)
    (h : s.atom p lines rest a = some s') : s'.expect.lit = false := by
  cases htype : a.type with
  | numeric =>
    simp only [atom, htype, numeric, hs, Bool.false_eq_true, if_false] at h
    rw [withEval_expect h, hs]
  | alpha =>
    simp only [atom, htype] at h
    obtain ⟨s₁, h₁, h⟩ := Option.bind_eq_some_iff.mp h
    have hs₁ := (congrArg Flags.lit (withEval_expect h₁)).trans hs
    rw [hs₁, if_neg Bool.false_ne_true] at h
    rw [withEval_expect h, hs₁]
  | operator =>
    simp only [Atom.token, htype] at ha
    split at ha
    · cases ha
    · rename_i hlbl
      simp only [atom, htype, operator, hlbl, if_false] at h
      rw [withEval_expect h, hs]
  | «open» | openIndex | close | closeIndex =>
    simp only [atom, htype] at h
    obtain ⟨_, _, rfl⟩ := Option.map_eq_some_iff.mp h
    rfl
  | seperator | comment | illegalChar | terminator | bit | opCode | register
  | expression | notSet =>
    simp [Atom.token, htype] at ha

theorem assemble_takeAll (hatoms : atoms.map Atom.token = tokens.map some)
    (hs : s.expect.lit = false) :
    (assemble p lines atoms s).map Asm.eval =
      s.eval.takeAll p tokens := by
  induction atoms generalizing tokens s with
  | nil =>
    rw [List.map_nil, eq_comm, List.map_eq_nil_iff] at hatoms
    rw [hatoms]
    rfl
  | cons a atoms ih =>
    obtain ⟨t, tokens, rfl, ha, hatoms⟩ := List.map_eq_cons_iff.mp hatoms.symm
    rw [assemble, Evaluator.takeAll, Asm.step, ← Asm.atom_take ha.symm hs]
    cases hstep : s.atom p lines atoms a with
    | none => rfl
    | some s₁ =>
      rw [Option.map_some, Option.map_some, Option.bind_some,
        Option.bind_some]
      have hlit := Asm.atom_expect ha.symm hs hstep
      exact ih hatoms.symm hlit

end Assembling

end Coht.Mttn
