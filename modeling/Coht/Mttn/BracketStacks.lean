import Coht.Mttn.Brackets
import Coht.Mttn.Symbols

/-!
# What `DoExpression()` leaves behind (`asm.c`)

The atoms of an expression leave its operands on one stack and its operators
on another, and an operator finds its operands on top when its turn comes.
`Reduces` says what becomes of a computation that works an expression off, and
`Taken` is the invariant of the induction over expressions.

`DoExpression()` pushes the result where the operands were and returns what is
in the cell above it: the literal of the last right operand if there was an
operator with two operands, and something older than the expression if there
was none. `Expr.residue` is that literal.
-/

namespace Coht.Mttn

/-! ## What is left behind -/

/-- The literal of a result; `cell` if there is none. -/
def Result.literal (result : Result) (cell : BitVec 32) : BitVec 32 :=
  match result with
  | .ok (o, _) => o.literalValue
  | .error _ => cell

mutual

/-- The literal in the cell above the result, which held `cell` before. -/
def Term.residue (p : Shifts) : Term → Values → BitVec 32 → BitVec 32
  | .literal _, _, cell => cell
  | .symbol _, _, cell => cell
  | .bracket x, values, cell => x.residue p values cell

def Expr.residue (p : Shifts) : Expr → Values → BitVec 32 → BitVec 32
  | .term t, values, cell => t.residue p values cell
  | .unary _ x, values, cell => x.residue p values cell
  | .binary _ left right, values, cell =>
    match left.eval p values with
    | .ok (_, values) => (right.eval p values).literal cell
    | .error _ => cell

end

/-! ## What the stacks do -/

namespace Evaluator

/-- `o` is on top of the operands of `e`, with `above` in the cell over it. -/
structure Holds (e : Evaluator) (o : Operand) (values : Values)
    (above : BitVec 32) (e' : Evaluator) : Prop where
  size : e'.operandStackSize = e.operandStackSize + 1
  top : e'.operandStack e.operandStackSize = o
  above : (e'.operandStack (e.operandStackSize + 1)).literalValue = above
  below : ∀ i < e.operandStackSize, e'.operandStack i = e.operandStack i
  value : e'.symbolValue = values
  table : ∀ name, (e.symbol name).isSome → (e'.symbol name).isSome
  known : ∀ name, o.symbolRef = some name → (e'.symbol name).isSome

structure Popped (e : Evaluator) (values : Values) (above : BitVec 32)
    (e' : Evaluator) : Prop where
  size : e'.operandStackSize = e.operandStackSize
  above : (e'.operandStack (e.operandStackSize + 1)).literalValue = above
  below : ∀ i < e.operandStackSize, e'.operandStack i = e.operandStack i
  value : e'.symbolValue = values
  table : ∀ name, (e.symbol name).isSome → (e'.symbol name).isSome

/-- A computation gets to `rest` with the result of an expression, or to
nothing. -/
def Reduces {α : Type} (e : Evaluator) (result : Result) (above : BitVec 32)
    (whole : Option α) (rest : Evaluator → Option α) : Prop :=
  match result with
  | .ok (o, values) =>
    whole = none ∨ ∃ e', e.Holds o values above e' ∧ whole = rest e'
  | .error .zeroDivisor => whole = none
  | .error .literalTarget => True

section Simulation

variable {α : Type} {p : Shifts} {e e' e₁ : Evaluator} {o l r : Operand}
  {values values' : Values} {above above' cell : BitVec 32} {oprs : List OprId}
  {whole : Option α} {rest : Evaluator → Option α} {result : Result}

theorem getValue_eq (h : e.symbolValue = values) :
    e.getValue o = o.valueIn values := by
  subst h
  rfl

theorem Holds.popOperand_eq (h : e.Holds o values above e') :
    e'.popOperand =
      some (o, { e' with operandStackSize := e.operandStackSize }) := by
  rw [Evaluator.popOperand, if_neg (by rw [h.size]; omega), h.size,
    Nat.add_sub_cancel, h.top]

theorem Holds.popped (h : e.Holds o values above e') :
    e.Popped values above
      { e' with operandStackSize := e.operandStackSize } :=
  ⟨rfl, h.above, h.below, h.value, h.table⟩

theorem Reduces.none : e.Reduces result above none rest := by
  unfold Reduces
  split
  · exact .inl rfl
  · rfl
  · trivial

theorem pushOperand_reduces (h : e.Popped values above e')
    (hknown : ∀ name, o.symbolRef = some name → (e'.symbol name).isSome) :
    e.Reduces (.ok (o, values)) above (e'.pushOperand o) some := by
  unfold pushOperand
  split
  · refine .inr ⟨_, ?_, rfl⟩
    have hsize := h.size
    refine ⟨?_, ?_, ?_, ?_, h.value, h.table, hknown⟩
    · exact congrArg (· + 1) hsize
    · exact if_pos hsize.symm
    · dsimp only
      rw [if_neg (by omega), h.above]
    · intro i hi
      dsimp only
      rw [if_neg (by omega), h.below i hi]
  · exact .inl rfl

theorem storeOperand_reduces {st : Store}
    (h : e.Popped values above e')
    (hname : (e'.symbol st.name).isSome)
    (hknown : ∀ name, o.symbolRef = some name → (e'.symbol name).isSome) :
    e.Reduces (.ok (o, values.set st.name st.value)) above
      ((e'.store st).pushOperand o) some := by
  refine pushOperand_reduces ⟨h.size, h.above, h.below, ?_, ?_⟩ ?_
  · funext x
    rw [symbolValue_store hname, Values.set, h.value]
  · intro x hx
    rw [symbol_store_isSome]
    exact h.table x hx
  · intro x hx
    rw [symbol_store_isSome]
    exact hknown x hx

theorem Holds.unary (h : e.Holds o values above e')
    (f : BitVec 32 → BitVec 32) :
    ∃ x, e'.unary f = x.map (·, none) ∧
      e.Reduces (.ok ({ literalValue := f (o.valueIn values) }, values)) above
        x some := by
  rw [Evaluator.unary, h.popOperand_eq]
  dsimp only
  rw [getValue_eq (Holds.popped h).value]
  exact ⟨_, rfl, pushOperand_reduces h.popped fun _ hx => by cases hx⟩

theorem Holds.counting (h : e.Holds o values above e')
    (f : BitVec 32 → BitVec 32) (text : String) :
    ∃ x, e'.counting f text = x.map (·, none) ∧
      e.Reduces (counted f values o) above x some := by
  rw [Evaluator.counting, h.popOperand_eq]
  dsimp only
  unfold counted
  cases href : o.symbolRef with
  | none => exact ⟨_, rfl, trivial⟩
  | some name =>
    have hv := getValue_eq (Holds.popped h).value (o := o)
    rw [Operand.valueIn, href] at hv
    dsimp only at hv ⊢
    rw [hv]
    exact ⟨_, rfl, storeOperand_reduces h.popped (h.known name href)
      fun _ hx => by cases hx⟩

theorem Holds.unaryOperator (h : e.Holds o values above e') (f : UnaryId) :
    ∃ x, e'.applyOperator p f.opr = x.map (·, none) ∧
      e.Reduces (f.apply values o) above x some := by
  cases f with
  | not => exact h.unary _
  | neg => exact h.unary _
  | inc => exact h.counting (· + 1) "Increment: Attempt to write to a literal"
  | decr =>
    exact h.counting (· - 1) "Decrement: Attempt to write to a literal"

section Binary

variable (hl : e.Holds l values above e₁) (hr : e₁.Holds r values' above' e')

include hl hr

theorem Holds.popLeft :
    popOperand { e' with operandStackSize := e₁.operandStackSize } =
      some (l, { e' with operandStackSize := e.operandStackSize }) := by
  have hl' : e'.operandStack e.operandStackSize = l := by
    rw [hr.below _ (by rw [hl.size]; omega), hl.top]
  rw [Evaluator.popOperand, if_neg (by simp only [hl.size]; omega)]
  simp only [hl.size, Nat.add_sub_cancel, hl']

theorem Holds.poppedBoth :
    e.Popped values' r.literalValue
      { e' with operandStackSize := e.operandStackSize } where
  size := rfl
  above := by
    rw [← hl.size, ← hr.top]
  below i hi := by
    refine (hr.below i ?_).trans (hl.below i hi)
    rw [hl.size]
    omega
  value := hr.value
  table x hx := hr.table x (hl.table x hx)

theorem Holds.binary {f : BitVec 32 → BitVec 32 → Option (BitVec 32)}
    (hf : ∀ v, f (l.valueIn values') (r.valueIn values') = some v →
      result = .ok ({ literalValue := v }, values')) :
    ∃ x, e'.binary f = x.map (·, none) ∧
      e.Reduces result r.literalValue x some := by
  have hpopped := Holds.poppedBoth hl hr
  rw [Evaluator.binary, hr.popOperand_eq]
  dsimp only
  rw [Holds.popLeft hl hr]
  dsimp only
  rw [getValue_eq hpopped.value, getValue_eq hpopped.value]
  cases hv : f (l.valueIn values') (r.valueIn values') with
  | none => exact ⟨none, rfl, Reduces.none⟩
  | some v =>
    rw [hf v hv]
    exact ⟨_, rfl, pushOperand_reduces hpopped fun _ hx => by cases hx⟩

theorem Holds.assign :
    ∃ x, e'.assign = x.map (·, none) ∧
      e.Reduces (BinaryId.apply p values' l r .as) r.literalValue x some := by
  have hpopped := Holds.poppedBoth hl hr
  rw [Evaluator.assign, hr.popOperand_eq]
  dsimp only
  rw [Holds.popLeft hl hr]
  dsimp only
  rw [BinaryId.apply, if_pos rfl, getValue_eq hpopped.value]
  cases href : l.symbolRef with
  | none => exact ⟨_, rfl, trivial⟩
  | some name =>
    exact ⟨_, rfl, storeOperand_reduces hpopped
      (hr.table name (hl.known name href)) hr.known⟩

theorem Holds.binaryOperator (g : BinaryId) :
    ∃ x, e'.applyOperator p g.opr = x.map (·, none) ∧
      e.Reduces (g.apply p values' l r) r.literalValue x some := by
  cases g with
  | as => exact Holds.assign hl hr
  | di =>
    refine Holds.binary hl hr fun v hv => ?_
    unfold quotient at hv
    split at hv
    · cases hv
    · rename_i hdiv
      injection hv with hv
      rw [BinaryId.apply, if_neg (by decide),
        if_neg fun h => hdiv (.inl h.2), ← hv]
      rfl
  | ne | eq | gt | ge | lt | le | pl | mi | ti | and | or | xor | lsh | rsh =>
    rw [BinaryId.opr, applyOperator]
    refine Holds.binary hl hr fun v hv => ?_
    injection hv with hv
    rw [← hv]
    rfl

end Binary

/-! ### Atoms one after another -/

def cellAbove (e : Evaluator) : BitVec 32 :=
  (e.operandStack (e.operandStackSize + 1)).literalValue

theorem takeAll_append (e : Evaluator) (ts ts' : List Token) :
    e.takeAll p (ts ++ ts') =
      (e.takeAll p ts).bind fun e => e.takeAll p ts' := by
  induction ts generalizing e with
  | nil => rfl
  | cons t ts ih =>
    rw [List.cons_append, takeAll, takeAll, Option.bind_assoc]
    congr 1
    funext e
    exact ih e

theorem takeAll_singleton (e : Evaluator) (t : Token) :
    e.takeAll p [t] = e.take p t := by
  rw [takeAll]
  exact Option.bind_fun_some _

theorem pushOperator_eq {opr : OprId} (h : e.pushOperator opr = some e') :
    e' = { e with operatorStack := opr :: e.operatorStack } := by
  unfold pushOperator at h
  split at h
  · injection h with h
    exact h.symm
  · cases h

theorem pushOperand_operators (h : e.pushOperand o = some e') :
    e'.operatorStack = e.operatorStack := by
  unfold pushOperand at h
  split at h
  · injection h with h
    rw [← h]
  · cases h

theorem Popped.refl (e : Evaluator) :
    e.Popped e.symbolValue e.cellAbove e :=
  ⟨rfl, rfl, fun _ _ => rfl, rfl, fun _ hx => hx⟩

theorem getSymbol_popped {name : List Char} (h : e.getSymbol name = some e') :
    e.Popped e.symbolValue e.cellAbove e' ∧
      e'.operatorStack = e.operatorStack := by
  have hvalue : e'.symbolValue = e.symbolValue :=
    funext fun x => (getSymbol_spec h).1.value x
  unfold getSymbol at h
  split at h
  · injection h with h
    rw [← h]
    exact ⟨Popped.refl e, rfl⟩
  · split at h
    · injection h with h
      subst h
      refine ⟨⟨rfl, rfl, fun _ _ => rfl, hvalue, fun x hx => ?_⟩, rfl⟩
      rw [symbol, List.find?_append, Option.isSome_or]
      exact Bool.or_eq_true_iff.mpr (.inl hx)
    · cases h

theorem Reduces.keeping {x : Option Evaluator}
    (h : e.Reduces result above x some)
    (hoprs : ∀ e', x = some e' → e'.operatorStack = e.operatorStack) :
    e.Reduces result above x fun e' =>
      some { e' with operatorStack := e.operatorStack } := by
  unfold Reduces at h ⊢
  split
  · refine h.imp_right fun ⟨e', he', heq⟩ => ⟨e', he', ?_⟩
    rw [heq, ← hoprs e' heq]
  · exact h
  · trivial

/-! ### Operators still on their stack -/

theorem expressionLoop_cons {x : Option Evaluator} {opr : OprId}
    (h : applyOperator p { e' with operatorStack := oprs } opr =
      x.map (·, none)) :
    expressionLoop p (opr :: oprs) e' = x.bind (expressionLoop p oprs) := by
  rw [expressionLoop, h]
  cases x <;> rfl

theorem Holds.withOperators (h : e.Holds o values above e') :
    e.Holds o values above { e' with operatorStack := oprs } :=
  ⟨h.size, h.top, h.above, h.below, h.value, h.table, h.known⟩

theorem Reduces.withOperators
    (h : Reduces { e with operatorStack := oprs } result above whole rest) :
    e.Reduces result above whole rest := by
  unfold Reduces at h ⊢
  split
  · refine h.imp_right fun ⟨e', he', heq⟩ => ⟨e', ?_, heq⟩
    exact ⟨he'.size, he'.top, he'.above, he'.below, he'.value, he'.table,
      he'.known⟩
  · exact h
  · trivial

theorem Reduces.bind {x : Option Evaluator}
    (h : e.Reduces result above x some) :
    e.Reduces result above (x.bind rest) rest := by
  unfold Reduces at h ⊢
  split
  · rcases h with h | ⟨e', he', h⟩
    · exact .inl (by rw [h, Option.bind_none])
    · exact .inr ⟨e', he', by rw [h, Option.bind_some]⟩
  · dsimp only at h
    rw [h, Option.bind_none]
  · trivial

theorem Reduces.unary {whole : Option (Evaluator × BitVec 32)} (f : UnaryId)
    (h : e.Reduces result above whole (expressionLoop p (f.opr :: oprs))) :
    e.Reduces (result.andThen fun o values => f.apply values o) above whole
      (expressionLoop p oprs) := by
  cases result with
  | error fault =>
    cases fault with
    | zeroDivisor => exact h
    | literalTarget => trivial
  | ok ov =>
    rcases h with h | ⟨e', he', h⟩
    · rw [h]
      exact Reduces.none
    · obtain ⟨x, hx, hreduces⟩ :=
        Holds.unaryOperator (Holds.withOperators he') f
      rw [h, expressionLoop_cons hx]
      exact hreduces.bind

theorem Holds.reducesBinary {whole : Option (Evaluator × BitVec 32)}
    (g : BinaryId) (hl : e.Holds l values above e₁)
    (h : e₁.Reduces result above' whole (expressionLoop p (g.opr :: oprs))) :
    e.Reduces (result.andThen fun r values => g.apply p values l r)
      (result.literal cell) whole (expressionLoop p oprs) := by
  cases result with
  | error fault =>
    cases fault with
    | zeroDivisor => exact h
    | literalTarget => trivial
  | ok rv =>
    rcases h with h | ⟨e', he', h⟩
    · rw [h]
      exact Reduces.none
    · obtain ⟨x, hx, hreduces⟩ :=
        Holds.binaryOperator hl (Holds.withOperators he') g
      rw [h, expressionLoop_cons hx]
      exact hreduces.bind

/-- The atoms of `x` leave operators on their stack, and working these off
gives `x` its value. -/
def Taken (p : Shifts) (x : Expr) (e : Evaluator) : Prop :=
  x.eval p e.symbolValue = .error .literalTarget ∨
  e.takeAll p x.tokens = none ∨
  ∃ e₁ oprs, e.takeAll p x.tokens = some e₁ ∧
    e₁.operatorStack = oprs ++ e.operatorStack ∧
    ∀ rest, e.Reduces (x.eval p e.symbolValue)
      (x.residue p e.symbolValue e.cellAbove)
      (expressionLoop p (oprs ++ rest) e₁) (expressionLoop p rest)

theorem Taken.called {x : Expr}
    (h : ∀ e, Taken p x e) (e : Evaluator) :
    e.Reduces (x.eval p e.symbolValue)
      (x.residue p e.symbolValue e.cellAbove) (e.called p x)
      (expressionLoop p (.stm :: e.operatorStack)) := by
  rw [Evaluator.called, takeAll, take]
  cases hpush : e.pushOperator .stm with
  | none => exact Reduces.none
  | some e₀ =>
    obtain rfl := pushOperator_eq hpush
    rw [Option.bind_some]
    rcases h { e with operatorStack := .stm :: e.operatorStack } with
      hliteral | hnone | ⟨e₁, oprs, htake, hoprs, hreduces⟩
    · have hliteral' : x.eval p e.symbolValue = _ := hliteral
      rw [hliteral']
      trivial
    · rw [hnone]
      exact Reduces.none
    · rw [htake, Option.bind_some, doExpression, hoprs]
      exact (hreduces (.stm :: e.operatorStack)).withOperators

theorem Taken.unary {x : Expr} (h : ∀ e, Taken p x e) (f : UnaryId)
    (e : Evaluator) : Taken p (.unary f x) e := by
  unfold Taken
  rw [Expr.tokens, takeAll, take, Expr.eval, Expr.residue]
  cases hpush : e.pushOperator f.opr with
  | none => exact .inr (.inl rfl)
  | some e₀ =>
    obtain rfl := pushOperator_eq hpush
    rw [Option.bind_some]
    rcases h { e with operatorStack := f.opr :: e.operatorStack } with
      hliteral | hnone | ⟨e₁, oprs, htake, hoprs, hreduces⟩
    · have hliteral' : x.eval p e.symbolValue = _ := hliteral
      rw [hliteral']
      exact .inl rfl
    · exact .inr (.inl hnone)
    · refine .inr (.inr ⟨e₁, oprs ++ [f.opr], htake, ?_, fun rest => ?_⟩)
      · rw [hoprs, List.append_assoc]
        rfl
      · rw [List.append_assoc]
        exact (hreduces (f.opr :: rest)).withOperators.unary f

theorem Taken.binary {x : Expr} {t : Term}
    (ht : ∀ e : Evaluator, e.Reduces (t.eval p e.symbolValue)
      (t.residue p e.symbolValue e.cellAbove) (e.takeAll p t.tokens)
      fun e' => some { e' with operatorStack := e.operatorStack })
    (h : ∀ e, Taken p x e) (g : BinaryId) (e : Evaluator) :
    Taken p (.binary g t x) e := by
  unfold Taken
  rw [Expr.tokens, takeAll_append, Expr.eval, Expr.residue]
  have hleft := ht e
  cases hl : t.eval p e.symbolValue with
  | error fault =>
    rw [hl] at hleft
    cases fault with
    | zeroDivisor =>
      dsimp only [Reduces] at hleft
      rw [hleft]
      exact .inr (.inl rfl)
    | literalTarget => exact .inl rfl
  | ok lv =>
    obtain ⟨l, values⟩ := lv
    rw [hl] at hleft
    rcases hleft with hnone | ⟨e₂, hholds, htake⟩
    · rw [hnone]
      exact .inr (.inl rfl)
    rw [htake, Option.bind_some, takeAll, take]
    cases hpush : pushOperator g.opr
        { e₂ with operatorStack := e.operatorStack } with
    | none => exact .inr (.inl rfl)
    | some e₀ =>
      obtain rfl := pushOperator_eq hpush
      have hvalue : e₂.symbolValue = values := hholds.value
      rw [Option.bind_some]
      rcases h { e₂ with operatorStack := g.opr :: e.operatorStack } with
        hliteral | hnone | ⟨e₁, oprs, htake, hoprs, hreduces⟩
      · have hliteral' : x.eval p e₂.symbolValue = _ := hliteral
        rw [hvalue] at hliteral'
        refine .inl ?_
        rw [Result.andThen, hliteral']
        rfl
      · exact .inr (.inl hnone)
      · refine .inr (.inr
          ⟨e₁, oprs ++ [g.opr], htake, ?_, fun rest => ?_⟩)
        · rw [hoprs, List.append_assoc]
          rfl
        · rw [List.append_assoc]
          have hright := (hreduces (g.opr :: rest)).withOperators
          rw [show symbolValue { e₂ with
            operatorStack := g.opr :: e.operatorStack } = values
            from hvalue] at hright
          exact hholds.reducesBinary g hright

theorem expressionLoop_stm (e : Evaluator) :
    expressionLoop p (.stm :: oprs) e =
      if e.operandStackSize < OPERAND_STACK then
        some ({ e with operatorStack := oprs },
          (e.operandStack e.operandStackSize).literalValue)
      else none := by
  rw [expressionLoop, applyOperator]
  by_cases h : e.operandStackSize < OPERAND_STACK
  · rw [if_pos h, if_pos h]
  · rw [if_neg h, if_neg h]

theorem takeAll_bracket (x : Expr) (e : Evaluator) :
    e.takeAll p (Term.bracket x).tokens = (e.called p x).map Prod.fst := by
  rw [Term.tokens, ← List.cons_append, takeAll_append, called, Option.map_bind]
  congr 1
  funext e
  rw [takeAll_singleton, take]
  rfl

mutual

theorem Term.takes (t : Term) (e : Evaluator) :
    e.Reduces (t.eval p e.symbolValue)
      (t.residue p e.symbolValue e.cellAbove) (e.takeAll p t.tokens)
      fun e' => some { e' with operatorStack := e.operatorStack } := by
  cases t with
  | literal v =>
    rw [Term.tokens, takeAll_singleton, take]
    exact (pushOperand_reduces (Popped.refl e) fun _ hx => by
      cases hx).keeping fun _ => pushOperand_operators
  | symbol name =>
    rw [Term.tokens, takeAll_singleton, take]
    cases hget : e.getSymbol name with
    | none => exact Reduces.none
    | some e₁ =>
      obtain ⟨hpopped, hoprs⟩ := getSymbol_popped hget
      rw [Option.bind_some]
      refine (pushOperand_reduces hpopped ?_).keeping ?_
      · intro x hx
        injection hx with hx
        rw [← hx]
        exact (getSymbol_spec hget).2
      · intro e' he'
        rw [pushOperand_operators he', hoprs]
  | bracket x =>
    have hcalled := Taken.called (Expr.takes x) e
    rw [takeAll_bracket, Term.eval, Term.residue]
    unfold Reduces at hcalled ⊢
    split
    · rename_i o values heval
      rw [heval] at hcalled
      rcases hcalled with hnone | ⟨e', he', heq⟩
      · exact .inl (by rw [hnone]; rfl)
      · rw [heq, expressionLoop_stm]
        split
        · exact .inr ⟨e', he', rfl⟩
        · exact .inl rfl
    · rename_i heval
      rw [heval] at hcalled
      dsimp only at hcalled
      rw [hcalled]
      rfl
    · trivial

theorem Expr.takes (x : Expr) (e : Evaluator) : Taken p x e := by
  cases x with
  | term t =>
    have ht := Term.takes t e
    unfold Taken
    rw [Expr.tokens, Expr.eval, Expr.residue]
    cases heval : t.eval p e.symbolValue with
    | error fault =>
      rw [heval] at ht
      cases fault with
      | zeroDivisor => exact .inr (.inl ht)
      | literalTarget => exact .inl rfl
    | ok ov =>
      rw [heval] at ht
      rcases ht with hnone | ⟨e', he', htake⟩
      · exact .inr (.inl hnone)
      · refine .inr (.inr ⟨_, [], htake, rfl, fun rest => .inr ?_⟩)
        exact ⟨_, he'.withOperators, rfl⟩
  | unary f x => exact Taken.unary (Expr.takes x) f e
  | binary g t x => exact Taken.binary (Term.takes t) (Expr.takes x) g e

end

theorem called_spec {x : Expr} {v : BitVec 32}
    (heval : x.eval p e.symbolValue = .ok (o, values))
    (h : e.called p x = some (e', v)) :
    e.Holds o values (x.residue p e.symbolValue e.cellAbove) e' ∧
      e'.operatorStack = e.operatorStack ∧
      v = x.residue p e.symbolValue e.cellAbove := by
  have hreduces := Taken.called (Expr.takes x) (p := p) e
  rw [heval] at hreduces
  rcases hreduces with hnone | ⟨e₂, hholds, heq⟩
  · rw [hnone] at h
    cases h
  · rw [heq, expressionLoop_stm] at h
    split at h
    · injection h with h
      injection h with he' hv
      subst he'
      refine ⟨hholds.withOperators, rfl, ?_⟩
      rw [← hv, hholds.size, hholds.above]
    · cases h

theorem called_zeroDivisor {x : Expr}
    (heval : x.eval p e.symbolValue = .error .zeroDivisor) :
    e.called p x = none := by
  have hreduces := Taken.called (Expr.takes x) (p := p) e
  rw [heval] at hreduces
  exact hreduces

end Simulation

/-! ## What an expression should do -/

structure SameStacks (e e' : Evaluator) : Prop where
  size : e'.operandStackSize = e.operandStackSize
  operands : ∀ i < e.operandStackSize, e'.operandStack i = e.operandStack i
  operators : e'.operatorStack = e.operatorStack

/-- The value is returned, the stacks are as they were, and what changed of
the symbols is what `x` gave them. Division by zero is an error that is
counted. -/
def Meets (p : Shifts) (e : Evaluator) (x : Expr) : Prop :=
  match x.eval p e.symbolValue with
  | .ok (o, values) =>
    ∃ e' v, e.called p x = some (e', v) ∧ v = o.valueIn values ∧
      e.SameStacks e' ∧ e'.symbolValue = values
  | .error _ =>
    ∃ e' v, e.called p x = some (e', v) ∧
      e.errors.length < e'.errors.length

/-- No expression that writes to symbols only is treated like that: its result
stays on the stack, and a division by zero traps. -/
theorem not_meets (p : Shifts) (e : Evaluator) (x : Expr)
    (hx : x.eval p e.symbolValue ≠ .error .literalTarget) :
    ¬ e.Meets p x := by
  intro hmeets
  unfold Meets at hmeets
  cases heval : x.eval p e.symbolValue with
  | ok ov =>
    rw [heval] at hmeets
    obtain ⟨e', v, hcalled, _, hsame, _⟩ := hmeets
    obtain ⟨hholds, _⟩ := called_spec heval hcalled
    have hsize := hsame.size
    rw [hholds.size] at hsize
    omega
  | error fault =>
    rw [heval] at hmeets
    obtain ⟨e', v, hcalled, _⟩ := hmeets
    cases fault with
    | zeroDivisor =>
      rw [called_zeroDivisor heval] at hcalled
      cases hcalled
    | literalTarget => exact hx heval

/-- `(3 + 4)`. -/
def threePlusFour : Expr := .binary .pl (.literal 3) (.term (.literal 4))

def clearingShifts : Shifts := ⟨fun _ _ => 0, fun _ _ => 0⟩

theorem threePlusFour_not_meets :
    ¬ ({} : Evaluator).Meets clearingShifts threePlusFour :=
  not_meets clearingShifts {} threePlusFour (by
    intro h
    cases h)

/-- The right operand is returned and not the sum. -/
theorem threePlusFour_returns :
    (({} : Evaluator).called clearingShifts threePlusFour).map Prod.snd =
        some 4 ∧
      ¬ ({} : Evaluator).Meets clearingShifts threePlusFour := by
  have hreturned :
      (({} : Evaluator).called clearingShifts threePlusFour).map Prod.snd =
        some 4 := by decide +kernel
  refine ⟨hreturned, fun hmeets => ?_⟩
  obtain ⟨e', v, hcalled, hv, _⟩ := hmeets
  have hsum : v = 7 := hv
  rw [hcalled, hsum] at hreturned
  have hfour : (7 : BitVec 32) = 4 := Option.some.inj hreturned
  exact absurd hfour (by decide)

end Evaluator

end Coht.Mttn
