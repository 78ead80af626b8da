import Coht.Mttn.Expression

/-!
# What the symbol table holds

The history of stores is the specification of the table: the value of a symbol
is the one it was given last and zero before that, and `Defined` says that a
label or an assignment gave it one. `Sound` is that statement with what carries
it: an operand that refers to a symbol refers to one of the table.

Operations are told apart by what they do to the history. A `Quiet` one leaves
it alone, and an expression `Evolves` it: it may assign and count, never
define a label.
-/

namespace Coht.Mttn

def latest (stores : List Store) (name : List Char) : BitVec 32 :=
  match stores.find? fun st => st.name = name with
  | some st => st.value
  | none => 0

def Fresh : List Store → Prop
  | [] => True
  | st :: older => (st.kind = .label → latest older st.name = 0) ∧ Fresh older

theorem latest_cons (st : Store) (older : List Store) (name : List Char) :
    latest (st :: older) name =
      if name = st.name then st.value else latest older name := by
  by_cases h : name = st.name
  · simp [latest, h]
  · simp [latest, h, Ne.symm h]

theorem Fresh.append {news stores : List Store} (h : Fresh stores)
    (hnews : ∀ st ∈ news, st.kind ≠ .label) : Fresh (news ++ stores) := by
  induction news with
  | nil => exact h
  | cons st news ih =>
    refine ⟨fun hk => absurd hk (hnews st List.mem_cons_self), ?_⟩
    exact ih fun st' h' => hnews st' (List.mem_cons_of_mem _ h')

namespace Evaluator

/-- The field `Defined` of a symbol. -/
def isDefined (e : Evaluator) (name : List Char) : Bool :=
  match e.symbol name with
  | some y => y.isDefined
  | none => false

structure Sound (e : Evaluator) : Prop where
  operands : ∀ i name, (e.operandStack i).symbolRef = some name →
    (e.symbol name).isSome
  value : ∀ name, e.symbolValue name = latest e.stores name
  defined : ∀ name, e.isDefined name = true ↔
    ∃ st ∈ e.stores, st.name = name ∧ st.kind ≠ .counted
  fresh : Fresh e.stores

structure Quiet (e e' : Evaluator) : Prop where
  errors : e'.errors = e.errors
  stores : e'.stores = e.stores
  value : ∀ name, e'.symbolValue name = e.symbolValue name
  sound : e.Sound → e'.Sound

structure Evolves (e e' : Evaluator) : Prop where
  errors : e.errors <:+ e'.errors
  stores : ∃ news, e'.stores = news ++ e.stores ∧
    ∀ st ∈ news, st.kind ≠ .label
  sound : e.Sound → e'.Sound

theorem initial_sound (errors : List String) :
    ({ errors } : Evaluator).Sound where
  operands i name h := by cases h
  value name := rfl
  defined name := by simp [isDefined, symbol]
  fresh := trivial

section Relations

variable {e e' e'' : Evaluator}

theorem Quiet.refl (e : Evaluator) : e.Quiet e :=
  ⟨rfl, rfl, fun _ => rfl, id⟩

theorem Quiet.trans (h : e.Quiet e') (h' : e'.Quiet e'') : e.Quiet e'' where
  errors := h'.errors.trans h.errors
  stores := h'.stores.trans h.stores
  value name := (h'.value name).trans (h.value name)
  sound hs := h'.sound (h.sound hs)

theorem Quiet.evolves (h : e.Quiet e') : e.Evolves e' where
  errors := h.errors ▸ List.suffix_refl _
  stores := ⟨[], h.stores, by simp⟩
  sound := h.sound

theorem Evolves.trans (h : e.Evolves e') (h' : e'.Evolves e'') :
    e.Evolves e'' where
  errors := h.errors.trans h'.errors
  stores := by
    obtain ⟨news, hstores, hnews⟩ := h.stores
    obtain ⟨news', hstores', hnews'⟩ := h'.stores
    refine ⟨news' ++ news, by rw [hstores', hstores, List.append_assoc], ?_⟩
    intro st hst
    rcases List.mem_append.mp hst with hmem | hmem
    · exact hnews' st hmem
    · exact hnews st hmem
  sound hs := h'.sound (h.sound hs)

theorem quiet_of_eq (htable : e'.symbolTable = e.symbolTable)
    (hstores : e'.stores = e.stores) (herrors : e'.errors = e.errors)
    (hoperands : ∀ i name, (e'.operandStack i).symbolRef = some name →
      e.Sound → (e.symbol name).isSome) : e.Quiet e' := by
  have hsymbol : ∀ name, e'.symbol name = e.symbol name := by
    intro name
    rw [symbol, symbol, htable]
  have hvalue : ∀ name, e'.symbolValue name = e.symbolValue name := by
    intro name
    rw [symbolValue, symbolValue, hsymbol]
  refine ⟨herrors, hstores, hvalue, fun hs => ⟨?_, ?_, ?_, ?_⟩⟩
  · intro i name h
    rw [hsymbol]
    exact hoperands i name h hs
  · intro name
    rw [hvalue, hstores]
    exact hs.value name
  · intro name
    rw [hstores, isDefined, hsymbol]
    exact hs.defined name
  · rw [hstores]
    exact hs.fresh

end Relations

/-! ## The table -/

section Table

variable {e e' : Evaluator} {st : Store} {name x : List Char} {y : Symbol}

theorem symbol_name (h : e.symbol x = some y) : y.name = x := by
  have hfound := List.find?_some h
  exact of_decide_eq_true hfound

theorem symbol_store (e : Evaluator) (st : Store) (x : List Char) :
    (e.store st).symbol x = (e.symbol x).map fun y =>
      if y.name = st.name then
        { y with
          value := st.value
          isDefined := y.isDefined || st.kind ≠ .counted }
      else y := by
  rw [symbol, store, List.find?_map, symbol]
  congr 2
  funext y
  by_cases h : y.name = st.name <;> simp [h]

theorem symbol_store_isSome (e : Evaluator) (st : Store) (x : List Char) :
    ((e.store st).symbol x).isSome = (e.symbol x).isSome := by
  rw [symbol_store, Option.isSome_map]

theorem symbol_store_ne (h : x ≠ st.name) :
    (e.store st).symbol x = e.symbol x := by
  rw [symbol_store]
  cases hx : e.symbol x with
  | none => rfl
  | some y =>
    have hne : y.name ≠ st.name := by rwa [symbol_name hx]
    rw [Option.map_some, if_neg hne]

theorem symbol_store_self (h : e.symbol st.name = some y) :
    (e.store st).symbol st.name =
      some { y with
        value := st.value
        isDefined := y.isDefined || st.kind ≠ .counted } := by
  rw [symbol_store, h, Option.map_some, if_pos (symbol_name h)]

theorem symbolValue_store (h : (e.symbol st.name).isSome) (x : List Char) :
    (e.store st).symbolValue x =
      if x = st.name then st.value else e.symbolValue x := by
  by_cases heq : x = st.name
  · obtain ⟨y, hy⟩ := Option.isSome_iff_exists.mp h
    rw [if_pos heq, heq, symbolValue, symbol_store_self hy]
  · rw [if_neg heq, symbolValue, symbol_store_ne heq, symbolValue]

theorem isDefined_store (h : (e.symbol st.name).isSome) (x : List Char) :
    (e.store st).isDefined x =
      if x = st.name then e.isDefined x || st.kind ≠ .counted
      else e.isDefined x := by
  by_cases heq : x = st.name
  · obtain ⟨y, hy⟩ := Option.isSome_iff_exists.mp h
    rw [if_pos heq, heq, isDefined, symbol_store_self hy, isDefined, hy]
  · rw [if_neg heq, isDefined, symbol_store_ne heq, isDefined]

theorem Sound.store (hs : e.Sound) (h : (e.symbol st.name).isSome)
    (hlabel : st.kind = .label → e.symbolValue st.name = 0) :
    (e.store st).Sound where
  operands i x hx := by
    rw [symbol_store_isSome]
    exact hs.operands i x hx
  value x := by
    rw [symbolValue_store h, hs.value]
    exact (latest_cons st e.stores x).symm
  defined x := by
    have hd := hs.defined x
    rw [isDefined_store h]
    change _ ↔ ∃ st' ∈ st :: e.stores, _
    by_cases heq : x = st.name
    · simp only [heq, if_true, Bool.or_eq_true, decide_eq_true_eq,
        List.mem_cons, exists_eq_or_imp]
      rw [heq] at hd
      rw [hd]
      simp only [true_and]
      exact Or.comm
    · simp only [heq, if_false, List.mem_cons, exists_eq_or_imp, hd]
      simp [Ne.symm heq]
  fresh := ⟨fun hk => (hs.value st.name).symm.trans (hlabel hk), hs.fresh⟩

theorem getSymbol_spec (h : e.getSymbol name = some e') :
    e.Quiet e' ∧ (e'.symbol name).isSome := by
  unfold getSymbol at h
  cases hname : e.symbol name with
  | some y =>
    rw [hname] at h
    injection h with h
    subst h
    exact ⟨Quiet.refl e, by rw [hname]; rfl⟩
  | none =>
    rw [hname] at h
    dsimp only at h
    split at h
    · injection h with h
      subst h
      have hsymbol : ∀ x,
          ({ e with symbolTable := e.symbolTable ++ [{ name }] } :
            Evaluator).symbol x =
          (e.symbol x).or (if name = x then some { name } else none) := by
        intro x
        simp only [symbol, List.find?_append, List.find?_singleton,
          decide_eq_true_eq]
      refine ⟨⟨rfl, rfl, ?_, fun hs => ⟨?_, ?_, ?_, hs.fresh⟩⟩, ?_⟩
      · intro x
        rw [symbolValue, hsymbol, symbolValue]
        cases e.symbol x with
        | some y => rfl
        | none => by_cases hx : name = x <;> simp [hx]
      · intro i x hx
        rw [hsymbol]
        have hsome := hs.operands i x hx
        cases hex : e.symbol x with
        | some y => rfl
        | none =>
          rw [hex] at hsome
          cases hsome
      · intro x
        rw [← hs.value, symbolValue, hsymbol, symbolValue]
        cases e.symbol x with
        | some y => rfl
        | none => by_cases hx : name = x <;> simp [hx]
      · intro x
        rw [← hs.defined, isDefined, hsymbol, isDefined]
        cases e.symbol x with
        | some y => rfl
        | none => by_cases hx : name = x <;> simp [hx]
      · rw [hsymbol, hname]
        simp
    · cases h

end Table

/-! ## Stacks and operators -/

section Operators

variable {e e' : Evaluator} {o : Operand} {name : List Char} {text : String}

theorem pushOperand_quiet (h : e.pushOperand o = some e')
    (ho : ∀ x, o.symbolRef = some x → e.Sound → (e.symbol x).isSome) :
    e.Quiet e' := by
  unfold pushOperand at h
  split at h
  · injection h with h
    subst h
    refine quiet_of_eq rfl rfl rfl fun i x hx hs => ?_
    dsimp only at hx
    split at hx
    · exact ho x hx hs
    · exact hs.operands i x hx
  · cases h

theorem pushLiteral_quiet {v : BitVec 32}
    (h : e.pushOperand { literalValue := v } = some e') : e.Quiet e' :=
  pushOperand_quiet h fun _ hx => by cases hx

theorem pushOperator_quiet {opr : OprId} (h : e.pushOperator opr = some e') :
    e.Quiet e' := by
  unfold pushOperator at h
  split at h
  · injection h with h
    subst h
    exact quiet_of_eq rfl rfl rfl fun i x hx hs => hs.operands i x hx
  · cases h

theorem resetStacks_quiet (e : Evaluator) : e.Quiet e.resetStacks :=
  quiet_of_eq rfl rfl rfl fun i x hx hs => hs.operands i x hx

theorem error_errors (h : e.error text = some e') :
    e'.errors = text :: e.errors := by
  unfold error at h
  split at h
  · cases h
  · injection h with h
    rw [← h]

theorem error_evolves (h : e.error text = some e') : e.Evolves e' := by
  unfold error at h
  split at h
  · cases h
  · injection h with h
    subst h
    refine ⟨List.suffix_cons _ _, ⟨[], rfl, by simp⟩, fun hs => ?_⟩
    exact ⟨hs.operands, hs.value, hs.defined, hs.fresh⟩

theorem popOperand_spec (h : e.popOperand = some (o, e')) :
    e.Quiet e' ∧ e'.operandStack = e.operandStack ∧
      ∃ i, e.operandStack i = o := by
  unfold popOperand at h
  split at h
  · cases h
  · injection h with h
    injection h with ho he
    subst he
    exact ⟨quiet_of_eq rfl rfl rfl fun i x hx hs => hs.operands i x hx, rfl,
      _, ho⟩

theorem store_evolves (st : Store)
    (h : e.Sound → (e.symbol st.name).isSome) (hkind : st.kind ≠ .label) :
    e.Evolves (e.store st) where
  errors := List.suffix_refl _
  stores := ⟨[st], rfl, fun _ h' => List.mem_singleton.mp h' ▸ hkind⟩
  sound hs := hs.store (h hs) fun hk => absurd hk hkind

def Outcome.Evolves (e : Evaluator) (r : Outcome) : Prop :=
  ∀ e' v, r = some (e', v) → e.Evolves e'

theorem Evolves.outcome {r : Outcome} (h : e.Evolves e')
    (hr : r.Evolves e') : r.Evolves e :=
  fun e'' v heq => h.trans (hr e'' v heq)

theorem Outcome.evolves_map {x : Option Evaluator} {r : Option (BitVec 32)}
    (h : ∀ e₁, x = some e₁ → e.Evolves e₁) :
    Outcome.Evolves e (x.map (·, r)) := by
  intro e' v hmap
  obtain ⟨e₁, hx, heq⟩ := Option.map_eq_some_iff.mp hmap
  injection heq with he
  rw [← he]
  exact h e₁ hx

theorem underflow_evolves (e : Evaluator) : e.underflow.Evolves e :=
  Outcome.evolves_map fun _ herror => error_evolves herror

theorem popping_evolves {f : Operand → Evaluator → Outcome}
    (hf : ∀ o e₁, e.popOperand = some (o, e₁) → (f o e₁).Evolves e₁) :
    Outcome.Evolves e (match e.popOperand with
      | none => e.underflow
      | some (o, e₁) => f o e₁) := by
  cases hpop : e.popOperand with
  | none => exact underflow_evolves e
  | some r => exact (popOperand_spec hpop).1.evolves.outcome (hf r.1 r.2 hpop)

theorem unary_evolves (f : BitVec 32 → BitVec 32) (e : Evaluator) :
    (e.unary f).Evolves e :=
  popping_evolves fun _ _ _ =>
    Outcome.evolves_map fun _ hpush => (pushLiteral_quiet hpush).evolves

theorem binary_evolves (f : BitVec 32 → BitVec 32 → Option (BitVec 32))
    (e : Evaluator) : (e.binary f).Evolves e := by
  refine popping_evolves fun right e₁ _ => popping_evolves fun left e₂ _ => ?_
  cases f (e₂.getValue left) (e₂.getValue right) with
  | none => exact fun _ _ h => nomatch h
  | some v =>
    exact Outcome.evolves_map fun _ hpush => (pushLiteral_quiet hpush).evolves

theorem counting_evolves (f : BitVec 32 → BitVec 32) (text : String)
    (e : Evaluator) : (e.counting f text).Evolves e := by
  refine popping_evolves fun left e₁ hpop => ?_
  obtain ⟨-, hstack, i, hi⟩ := popOperand_spec hpop
  cases href : left.symbolRef with
  | none => exact Outcome.evolves_map fun _ herror => error_evolves herror
  | some name =>
    have hknown : e₁.Sound → (e₁.symbol name).isSome := by
      intro hs
      exact hs.operands i name (by rw [hstack, hi, href])
    have hstore := store_evolves ⟨name, f (e₁.getValue left), .counted⟩ hknown
      (by simp)
    exact hstore.outcome (Outcome.evolves_map fun _ hpush =>
      (pushLiteral_quiet hpush).evolves)

theorem assign_evolves (e : Evaluator) : e.assign.Evolves e := by
  refine popping_evolves fun right e₁ hpop =>
    popping_evolves fun left e₂ hpop' => ?_
  obtain ⟨-, hstack, i, hi⟩ := popOperand_spec hpop
  obtain ⟨-, hstack', i', hi'⟩ := popOperand_spec hpop'
  cases href : left.symbolRef with
  | none => exact Outcome.evolves_map fun _ herror => error_evolves herror
  | some name =>
    have hknown : e₂.Sound → (e₂.symbol name).isSome := by
      intro hs
      exact hs.operands i' name (by rw [hstack', hi', href])
    have hstore := store_evolves ⟨name, e₂.getValue right, .assigned⟩ hknown
      (by simp)
    -- the right operand is still on the stack, below
    have hright : ∀ x, right.symbolRef = some x →
        (e₂.store ⟨name, e₂.getValue right, .assigned⟩).Sound →
        ((e₂.store ⟨name, e₂.getValue right, .assigned⟩).symbol x).isSome := by
      intro x hx hs
      refine hs.operands i x ?_
      change (e₂.operandStack i).symbolRef = some x
      rw [hstack', hstack, hi, hx]
    exact hstore.outcome (Outcome.evolves_map fun _ hpush =>
      (pushOperand_quiet hpush hright).evolves)

theorem applyOperator_evolves (p : Shifts) (e : Evaluator) (opr : OprId) :
    (e.applyOperator p opr).Evolves e := by
  cases opr with
  | ne | eq | gt | ge | lt | le | pl | mi | ti | di | and | or | xor | lsh
  | rsh =>
    rw [applyOperator]
    exact binary_evolves _ e
  | not | neg =>
    rw [applyOperator]
    exact unary_evolves _ e
  | inc | decr =>
    rw [applyOperator]
    exact counting_evolves _ _ e
  | as =>
    rw [applyOperator]
    exact assign_evolves e
  | pop =>
    rw [applyOperator]
    refine popping_evolves fun right e₁ _ e' v h => ?_
    injection h with h
    injection h with he
    rw [← he]
    exact (Quiet.refl e₁).evolves
  | stm =>
    intro e' v h
    simp only [applyOperator] at h
    split at h
    · injection h with h
      injection h with he
      rw [← he]
      exact (Quiet.refl e).evolves
    · cases h
  | noop | lbl =>
    intro e' v h
    injection h with h
    injection h with he
    rw [← he]
    exact (Quiet.refl e).evolves

theorem expressionLoop_evolves {p : Shifts} {oprs : List OprId} {v : BitVec 32}
    (h : expressionLoop p oprs e = some (e', v)) : e.Evolves e' := by
  induction oprs generalizing e with
  | nil =>
    obtain ⟨e₁, herror, heq⟩ := Option.map_eq_some_iff.mp h
    injection heq with he
    rw [← he]
    exact error_evolves herror
  | cons opr oprs ih =>
    rw [expressionLoop] at h
    have hquiet : e.Quiet { e with operatorStack := oprs } :=
      quiet_of_eq rfl rfl rfl fun i x hx hs => hs.operands i x hx
    have hopr := applyOperator_evolves p { e with operatorStack := oprs } opr
    split at h
    · cases h
    · rename_i e₁ v₁ heq
      injection h with h
      injection h with he
      rw [← he]
      exact hquiet.evolves.trans (hopr e₁ _ heq)
    · rename_i e₁ heq
      exact hquiet.evolves.trans ((hopr e₁ _ heq).trans (ih h))

theorem doExpression_evolves {p : Shifts} {v : BitVec 32}
    (h : e.doExpression p = some (e', v)) : e.Evolves e' :=
  expressionLoop_evolves h

end Operators

end Evaluator

end Coht.Mttn
