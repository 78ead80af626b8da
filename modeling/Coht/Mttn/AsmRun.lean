import Coht.Lib.System
import Coht.Mttn.Asm
import Coht.Mttn.Symbols

/-!
# Runs of the assembler that count no error

In a run that ends without an error no atom has counted one, and what an atom
did is one of the cases of `Accepts`: they are read off the handlers here, and
no proof about such a run looks at a handler again. `assemble_induction` is
the induction over the atoms, from the end of the source.

`mark` says what an atom adds to the layout of a program: an instruction, a
label, or a start address.
-/

namespace Coht.Mttn

open Coht.Lib

def Atom.closes (a : Atom) : Bool := a.type = .close ∨ a.type = .closeIndex

inductive Mark
  | start (v : BitVec 32)
  | label (name : List Char)
  | instruction
deriving DecidableEq

/-- What an atom adds to the layout behind the atom `prev`. -/
def mark (prev : Option Atom) (a : Atom) : Option Mark :=
  if a.type = .opCode then some .instruction
  else if a.type = .operator ∧ a.oprId = .lbl then
    match prev with
    | some x =>
      if x.type = .alpha then some (.label x.text)
      else if x.type = .numeric then some (.start x.value)
      else none
    | none => none
  else none

theorem mark_eq_none {prev : Option Atom} {a : Atom} (h : a.type ≠ .opCode)
    (h' : a.type ≠ .operator) : mark prev a = none := by
  simp [mark, h, h']

namespace Asm

variable {p : Shifts} {lines : Nat} {rest : List Atom} {a : Atom}
  {s s' t S : Asm}

/-- What an atom does that counts no error, apart from becoming the one
before. -/
inductive Accepts (p : Shifts) (rest : List Atom) (a : Atom) (s : Asm) :
    Asm → Prop
  | literal : a.type = .numeric → s.expect.lit = true →
      Accepts p rest a s
        { s.setSrc1 a.value with expect := { s.expect with lit := false } }
  | symbol (e : Evaluator) (forward : List (Nat × List Char)) :
      a.type = .alpha → s.expect.lit = true → s.eval.Quiet e →
      (e.symbolValue a.text = 0 ∧
          forward = s.forward ++ [(s.inst, a.text)] ∨
        e.symbolValue a.text ≠ 0 ∧ forward = s.forward) →
      Accepts p rest a s
        { s.setSrc1 (e.symbolValue a.text) with
          eval := e
          expect := { s.expect with lit := false }
          forward }
  | label (e : Evaluator) (name : List Char) :
      a.type = .operator → mark s.patom a = some (.label name) →
      s.eval.Quiet e → (e.symbol name).isSome → e.symbolValue name = 0 →
      Accepts p rest a s { s with eval := e.store ⟨name, s.pc, .label⟩ }
  | start (v : BitVec 32) :
      a.type = .operator → mark s.patom a = some (.start v) → s.pc = 0 →
      Accepts p rest a s { s with pc := v, loadAddress := v }
  | opCode (opcd : OpCode) (atoms : List Atom) :
      a.type = .opCode → instructionSet[a.value.toNat]? = some opcd →
      getConfirm opcd (a :: rest) = .ok atoms →
      Accepts p rest a s
        { s with
          program := fun i =>
            if i = s.index then { number := opcd.number.number }
            else s.program i
          inst := s.index
          index := s.index + 1
          pc := s.pc + 1
          expect := opcd.expected }
  | register : a.type = .register → Accepts p rest a s (s.register a)
  | close (e : Evaluator) (v : BitVec 32) :
      a.closes = true → s.eval.doExpression p = some (e, v) →
      Accepts p rest a s
        { setSrc1 v { s with eval := e } with
          expect := { s.expect with lit := false } }
  | quiet (e : Evaluator) (expect : Flags) :
      a.type ≠ .opCode → a.type ≠ .register → a.closes = false →
      mark s.patom a = none → s.eval.Quiet e →
      (s.expect.lit = true → a.type ≠ .numeric ∧ a.type ≠ .alpha) →
      (expect = s.expect ∨
        a.separates = false ∧ expect = { s.expect with lit := false }) →
      Accepts p rest a s { s with eval := e, expect }

theorem withEval_spec {f : Evaluator → Option Evaluator}
    (h : s.withEval f = some t) :
    ∃ e, f s.eval = some e ∧ t = { s with eval := e } := by
  obtain ⟨e, he, heq⟩ := Option.map_eq_some_iff.mp h
  exact ⟨e, he, heq.symm⟩

theorem not_withEval_error {text : String}
    (h : s.withEval (Evaluator.error text) = some t) : t.eval.errors ≠ [] := by
  obtain ⟨e, he, rfl⟩ := withEval_spec h
  rw [show ({ s with eval := e } : Asm).eval = e from rfl,
    Evaluator.error_errors he]
  exact List.cons_ne_nil _ _

/-! ## The handlers -/

theorem register_eq (a : Atom) (s : Asm) :
    ∃ program expect, s.register a = { s with program, expect } := by
  unfold register
  split
  · exact ⟨_, _, rfl⟩
  · split
    · exact ⟨_, _, rfl⟩
    · split <;> exact ⟨_, _, rfl⟩

theorem numeric_accepts (ha : a.type = .numeric)
    (h : s.numeric a = some t) : Accepts p rest a s t := by
  unfold numeric at h
  by_cases hlit : s.expect.lit = true
  · rw [if_pos hlit] at h
    injection h with h
    rw [← h]
    exact .literal ha hlit
  · rw [if_neg hlit] at h
    obtain ⟨e, he, rfl⟩ := withEval_spec h
    exact .quiet e s.expect (by simp [ha]) (by simp [ha])
      (by simp [Atom.closes, ha]) (mark_eq_none (by simp [ha]) (by simp [ha]))
      (Evaluator.pushLiteral_quiet he) (fun h' => absurd h' hlit) (.inl rfl)

theorem alpha_accepts (ha : a.type = .alpha) (h : s.alpha a = some t) :
    Accepts p rest a s t := by
  unfold alpha at h
  obtain ⟨s₁, hget, h⟩ := Option.bind_eq_some_iff.mp h
  obtain ⟨e, he, rfl⟩ := withEval_spec hget
  obtain ⟨hquiet, hknown⟩ := Evaluator.getSymbol_spec he
  by_cases hlit : s.expect.lit = true
  · rw [if_pos hlit] at h
    unfold operandSymbol at h
    dsimp only at h
    split at h
    · rename_i hzero
      split at h
      · cases h
      · injection h with h
        rw [← h]
        exact .symbol e _ ha hlit hquiet (.inl ⟨hzero, rfl⟩)
    · rename_i hvalue
      injection h with h
      rw [← h]
      exact .symbol e _ ha hlit hquiet (.inr ⟨hvalue, rfl⟩)
  · rw [if_neg hlit] at h
    obtain ⟨e', he', rfl⟩ := withEval_spec h
    have hpush : e.Quiet e' := by
      refine Evaluator.pushOperand_quiet he' fun x hx _ => ?_
      injection hx with hx
      rw [← hx]
      exact hknown
    exact .quiet e' s.expect (by simp [ha]) (by simp [ha])
      (by simp [Atom.closes, ha]) (mark_eq_none (by simp [ha]) (by simp [ha]))
      (hquiet.trans hpush) (fun h' => absurd h' hlit) (.inl rfl)

theorem operator_accepts (ha : a.type = .operator)
    (h : s.operator a = some t) (hok : t.eval.errors = []) :
    Accepts p rest a s t := by
  have hkind : a.type ≠ .opCode := by simp [ha]
  have hquiet : ∀ e, mark s.patom a = none → s.eval.Quiet e →
      Accepts p rest a s { s with eval := e } := by
    intro e hmark he
    exact .quiet e s.expect hkind (by simp [ha]) (by simp [Atom.closes, ha])
      hmark he (fun _ => by simp [ha]) (.inl rfl)
  unfold operator at h
  by_cases hlbl : a.oprId = .lbl
  · rw [if_pos hlbl] at h
    have hmark : mark s.patom a = match s.patom with
        | some x =>
          if x.type = .alpha then some (.label x.text)
          else if x.type = .numeric then some (.start x.value)
          else none
        | none => none := by
      unfold mark
      rw [if_neg hkind, if_pos ⟨ha, hlbl⟩]
    cases hpatom : s.patom with
    | none =>
      rw [hpatom] at h
      cases h
    | some x =>
      rw [hpatom] at h hmark
      dsimp only at h hmark
      by_cases halpha : x.type = .alpha
      · rw [if_pos halpha] at h hmark
        obtain ⟨e, he, rfl⟩ := withEval_spec h
        obtain ⟨e₁, hget, he⟩ := Option.bind_eq_some_iff.mp he
        obtain ⟨hget, hknown⟩ := Evaluator.getSymbol_spec hget
        obtain ⟨e₂, he₂, rfl⟩ := Option.map_eq_some_iff.mp he
        split at he₂
        · rename_i hzero
          injection he₂ with he₂
          rw [← he₂]
          exact .label e₁ x.text ha (hpatom ▸ hmark) hget hknown hzero
        · have herrors : e₂.errors = [] := hok
          rw [Evaluator.error_errors he₂] at herrors
          cases herrors
      · rw [if_neg halpha] at h hmark
        by_cases hnum : x.type = .numeric
        · rw [if_pos hnum] at h hmark
          unfold startAddress at h
          split at h
          · rename_i hpc
            injection h with h
            rw [← h]
            exact .start x.value ha (hpatom ▸ hmark) hpc
          · exact absurd hok (not_withEval_error h)
        · rw [if_neg hnum] at h hmark
          injection h with h
          rw [← h]
          exact hquiet s.eval (hpatom ▸ hmark) (Evaluator.Quiet.refl _)
  · rw [if_neg hlbl] at h
    obtain ⟨e, he, rfl⟩ := withEval_spec h
    refine hquiet e ?_ (Evaluator.pushOperator_quiet he)
    unfold mark
    rw [if_neg hkind, if_neg fun h' => hlbl h'.2]

theorem opCode_accepts (ha : a.type = .opCode)
    (h : s.opCode lines rest a = some t) (hok : t.eval.errors = []) :
    Accepts p rest a s t := by
  unfold opCode at h
  split at h
  · cases h
  · rename_i opcd hopcd
    split at h
    · cases h
    · dsimp only at h
      split at h
      · rename_i atoms hconfirm
        injection h with h
        rw [← h]
        exact .opCode opcd atoms ha hopcd hconfirm
      · exact absurd hok (not_withEval_error h)

theorem openBracket_accepts (ha : a.type = .open ∨ a.type = .openIndex)
    (h : s.openBracket = some t) : Accepts p rest a s t := by
  unfold openBracket at h
  obtain ⟨s₁, hpush, rfl⟩ := Option.map_eq_some_iff.mp h
  obtain ⟨e, he, rfl⟩ := withEval_spec hpush
  have hkind : a.type ≠ .opCode ∧ a.type ≠ .register ∧ a.closes = false ∧
      a.type ≠ .operator ∧ a.type ≠ .numeric ∧ a.type ≠ .alpha ∧
      a.separates = false := by
    rcases ha with ha | ha <;>
      simp [Atom.closes, Atom.separates, compareAtomTypes, ha]
  obtain ⟨hop, hreg, hclose, hopr, hnum, halpha, hsep⟩ := hkind
  exact .quiet e _ hop hreg hclose (mark_eq_none hop hopr)
    (Evaluator.pushOperator_quiet he) (fun _ => ⟨hnum, halpha⟩)
    (.inr ⟨hsep, rfl⟩)

theorem seperator_accepts (ha : a.type = .seperator)
    (h : s.seperator = some t) (hok : t.eval.errors = []) :
    Accepts p rest a s t := by
  unfold seperator at h
  dsimp only at h
  split at h
  · obtain ⟨s₁, herror, rfl⟩ := Option.map_eq_some_iff.mp h
    have hnil : s₁.eval.errors = [] := hok
    exact absurd hnil (not_withEval_error herror)
  · rename_i hlit
    injection h with h
    rw [← h]
    exact .quiet _ s.expect (by simp [ha]) (by simp [ha])
      (by simp [Atom.closes, ha]) (mark_eq_none (by simp [ha]) (by simp [ha]))
      (Evaluator.resetStacks_quiet _) (fun h' => absurd h' hlit) (.inl rfl)

theorem atom_accepts (h : s.atom p lines rest a = some t)
    (hok : t.eval.errors = []) : Accepts p rest a s t := by
  unfold atom at h
  cases ha : a.type with
  | numeric =>
    rw [ha] at h
    exact numeric_accepts ha h
  | alpha =>
    rw [ha] at h
    exact alpha_accepts ha h
  | operator =>
    rw [ha] at h
    exact operator_accepts ha h hok
  | opCode =>
    rw [ha] at h
    exact opCode_accepts ha h hok
  | register =>
    rw [ha] at h
    injection h with h
    rw [← h]
    exact .register ha
  | «open» =>
    rw [ha] at h
    exact openBracket_accepts (.inl ha) h
  | openIndex =>
    rw [ha] at h
    exact openBracket_accepts (.inr ha) h
  | close | closeIndex =>
    rw [ha] at h
    obtain ⟨r, hr, rfl⟩ := Option.map_eq_some_iff.mp h
    exact .close r.1 r.2 (by simp [Atom.closes, ha]) hr
  | seperator =>
    rw [ha] at h
    exact seperator_accepts ha h hok
  | comment | illegalChar | terminator | bit | expression | notSet =>
    rw [ha] at h
    injection h with h
    rw [← h]
    exact .quiet s.eval s.expect (by simp [ha]) (by simp [ha])
      (by simp [Atom.closes, ha])
      (mark_eq_none (by simp [ha]) (by simp [ha]))
      (Evaluator.Quiet.refl _) (fun _ => by simp [ha]) (.inl rfl)

theorem step_accepts (h : s.step p lines rest a = some s')
    (hok : s'.eval.errors = []) :
    ∃ t, Accepts p rest a s t ∧ s' = { t with patom := some a } := by
  obtain ⟨t, ht, rfl⟩ := Option.map_eq_some_iff.mp h
  exact ⟨t, atom_accepts ht hok, rfl⟩

end Asm

/-! ## Whole runs -/

section Runs

open Asm

variable {p : Shifts} {lines : Nat} {atoms rest : List Atom} {a : Atom}
  {s s₀ t S : Asm}

theorem Asm.Accepts.errors (h : Accepts p rest a s t)
    (hok : t.eval.errors = []) : s.eval.errors = [] := by
  cases h with
  | literal | start | opCode => exact hok
  | register =>
    obtain ⟨program, expect, heq⟩ := register_eq a s
    rw [heq] at hok
    exact hok
  | symbol e _ _ _ hquiet _ => exact hquiet.errors.symm.trans hok
  | label e _ _ _ hquiet _ _ => exact hquiet.errors.symm.trans hok
  | quiet e _ _ _ _ _ hquiet _ _ => exact hquiet.errors.symm.trans hok
  | close e v _ hexpression =>
    have hsuffix := (Evaluator.doExpression_evolves hexpression).errors
    have hnil : e.errors = [] := hok
    rw [hnil] at hsuffix
    exact List.suffix_nil.mp hsuffix

theorem assemble_cons (h : assemble p lines (a :: rest) s = some S) :
    ∃ s', s.step p lines rest a = some s' ∧
      assemble p lines rest s' = some S :=
  Option.bind_eq_some_iff.mp h

theorem assemble_errors (h : assemble p lines atoms s = some S)
    (hok : S.eval.errors = []) : s.eval.errors = [] := by
  induction atoms generalizing s with
  | nil =>
    injection h with h
    rw [h]
    exact hok
  | cons a rest ih =>
    obtain ⟨s', hstep, hrest⟩ := assemble_cons h
    have hok' := ih hrest
    obtain ⟨t, ht, rfl⟩ := step_accepts hstep hok'
    exact ht.errors hok'

theorem assemble_accepts (h : assemble p lines (a :: rest) s = some S)
    (hok : S.eval.errors = []) :
    ∃ t, Accepts p rest a s t ∧
      assemble p lines rest { t with patom := some a } = some S := by
  obtain ⟨s', hstep, hrest⟩ := assemble_cons h
  obtain ⟨t, ht, rfl⟩ := step_accepts hstep (assemble_errors hrest hok)
  exact ⟨t, ht, hrest⟩

theorem assemble_induction {motive : List Atom → Asm → Prop}
    (hok : S.eval.errors = []) (nil : motive [] S)
    (cons : ∀ a rest s t, Accepts p rest a s t →
      assemble p lines rest { t with patom := some a } = some S →
      motive rest { t with patom := some a } → motive (a :: rest) s)
    (h : assemble p lines atoms s = some S) : motive atoms s := by
  induction atoms generalizing s with
  | nil =>
    injection h with h
    rw [h]
    exact nil
  | cons a rest ih =>
    obtain ⟨t, ht, hrest⟩ := assemble_accepts h hok
    exact cons a rest s t ht hrest (ih hrest)

/-- The loop of `Assemble()`: what is left of the source, and the state. -/
def asmSystem (p : Shifts) (lines : Nat) (atoms : List Atom) (s₀ : Asm) :
    System (List Atom × Asm) Atom where
  init σ := σ = (atoms, s₀)
  step σ a σ' := σ.1 = a :: σ'.1 ∧ σ.2.step p lines σ'.1 a = some σ'.2

theorem assemble_reachable (h : assemble p lines atoms s₀ = some S) :
    (asmSystem p lines atoms s₀).Invariant fun σ =>
      assemble p lines σ.1 σ.2 = some S where
  init hinit := by
    rw [show _ = (atoms, s₀) from hinit]
    exact h
  step := by
    rintro ⟨l, s⟩ ⟨l', s'⟩ a hrun ⟨hl, hstep⟩
    dsimp only at hl hstep hrun ⊢
    subst hl
    obtain ⟨s₁, hstep₁, hrest⟩ := assemble_cons hrun
    rw [hstep] at hstep₁
    injection hstep₁ with heq
    rw [heq]
    exact hrest

end Runs

/-! ## Accepted sources -/

/-- The atoms of a source text. -/
def sourceAtoms (file : List Char) : List Atom :=
  match getAtoms (readSource file) with
  | some r => r.1
  | none => []

/-- Both passes finish with an error count of zero. -/
def Accepted (p : Shifts) (file : List Char) (S : Asm) : Prop :=
  assembleText p file = some S ∧ S.eval.errors = []

def sourceSystem (p : Shifts) (file : List Char) :
    System (List Atom × Asm) Atom :=
  asmSystem p ((readSource file).count '\n') (sourceAtoms file) {}

section Sources

variable {p : Shifts} {file : List Char} {S : Asm}

theorem Accepted.run (h : Accepted p file S) :
    assemble p ((readSource file).count '\n') (sourceAtoms file) {} =
      some S := by
  obtain ⟨htext, hok⟩ := h
  unfold assembleText at htext
  dsimp only at htext
  split at htext
  · cases htext
  · split at htext
    · cases htext
    · rename_i atoms illegal hatoms
      have hsource : sourceAtoms file = atoms := by
        rw [sourceAtoms, hatoms]
      cases illegal with
      | false =>
        rw [hsource]
        exact htext
      | true => cases assemble_errors htext hok

theorem sourceAtoms_scanned : ∀ a ∈ sourceAtoms file, a.scanned := by
  unfold sourceAtoms
  split
  · rename_i r hr
    exact getAtomsLoop_scanned hr
  · simp

theorem sourceAtoms_last (h : sourceAtoms file ≠ []) :
    ∃ init, sourceAtoms file = init ++ [newAtom] := by
  unfold sourceAtoms at h ⊢
  split at h
  · rename_i r hr
    exact getAtomsLoop_last hr
  · exact absurd rfl h

end Sources

end Coht.Mttn
