import Coht.Mttn.Asm

/-!
# The memory for the program (`asm.c`)

Before it assembles a source the assembler takes memory for one instruction a
line. `Assemble()` puts an instruction there for every op-code it comes to, and
nothing says that there is at most one on a line.

`program_fits_iff` is when the memory is enough: there are no more op-codes than
lines, or the assembler gives up before it comes to the first one too many.
`written` runs the assembler in a block without end, and `assemble_of_fits` says
that where the instructions fit this makes no difference.
-/

namespace Coht.Mttn

def opCodes (atoms : List Atom) : Nat := atoms.countP fun a => a.type = .opCode

/-- A round that finds room for an instruction. -/
def Asm.roomyStep (p : Shifts) (rest : List Atom) (a : Atom) (s : Asm) : Option Asm :=
  s.step p (s.index + 1) rest a

/-- The instructions written by the end of the assembly. An op-code is cleared
before anything can go wrong with it. -/
def written (p : Shifts) : List Atom → Asm → Nat
  | [], s => s.index
  | a :: rest, s =>
    match s.roomyStep p rest a with
    | none => s.index + opCodes [a]
    | some t => written p rest t

/-- The assembly of the atoms `before`, with `rest` behind them. -/
def assembleBefore (p : Shifts) : List Atom → List Atom → Asm → Option Asm
  | [], _, s => some s
  | a :: before, rest, s =>
    (s.roomyStep p (before ++ rest) a).bind (assembleBefore p before rest)

/-- The assembler gives up before it comes to the first op-code behind `n`
others. -/
def GivesUp (p : Shifts) (atoms : List Atom) (s : Asm) (n : Nat) : Prop :=
  ∀ before a rest, atoms = before ++ a :: rest → a.type = .opCode → opCodes before = n →
    assembleBefore p before (a :: rest) s = none

/-! ## A round and the op-codes -/

namespace Asm

variable {p : Shifts} {lines lines' : Nat} {rest : List Atom} {a : Atom} {s t : Asm}

theorem withEval_index {f : Evaluator → Option Evaluator} (h : s.withEval f = some t) :
    t.index = s.index := by
  obtain ⟨e, _, rfl⟩ := Option.map_eq_some_iff.mp h
  rfl

theorem register_index : (s.register a).index = s.index := by
  unfold register
  split
  · rfl
  · split
    · rfl
    · split <;> rfl

theorem numeric_index (h : s.numeric a = some t) : t.index = s.index := by
  unfold numeric at h
  split at h
  · cases h
    rfl
  · exact withEval_index h

theorem operandSymbol_index (h : s.operandSymbol a = some t) : t.index = s.index := by
  simp only [operandSymbol] at h
  split at h
  · split at h
    · cases h
    · cases h
      rfl
  · cases h
    rfl

theorem alpha_index (h : s.alpha a = some t) : t.index = s.index := by
  obtain ⟨s₁, hget, h⟩ := Option.bind_eq_some_iff.mp h
  have hs₁ := withEval_index hget
  split at h
  · exact (operandSymbol_index h).trans hs₁
  · exact (withEval_index h).trans hs₁

theorem operator_index (h : s.operator a = some t) : t.index = s.index := by
  unfold operator at h
  split at h
  · split at h
    · cases h
    · split at h
      · exact withEval_index h
      · split at h
        · unfold startAddress at h
          split at h
          · cases h
            rfl
          · exact withEval_index h
        · cases h
          rfl
  · exact withEval_index h

theorem opCode_index (h : s.opCode lines rest a = some t) : t.index = s.index + 1 := by
  unfold opCode at h
  split at h
  · cases h
  · split at h
    · cases h
    · dsimp only at h
      split at h
      · cases h
        rfl
      · exact withEval_index h

theorem openBracket_index (h : s.openBracket = some t) : t.index = s.index := by
  obtain ⟨s₁, hpush, rfl⟩ := Option.map_eq_some_iff.mp h
  have hs₁ := withEval_index hpush
  exact hs₁

theorem closeBracket_index (h : s.closeBracket p = some t) : t.index = s.index := by
  obtain ⟨r, _, rfl⟩ := Option.map_eq_some_iff.mp h
  rfl

theorem seperator_index (h : s.seperator = some t) : t.index = s.index := by
  simp only [seperator] at h
  split at h
  · obtain ⟨s₁, herror, rfl⟩ := Option.map_eq_some_iff.mp h
    have hs₁ := withEval_index herror
    exact hs₁
  · cases h
    rfl

theorem atom_index (h : s.atom p lines rest a = some t) :
    t.index = s.index + opCodes [a] := by
  simp only [opCodes, List.countP_cons, List.countP_nil, Nat.zero_add, decide_eq_true_eq]
  unfold atom at h
  cases ha : a.type <;> rw [ha] at h
  case numeric => exact numeric_index h
  case alpha => exact alpha_index h
  case operator => exact operator_index h
  case opCode => exact opCode_index h
  case register =>
    cases h
    exact register_index
  case «open» => exact openBracket_index h
  case openIndex => exact openBracket_index h
  case close => exact closeBracket_index h
  case closeIndex => exact closeBracket_index h
  case seperator => exact seperator_index h
  all_goals
    cases h
    rfl

theorem step_index (h : s.step p lines rest a = some t) :
    t.index = s.index + opCodes [a] := by
  obtain ⟨s₁, hatom, rfl⟩ := Option.map_eq_some_iff.mp h
  have hs₁ := atom_index hatom
  exact hs₁

theorem step_room (h : s.index + opCodes [a] ≤ lines) :
    s.step p lines rest a = s.roomyStep p rest a := by
  simp only [opCodes, List.countP_cons, List.countP_nil, Nat.zero_add, decide_eq_true_eq] at h
  simp only [step, roomyStep, atom]
  cases ha : a.type with
  | opCode =>
    rw [if_pos ha] at h
    simp only [opCode, if_neg (Nat.not_le.mpr (Nat.lt_succ_self s.index)),
      if_neg (Nat.not_le.mpr h)]
  | _ => rfl

end Asm

/-! ## The instructions that are written -/

section

variable {p : Shifts} {atoms : List Atom} {s : Asm} {n : Nat}

theorem opCodes_cons (a : Atom) (atoms : List Atom) :
    opCodes (a :: atoms) = opCodes [a] + opCodes atoms := by
  simp only [opCodes, List.countP_cons, List.countP_nil]
  omega

theorem opCodes_one {a : Atom} : opCodes [a] = if a.type = .opCode then 1 else 0 := by
  simp [opCodes]

theorem index_le_written : s.index ≤ written p atoms s := by
  induction atoms generalizing s with
  | nil => exact Nat.le_refl _
  | cons a rest ih =>
    simp only [written]
    split
    · exact Nat.le_add_right _ _
    · next t ht =>
      have hindex := Asm.step_index ht
      have hrest := ih (s := t)
      omega

theorem written_le : written p atoms s ≤ s.index + opCodes atoms := by
  induction atoms generalizing s with
  | nil => exact Nat.le_refl _
  | cons a rest ih =>
    rw [opCodes_cons]
    simp only [written]
    split
    · omega
    · next t ht =>
      have hindex := Asm.step_index ht
      have hrest := ih (s := t)
      omega

theorem givesUp_cons {a : Atom} {rest : List Atom} : GivesUp p (a :: rest) s n ↔
    opCodes [a] ≤ n ∧
      ∀ t, s.roomyStep p rest a = some t → GivesUp p rest t (n - opCodes [a]) := by
  constructor
  · intro h
    have hroom : opCodes [a] ≤ n := by
      rw [opCodes_one]
      split
      · next hop =>
        by_contra hzero
        have hnone := h [] a rest rfl hop (by simp [opCodes]; omega)
        cases hnone
      · exact Nat.zero_le n
    refine ⟨hroom, fun t ht before b rest' heq hop hcount => ?_⟩
    have hbefore := h (a :: before) b rest' (by rw [heq]; rfl) hop
      (by rw [opCodes_cons]; omega)
    rwa [assembleBefore, ← heq, ht] at hbefore
  · intro ⟨hroom, hrest⟩ before b rest' heq hop hcount
    cases before with
    | nil =>
      cases heq
      rw [opCodes_one, if_pos hop] at hroom
      simp only [opCodes, List.countP_nil] at hcount
      omega
    | cons c before =>
      cases heq
      rw [opCodes_cons] at hcount
      rw [assembleBefore]
      cases ht : s.roomyStep p (before ++ b :: rest') a with
      | none => rfl
      | some t => exact hrest t ht before b rest' rfl hop (by omega)

theorem written_le_iff : written p atoms s ≤ s.index + n ↔ GivesUp p atoms s n := by
  induction atoms generalizing s n with
  | nil =>
    refine iff_of_true (Nat.le_add_right _ _) fun before a rest heq => ?_
    simp at heq
  | cons a rest ih =>
    rw [givesUp_cons]
    simp only [written]
    cases ht : s.roomyStep p rest a with
    | none =>
      simp only [Nat.add_le_add_iff_left]
      exact ⟨fun h => ⟨h, fun t ht => nomatch ht⟩, fun h => h.1⟩
    | some t =>
      have hindex := Asm.step_index ht
      have hle : t.index ≤ written p rest t := index_le_written
      simp only [Option.some.injEq, forall_eq']
      constructor
      · intro h
        have hroom : opCodes [a] ≤ n := by omega
        exact ⟨hroom, ih.mp (by omega)⟩
      · intro ⟨hroom, hrest⟩
        have := ih.mpr hrest
        omega

/-- Where the instructions fit, the assembler is as it would be in a block
without end. -/
theorem assemble_of_fits {lines : Nat} (h : written p atoms s ≤ lines) :
    assemble p lines atoms s = assembleBefore p atoms [] s := by
  induction atoms generalizing s with
  | nil => rfl
  | cons a rest ih =>
    rw [assemble, assembleBefore, List.append_nil]
    cases ht : s.roomyStep p rest a with
    | none =>
      have hroom : s.index + opCodes [a] ≤ lines := by simpa only [written, ht] using h
      rw [Asm.step_room hroom, ht]
      rfl
    | some t =>
      have hrest : written p rest t ≤ lines := by simpa only [written, ht] using h
      have hindex := Asm.step_index ht
      have hle : t.index ≤ written p rest t := index_le_written
      rw [Asm.step_room (by omega), ht]
      exact ih hrest

end

/-! ## Source texts -/

/-- The atoms of a file, and the state in which `Assemble()` begins with them;
none if it does not come to that. -/
def sourceStart (file : List Char) : Option (List Atom × Asm) :=
  let source := readSource file
  if file.length < 2 ∨ source.head? = some '.' then none
  else (getAtoms source).map fun r =>
    (r.1, { eval := { errors := if r.2 then ["Illegal character"] else [] } })

/-- The instructions written for a file. -/
def instructionsWritten (p : Shifts) (file : List Char) : Nat :=
  match sourceStart file with
  | none => 0
  | some (atoms, s) => written p atoms s

/-- The instructions that `main()` takes memory for. -/
def allocated (file : List Char) : Nat := (readSource file).count '\n'

theorem sourceStart_index {file : List Char} {atoms : List Atom} {s : Asm}
    (h : sourceStart file = some (atoms, s)) : s.index = 0 := by
  simp only [sourceStart] at h
  split at h
  · cases h
  · obtain ⟨r, _, heq⟩ := Option.map_eq_some_iff.mp h
    cases heq
    rfl

def plainShifts : Shifts := ⟨fun l _ => l, fun l _ => l⟩

end Coht.Mttn
