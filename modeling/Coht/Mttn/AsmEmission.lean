import Coht.Mttn.AsmRun

/-!
# What the assembler emits

An op-code and the atoms up to the next one are a statement, and `statement`
says what instruction it stands for once the values of all symbols are known:
the operands are taken in the order literal, first source, second source,
destination. The program an accepted source is assembled to is the list of
these, and the flags are clear whenever the next op-code comes.

That holds as long as no closing bracket comes behind the first op-code. A
closing bracket stores the value of its expression through the pointer to the
current instruction, which is the one emitted last.

The proof goes backwards over the atoms: `Emits` says what is in the end in the
places of the instructions emitted so far, given the operands still to come.
-/

namespace Coht.Mttn

open Coht.Lib

/-! ## Statements -/

inductive Slot
  | lit
  | sr1
  | sr2
  | dst

/-- The operands still expected, in order. -/
def Flags.slots (f : Flags) : List Slot :=
  (if f.lit then [.lit] else []) ++ ((if f.sr1 then [.sr1] else []) ++
    ((if f.sr2 then [.sr2] else []) ++ (if f.dst then [.dst] else [])))

def Slot.takes : Slot → Atom → Bool
  | .lit, a => a.type = .numeric ∨ a.type = .alpha
  | _, a => a.type = .register

def operandValue (val : List Char → BitVec 32) (a : Atom) : BitVec 32 :=
  if a.type = .alpha then val a.text else a.value

def Slot.put (val : List Char → BitVec 32) (a : Atom) :
    Slot → Instruction → Instruction
  | .lit, inst => { inst with src1 := operandValue val a }
  | .sr1, inst => { inst with src1 := a.value }
  | .sr2, inst => { inst with src2 := a.value.setWidth 8 }
  | .dst, inst => { inst with dest := a.value.setWidth 8 }

def fill (val : List Char → BitVec 32) :
    List Slot → List Atom → Instruction → Instruction
  | slot :: slots, a :: args, inst => fill val slots args (slot.put val a inst)
  | _, _, inst => inst

def Fits : List Slot → List Atom → Prop
  | [], _ => True
  | slot :: slots, a :: args => slot.takes a = true ∧ Fits slots args
  | _ :: _, [] => False

/-- The atoms up to the next op-code. -/
def ownAtoms (rest : List Atom) : List Atom :=
  rest.takeWhile fun a => a.type ≠ .opCode

def operands (rest : List Atom) : List Atom :=
  (ownAtoms rest).filter fun a => !a.separates

/-- The op-codes of a source, each with the atoms of its statement. -/
def opStatements : List Atom → List (Atom × List Atom)
  | [] => []
  | a :: rest =>
    if a.type = .opCode then (a, ownAtoms rest) :: opStatements rest
    else opStatements rest

/-- The instruction of a statement. -/
def statement (val : List Char → BitVec 32) (st : Atom × List Atom) :
    Instruction :=
  match instructionSet[st.1.value.toNat]? with
  | some opcd =>
    fill val opcd.expected.slots (st.2.filter fun a => !a.separates)
      { number := opcd.number.number }
  | none => {}

/-- No closing bracket comes behind the first op-code. -/
def bracketsFirst (atoms : List Atom) : Prop :=
  ∀ a ∈ atoms.dropWhile fun a => a.type ≠ .opCode, a.closes = false

/-- The program is the statements of the source, and nothing else has a hand in
it. -/
structure EmissionFrame (p : Shifts) (file : List Char) (S : Asm) : Prop where
  count : S.index = (opStatements (sourceAtoms file)).length
  program : ∀ (j : Nat) (st : Atom × List Atom),
    (opStatements (sourceAtoms file))[j]? = some st →
    S.pass2 j = statement S.eval.symbolValue st
  unchanged : ∀ (a : Atom) (rest : List Atom) (s s' : Asm),
    (sourceSystem p file).Reachable (a :: rest, s) →
    (sourceSystem p file).step (a :: rest, s) a (rest, s') →
    s.expect = {} → ∀ j < s.index, s'.program j = s.program j
  noLeak : ∀ (a : Atom) (rest : List Atom) (s : Asm),
    (sourceSystem p file).Reachable (a :: rest, s) → a.type = .opCode →
    s.expect = {}

/-! ## Operands -/

section Operands

variable {f : Flags} {slots : List Slot} {slot : Slot} {a : Atom}
  {rest args : List Atom}

theorem slots_lit (hlit : f.lit = true) :
    f.slots = .lit :: ({ f with lit := false } : Flags).slots := by
  simp [Flags.slots, hlit]

theorem slots_sr1 (hlit : f.lit = false) (hsr1 : f.sr1 = true) :
    f.slots = .sr1 :: ({ f with sr1 := false } : Flags).slots := by
  simp [Flags.slots, hlit, hsr1]

theorem slots_sr2 (hlit : f.lit = false) (hsr1 : f.sr1 = false)
    (hsr2 : f.sr2 = true) :
    f.slots = .sr2 :: ({ f with sr2 := false } : Flags).slots := by
  simp [Flags.slots, hlit, hsr1, hsr2]

theorem slots_dst (hlit : f.lit = false) (hsr1 : f.sr1 = false)
    (hsr2 : f.sr2 = false) (hdst : f.dst = true) :
    f.slots = .dst :: ({ f with dst := false } : Flags).slots := by
  simp [Flags.slots, hlit, hsr1, hsr2, hdst]

theorem slots_eq_nil (h : f.slots = []) : f = {} := by
  obtain ⟨lit, sr1, sr2, dst⟩ := f
  cases lit <;> cases sr1 <;> cases sr2 <;> cases dst <;>
    simp [Flags.slots] at h ⊢

theorem operands_opCode (h : a.type = .opCode) : operands (a :: rest) = [] := by
  simp [operands, ownAtoms, h]

theorem operands_separates (h : a.type ≠ .opCode) (h' : a.separates = true) :
    operands (a :: rest) = operands rest := by
  simp [operands, ownAtoms, h, h']

theorem operands_cons (h : a.type ≠ .opCode) (h' : a.separates = false) :
    operands (a :: rest) = a :: operands rest := by
  simp [operands, ownAtoms, h, h']

theorem slots_of_fits (h : Fits slots (a :: args))
    (ha : ∀ slot : Slot, slot ∈ slots.head? → slot.takes a = false) :
    slots = [] := by
  cases slots with
  | nil => rfl
  | cons slot slots =>
    have hno := ha slot rfl
    rw [h.1] at hno
    cases hno

theorem fits_nil (h : Fits slots []) : slots = [] := by
  cases slots with
  | nil => rfl
  | cons slot slots => cases h

end Operands

/-! ## `GetConfirm()` -/

section Confirm

variable {slots : List Slot} {slot : Slot} {a : Atom} {rest cur next : List Atom}
  {text : String} {expected : Bool}

def Slot.kind : Slot → AtomType
  | .lit => .expression
  | _ => .register

/-- Where `GetConfirm()` stands: at an atom that is no separator, or at the
last one. -/
structure Cursor (cur : List Atom) : Prop where
  last : cur.getLast? = some newAtom
  front : ∀ b t, cur = b :: t → b.separates = true → t = []
  scanned : ∀ x ∈ cur, x.scanned

theorem takes_of_compare (ha : a.scanned)
    (h : compareAtomTypes a.type slot.kind = true) :
    slot.takes a = true ∧ a.separates = false := by
  obtain ⟨hexpression, hnotSet⟩ := ha
  unfold Slot.takes Atom.separates
  cases slot <;> cases htype : a.type <;>
    simp_all [Slot.kind, compareAtomTypes]

theorem nextAtom_cursor (hlast : (a :: rest).getLast? = some newAtom)
    (hscanned : ∀ x ∈ a :: rest, x.scanned) :
    Cursor (nextAtom (a :: rest)) ∧
      (nextAtom (a :: rest)).filter (fun x => !x.separates) =
        rest.filter fun x => !x.separates := by
  induction rest generalizing a with
  | nil =>
    have ha : a = newAtom := by simpa using hlast
    refine ⟨⟨hlast, ?_, hscanned⟩, ?_⟩
    · intro b t heq _
      injection heq with _ ht
      exact ht.symm
    · rw [ha]
      rfl
  | cons b rest ih =>
    have hlast' : (b :: rest).getLast? = some newAtom := by
      rw [← hlast, List.getLast?_cons_cons]
    have hscanned' : ∀ x ∈ b :: rest, x.scanned :=
      fun x hx => hscanned x (List.mem_cons_of_mem _ hx)
    rw [nextAtom]
    split
    · rename_i hsep
      obtain ⟨hcursor, hfilter⟩ := ih hlast' hscanned'
      refine ⟨hcursor, ?_⟩
      rw [hfilter]
      simp [hsep]
    · rename_i hsep
      refine ⟨⟨hlast', ?_, hscanned'⟩, rfl⟩
      intro b' t heq hb'
      injection heq with hb
      rw [hb] at hsep
      exact absurd hb' hsep

theorem confirmOperand_fits (slot : Slot) (hcur : Cursor cur)
    (h : confirmOperand expected slot.kind text cur = .ok next) :
    Cursor next ∧ ∀ slots, Fits slots (next.filter fun x => !x.separates) →
      Fits ((if expected then [slot] else []) ++ slots)
        (cur.filter fun x => !x.separates) := by
  unfold confirmOperand at h
  cases expected with
  | false =>
    injection h with h
    subst h
    exact ⟨hcur, fun slots hslots => hslots⟩
  | true =>
    rw [if_pos rfl] at h
    cases cur with
    | nil => cases h
    | cons b t =>
      dsimp only at h
      split at h
      · rename_i hcompare
        injection h with h
        subst h
        obtain ⟨htakes, hsep⟩ :=
          takes_of_compare (hcur.scanned b List.mem_cons_self) hcompare
        obtain ⟨hcursor, hfilter⟩ := nextAtom_cursor hcur.last hcur.scanned
        refine ⟨hcursor, fun slots hslots => ?_⟩
        rw [hfilter] at hslots
        simp only [List.filter_cons, hsep]
        exact ⟨htakes, hslots⟩
      · cases h

theorem fits_operands (h : Fits slots (rest.filter fun x => !x.separates)) :
    Fits slots (operands rest) := by
  induction rest generalizing slots with
  | nil => exact h
  | cons a rest ih =>
    by_cases hop : a.type = .opCode
    · have hsep : a.separates = false := by
        simp [Atom.separates, compareAtomTypes, hop]
      rw [List.filter_cons, if_pos (by simp [hsep])] at h
      rw [operands_opCode hop]
      have hnil : slots = [] := by
        refine slots_of_fits h fun slot _ => ?_
        cases slot <;> simp [Slot.takes, hop]
      rw [hnil]
      trivial
    · cases hsep : a.separates with
      | true =>
        rw [List.filter_cons, if_neg (by simp [hsep])] at h
        rw [operands_separates hop hsep]
        exact ih h
      | false =>
        rw [List.filter_cons, if_pos (by simp [hsep])] at h
        rw [operands_cons hop hsep]
        cases slots with
        | nil => trivial
        | cons slot slots => exact ⟨h.1, ih h.2⟩

theorem except_bind_ok {ε α β : Type} {x : Except ε α} {f : α → Except ε β}
    {b : β} (h : (x >>= f) = .ok b) : ∃ a, x = .ok a ∧ f a = .ok b := by
  cases x with
  | error e => cases h
  | ok a => exact ⟨a, rfl, h⟩

theorem getConfirm_fits {opcd : OpCode}
    (hlast : (a :: rest).getLast? = some newAtom)
    (hscanned : ∀ x ∈ a :: rest, x.scanned)
    (h : getConfirm opcd (a :: rest) = .ok next) :
    Fits opcd.expected.slots (operands rest) := by
  obtain ⟨hcursor, hfilter⟩ := nextAtom_cursor hlast hscanned
  obtain ⟨c₁, h₁, h⟩ := except_bind_ok h
  obtain ⟨c₂, h₂, h⟩ := except_bind_ok h
  obtain ⟨c₃, h₃, h₄⟩ := except_bind_ok h
  obtain ⟨hcursor₁, hlit⟩ := confirmOperand_fits .lit hcursor h₁
  obtain ⟨hcursor₂, hsr1⟩ := confirmOperand_fits .sr1 hcursor₁ h₂
  obtain ⟨hcursor₃, hsr2⟩ := confirmOperand_fits .sr2 hcursor₂ h₃
  obtain ⟨_, hdst⟩ := confirmOperand_fits .dst hcursor₃ h₄
  refine fits_operands ?_
  rw [← hfilter]
  have hall := hlit _ (hsr1 _ (hsr2 _ (hdst [] trivial)))
  rw [List.append_nil] at hall
  exact hall

end Confirm

/-! ## The second pass -/

section Patches

variable {val : List Char → BitVec 32} {fw : List (Nat × List Char)} {i : Nat}
  {r : Nat × List Char} {inst : Instruction} {v : BitVec 8}

def patch (val : List Char → BitVec 32) (fw : List (Nat × List Char)) (i : Nat)
    (inst : Instruction) : Instruction :=
  fw.foldl (fun inst r =>
    if i = r.1 then { inst with src1 := val r.2 } else inst) inst

def Asm.emitted (val : List Char → BitVec 32) (s : Asm) (i : Nat) :
    Instruction :=
  patch val s.forward i (s.program i)

theorem patch_cons (val : List Char → BitVec 32) (r : Nat × List Char)
    (fw : List (Nat × List Char)) (i : Nat) (inst : Instruction) :
    patch val (r :: fw) i inst =
      patch val fw i (if i = r.1 then { inst with src1 := val r.2 } else inst) :=
  rfl

theorem pass2_eq (s : Asm) (i : Nat) :
    s.pass2 i = s.emitted s.eval.symbolValue i := by
  unfold Asm.pass2 Asm.emitted
  generalize s.program = program
  induction s.forward generalizing program with
  | nil => rfl
  | cons r fw ih =>
    rw [List.foldl_cons, patch_cons, ih]

theorem patch_append (val : List Char → BitVec 32) (fw : List (Nat × List Char))
    (r : Nat × List Char) (i : Nat) (inst : Instruction) :
    patch val (fw ++ [r]) i inst =
      if i = r.1 then { patch val fw i inst with src1 := val r.2 }
      else patch val fw i inst := by
  unfold patch
  rw [List.foldl_append]
  rfl

theorem patch_of_not_mem (h : ∀ r ∈ fw, r.1 ≠ i) :
    patch val fw i inst = inst := by
  induction fw with
  | nil => rfl
  | cons r fw ih =>
    have hne : i ≠ r.1 := (h r List.mem_cons_self).symm
    rw [patch_cons, if_neg hne]
    exact ih fun r' h' => h r' (List.mem_cons_of_mem _ h')

theorem patch_comm (f : Instruction → Instruction)
    (hf : ∀ inst v, f { inst with src1 := v } = { f inst with src1 := v }) :
    patch val fw i (f inst) = f (patch val fw i inst) := by
  induction fw generalizing inst with
  | nil => rfl
  | cons r fw ih =>
    rw [patch_cons, patch_cons]
    by_cases h : i = r.1
    · rw [if_pos h, if_pos h, ← hf, ih]
    · rw [if_neg h, if_neg h, ih]

theorem emitted_modify {s t : Asm} (f : Instruction → Instruction)
    (hprogram : t.program = (s.modify f).program)
    (hforward : t.forward = s.forward)
    (hf : (∀ r ∈ s.forward, r.1 ≠ s.inst) ∨
      ∀ inst v, f { inst with src1 := v } = { f inst with src1 := v })
    (j : Nat) :
    t.emitted val j =
      if j = s.inst then f (s.emitted val j) else s.emitted val j := by
  unfold Asm.emitted
  rw [hprogram, hforward]
  by_cases hj : j = s.inst
  · subst hj
    simp only [Asm.modify, if_true]
    rcases hf with hnone | hcomm
    · rw [patch_of_not_mem hnone, patch_of_not_mem hnone]
    · exact patch_comm f hcomm
  · simp only [Asm.modify, if_neg hj]

end Patches

/-! ## What is kept between two atoms -/

/-- The operands still expected are those that come, and there is no forward
reference yet for an instruction without its first source. -/
structure Placed (s : Asm) (rest : List Atom) : Prop where
  fits : Fits s.expect.slots (operands rest)
  inst : s.index = 0 ∧ s.expect = {} ∨ s.index = s.inst + 1
  forward : ∀ r ∈ s.forward, r.1 < s.index
  source : s.expect.lit = true → s.expect.sr1 = false
  pending : s.expect.lit = true ∨ s.expect.sr1 = true →
    ∀ r ∈ s.forward, r.1 ≠ s.inst
  brackets : ∀ a ∈
    (if s.index = 0 then rest.dropWhile fun a => a.type ≠ .opCode else rest),
    a.closes = false
  last : rest ≠ [] → rest.getLast? = some newAtom
  scanned : ∀ a ∈ rest, a.scanned

/-- What an atom does to the instructions: it is the operand expected first,
or it does nothing to them, or it is an op-code. -/
inductive Effect (val : List Char → BitVec 32) (rest : List Atom) (a : Atom)
    (s t : Asm) : Prop
  | takes (slot : Slot) : a.type ≠ .opCode → a.separates = false →
      s.expect.slots = slot :: t.expect.slots →
      t.expect.lit = false → t.expect.sr1 = false →
      t.index = s.index → t.inst = s.inst →
      (∀ r ∈ t.forward, r ∈ s.forward ∨ r.1 = s.inst) →
      (∀ j, t.emitted val j =
        if j = s.inst then slot.put val a (s.emitted val j)
        else s.emitted val j) →
      Effect val rest a s t
  | idle : a.type ≠ .opCode → a.separates = true ∨ s.expect = {} →
      t.expect = s.expect → t.index = s.index → t.inst = s.inst →
      t.forward = s.forward → (∀ j < s.index, t.program j = s.program j) →
      Effect val rest a s t
  | opCode (opcd : OpCode) (atoms : List Atom) : a.type = .opCode →
      instructionSet[a.value.toNat]? = some opcd →
      getConfirm opcd (a :: rest) = .ok atoms →
      s.expect = {} → t.expect = opcd.expected → t.inst = s.index →
      t.index = s.index + 1 → t.forward = s.forward →
      (∀ j, t.program j =
        if j = s.index then { number := opcd.number.number }
        else s.program j) →
      Effect val rest a s t

section Steps

open Asm

variable {p : Shifts} {atoms rest : List Atom} {a : Atom} {s t : Asm}
  {val : List Char → BitVec 32}

theorem Placed.expect_clear (h : Placed s (a :: rest))
    (hsep : a.separates = false ∨ a.type = .opCode) (hreg : a.type ≠ .register)
    (hlit : s.expect.lit = true → a.type ≠ .numeric ∧ a.type ≠ .alpha) :
    s.expect = {} := by
  refine slots_eq_nil ?_
  have hfits := h.fits
  by_cases hop : a.type = .opCode
  · rw [operands_opCode hop] at hfits
    exact fits_nil hfits
  · rw [operands_cons hop (hsep.resolve_right hop)] at hfits
    cases hx : s.expect.lit with
    | true =>
      rw [slots_lit hx] at hfits
      have htakes := hfits.1
      obtain ⟨hnum, halpha⟩ := hlit hx
      simp [Slot.takes, hnum, halpha] at htakes
    | false =>
      refine slots_of_fits hfits fun slot hslot => ?_
      cases slot with
      | lit => simp [Flags.slots, hx] at hslot; grind
      | sr1 | sr2 | dst => simp [Slot.takes, hreg]

theorem Placed.not_closes (h : Placed s (a :: rest)) (ha : a.closes = true) :
    s.index = 0 := by
  by_cases hidx : s.index = 0
  · exact hidx
  · have hno := h.brackets a (by rw [if_neg hidx]; exact List.mem_cons_self)
    rw [ha] at hno
    cases hno

theorem register_effect (h : Placed s (a :: rest)) (ha : a.type = .register) :
    Effect val rest a s (s.register a) := by
  have hop : a.type ≠ .opCode := by simp [ha]
  have hsep : a.separates = false := by
    simp [Atom.separates, compareAtomTypes, ha]
  have hlit : s.expect.lit = false := by
    cases hx : s.expect.lit with
    | false => rfl
    | true =>
      have hfits := h.fits
      rw [operands_cons hop hsep, slots_lit hx] at hfits
      have htakes := hfits.1
      simp [Slot.takes, ha] at htakes
  unfold Asm.register
  split
  · rename_i hsr1
    refine .takes .sr1 hop hsep (slots_sr1 hlit hsr1) hlit rfl rfl rfl
      (fun r hr => .inl hr) ?_
    exact emitted_modify (Slot.sr1.put val a) rfl rfl
      (.inl (h.pending (.inr hsr1)))
  · rename_i hsr1
    have hsr1 := eq_false_of_ne_true hsr1
    split
    · rename_i hsr2
      refine .takes .sr2 hop hsep (slots_sr2 hlit hsr1 hsr2) hlit hsr1 rfl rfl
        (fun r hr => .inl hr) ?_
      exact emitted_modify (Slot.sr2.put val a) rfl rfl (.inr fun _ _ => rfl)
    · rename_i hsr2
      have hsr2 := eq_false_of_ne_true hsr2
      split
      · rename_i hdst
        refine .takes .dst hop hsep (slots_dst hlit hsr1 hsr2 hdst) hlit hsr1
          rfl rfl (fun r hr => .inl hr) ?_
        exact emitted_modify (Slot.dst.put val a) rfl rfl (.inr fun _ _ => rfl)
      · rename_i hdst
        have hclear : s.expect = {} := by
          refine slots_eq_nil ?_
          simp [Flags.slots, hlit, hsr1, hsr2, hdst]
        exact .idle hop (.inr hclear) rfl rfl rfl rfl fun _ _ => rfl

theorem Asm.Accepts.effect (h : Placed s (a :: rest))
    (hstep : Accepts p rest a s t)
    (hval : s.expect.lit = true → ∀ x, t.eval.symbolValue x ≠ 0 →
      val x = t.eval.symbolValue x) :
    Effect val rest a s t := by
  have hkinds : a.type = .numeric ∨ a.type = .alpha → a.type ≠ .opCode ∧
      a.separates = false := by
    rintro (ha | ha) <;> simp [Atom.separates, compareAtomTypes, ha]
  cases hstep with
  | literal ha hlit =>
    obtain ⟨hop, hsep⟩ := hkinds (.inl ha)
    refine .takes .lit hop hsep (slots_lit hlit) rfl (h.source hlit) rfl rfl
      (fun r hr => .inl hr) ?_
    have hvalue : operandValue val a = a.value := by
      simp [operandValue, ha]
    refine emitted_modify (Slot.lit.put val a) ?_ rfl
      (.inl (h.pending (.inl hlit)))
    unfold Slot.put
    rw [hvalue]
    rfl
  | symbol e forward ha hlit hquiet hforward =>
    obtain ⟨hop, hsep⟩ := hkinds (.inr ha)
    have hvalue : operandValue val a = val a.text := by
      simp [operandValue, ha]
    have hnone := h.pending (.inl hlit)
    have hmodify : ∀ j, (s.setSrc1 (e.symbolValue a.text)).emitted val j =
        if j = s.inst then
          { s.emitted val j with src1 := e.symbolValue a.text }
        else s.emitted val j :=
      emitted_modify (fun inst => { inst with src1 := e.symbolValue a.text })
        rfl rfl (.inl hnone)
    rcases hforward with ⟨hzero, rfl⟩ | ⟨hdefined, rfl⟩
    · refine .takes .lit hop hsep (slots_lit hlit) rfl (h.source hlit) rfl rfl
        ?_ fun j => ?_
      · intro r hr
        rcases List.mem_append.mp hr with hmem | hmem
        · exact .inl hmem
        · exact .inr (by rw [List.mem_singleton.mp hmem])
      · have happend := patch_append val s.forward (s.inst, a.text) j
          ((s.setSrc1 (e.symbolValue a.text)).program j)
        have hbase : patch val s.forward j
            ((s.setSrc1 (e.symbolValue a.text)).program j) = _ := hmodify j
        refine happend.trans ?_
        rw [hbase]
        by_cases hj : j = s.inst
        · simp only [hj, if_true, Slot.put, hvalue]
        · simp only [if_neg hj]
    · refine .takes .lit hop hsep (slots_lit hlit) rfl (h.source hlit) rfl rfl
        (fun r hr => .inl hr) fun j => ?_
      have hput : val a.text = e.symbolValue a.text :=
        hval hlit a.text hdefined
      refine (hmodify j).trans ?_
      simp only [Slot.put, hvalue, hput]
  | label e name ha hmark hquiet hknown hzero =>
    have hclear := h.expect_clear
      (.inl (by simp [Atom.separates, compareAtomTypes, ha]))
      (by simp [ha]) (fun _ => by simp [ha])
    exact .idle (by simp [ha]) (.inr hclear) rfl rfl rfl rfl fun _ _ => rfl
  | start v ha hmark hpc =>
    have hclear := h.expect_clear
      (.inl (by simp [Atom.separates, compareAtomTypes, ha]))
      (by simp [ha]) (fun _ => by simp [ha])
    exact .idle (by simp [ha]) (.inr hclear) rfl rfl rfl rfl fun _ _ => rfl
  | opCode opcd atoms ha hopcd hconfirm =>
    have hclear := h.expect_clear (.inr ha) (by simp [ha])
      (fun _ => by simp [ha])
    exact .opCode opcd atoms ha hopcd hconfirm hclear rfl rfl rfl rfl
      fun _ => rfl
  | register ha => exact register_effect h ha
  | close e v ha hexpression =>
    have hzero := h.not_closes ha
    have hclear : s.expect = {} := by
      rcases h.inst with ⟨_, hclear⟩ | hinst
      · exact hclear
      · omega
    have hop : a.type ≠ .opCode := by
      intro hop
      simp [Atom.closes, hop] at ha
    exact .idle hop (.inr hclear) (by rw [hclear]) rfl rfl rfl
      fun j hj => by omega
  | quiet e expect hop hreg hclose hmark hquiet hlit hexpect =>
    cases hsep : a.separates with
    | true =>
      rw [hsep] at hexpect
      rcases hexpect with rfl | ⟨hno, _⟩
      · exact .idle hop (.inl hsep) rfl rfl rfl rfl fun _ _ => rfl
      · cases hno
    | false =>
      have hclear := h.expect_clear (.inl hsep) hreg hlit
      have heq : expect = s.expect := by
        rcases hexpect with rfl | ⟨_, rfl⟩
        · rfl
        · rw [hclear]
      exact .idle hop (.inr hclear) heq rfl rfl rfl fun _ _ => rfl

theorem Effect.patom (h : Effect val rest a s t) (x : Option Atom) :
    Effect val rest a s { t with patom := x } := by
  cases h with
  | takes slot hop hsep hslots hlit hsr1 hindex hinst hforward hemitted =>
    exact .takes slot hop hsep hslots hlit hsr1 hindex hinst hforward hemitted
  | idle hop hclear hexpect hindex hinst hforward hprogram =>
    exact .idle hop hclear hexpect hindex hinst hforward hprogram
  | opCode opcd atoms hop hopcd hconfirm hclear hexpect hinst hindex hforward
      hprogram =>
      exact .opCode opcd atoms hop hopcd hconfirm hclear hexpect hinst hindex
        hforward hprogram

theorem Placed.brackets_tail (h : Placed s (a :: rest))
    (hop : a.type ≠ .opCode) (hindex : t.index = s.index) :
    ∀ b ∈
      (if t.index = 0 then rest.dropWhile fun b => b.type ≠ .opCode else rest),
      b.closes = false := by
  intro b hb
  refine h.brackets b ?_
  rw [hindex] at hb
  split at hb
  · rename_i hzero
    rw [if_pos hzero, List.dropWhile_cons, if_pos (by simp [hop])]
    exact hb
  · rename_i hzero
    rw [if_neg hzero]
    exact List.mem_cons_of_mem _ hb

theorem Placed.step (h : Placed s (a :: rest)) (he : Effect val rest a s t) :
    Placed t rest := by
  have hlast : rest ≠ [] → rest.getLast? = some newAtom := by
    intro hne
    rw [← h.last (List.cons_ne_nil _ _)]
    obtain ⟨b, tail, rfl⟩ := List.exists_cons_of_ne_nil hne
    exact List.getLast?_cons_cons.symm
  have hscanned : ∀ b ∈ rest, b.scanned :=
    fun b hb => h.scanned b (List.mem_cons_of_mem _ hb)
  have hfits := h.fits
  cases he with
  | takes slot hop hsep hslots hlit hsr1 hindex hinst hforward hemitted =>
    have hidx : s.index = s.inst + 1 := by
      rcases h.inst with ⟨_, hclear⟩ | hidx
      · rw [hclear] at hslots
        cases hslots
      · exact hidx
    refine ⟨?_, .inr (by omega), ?_, ?_, ?_, h.brackets_tail hop hindex,
      hlast, hscanned⟩
    · rw [hslots, operands_cons hop hsep] at hfits
      exact hfits.2
    · intro r hr
      rw [hindex]
      rcases hforward r hr with hmem | heq
      · exact h.forward r hmem
      · omega
    · intro hno
      rw [hlit] at hno
      cases hno
    · rw [hlit, hsr1]
      rintro (hno | hno) <;> cases hno
  | idle hop hclear hexpect hindex hinst hforward hprogram =>
    refine ⟨?_, ?_, ?_, ?_, ?_, h.brackets_tail hop hindex, hlast, hscanned⟩
    · rw [hexpect]
      rcases hclear with hsep | hclear
      · rw [operands_separates hop hsep] at hfits
        exact hfits
      · rw [hclear]
        trivial
    · rw [hindex, hexpect, hinst]
      exact h.inst
    · rw [hforward, hindex]
      exact h.forward
    · rw [hexpect]
      exact h.source
    · rw [hexpect, hforward, hinst]
      exact h.pending
  | opCode opcd atoms hop hopcd hconfirm hclear hexpect hinst hindex hforward
      hprogram =>
      refine ⟨?_, .inr (by omega), ?_, ?_, ?_, ?_, hlast, hscanned⟩
      · rw [hexpect]
        exact getConfirm_fits (h.last (List.cons_ne_nil _ _)) h.scanned hconfirm
      · intro r hr
        rw [hforward] at hr
        have := h.forward r hr
        omega
      · rw [hexpect]
        unfold OpCode.expected
        simp only [decide_eq_true_eq, decide_eq_false_iff_not]
        rintro (hsrc | hsrc) <;> simp [hsrc]
      · intro _ r hr
        rw [hforward] at hr
        have := h.forward r hr
        omega
      · intro b hb
        rw [if_neg (by omega)] at hb
        refine h.brackets b ?_
        split
        · rw [List.dropWhile_cons, if_neg (by simp [hop])]
          exact List.mem_cons_of_mem _ hb
        · exact List.mem_cons_of_mem _ hb

end Steps

/-! ## The program in the end -/

/-- What is in the end in the places of the instructions emitted so far, and
in those of the statements to come. -/
structure Emits (val : List Char → BitVec 32) (S s : Asm) (rest : List Atom) :
    Prop where
  count : S.index = s.index + (opStatements rest).length
  earlier : ∀ j < s.index, S.emitted val j =
    if j = s.inst then
      fill val s.expect.slots (operands rest) (s.emitted val j)
    else s.emitted val j
  later : ∀ (j : Nat) (st : Atom × List Atom), (opStatements rest)[j]? = some st →
    S.emitted val (s.index + j) = statement val st

section Programs

open Asm

variable {p : Shifts} {lines : Nat} {atoms rest : List Atom} {a : Atom}
  {s t S : Asm} {val : List Char → BitVec 32}

theorem fill_nil (val : List Char → BitVec 32) (args : List Atom)
    (inst : Instruction) : fill val [] args inst = inst := by
  cases args <;> rfl

theorem emits_end (s : Asm) : Emits val s s [] where
  count := rfl
  earlier j _ := by
    have hfill : fill val s.expect.slots (operands []) (s.emitted val j) =
        s.emitted val j := by
      cases s.expect.slots <;> rfl
    rw [hfill, ite_self]
  later j st h := by cases h

theorem Emits.of_not_opCode (h : Emits val S t rest) (hop : a.type ≠ .opCode)
    (hindex : t.index = s.index)
    (hearlier : ∀ j < s.index, S.emitted val j =
      if j = s.inst then
        fill val s.expect.slots (operands (a :: rest)) (s.emitted val j)
      else s.emitted val j) :
    Emits val S s (a :: rest) := by
  have hstatements : opStatements (a :: rest) = opStatements rest := if_neg hop
  refine ⟨?_, hearlier, fun j st hst => ?_⟩
  · rw [hstatements, ← hindex]
    exact h.count
  · rw [hstatements] at hst
    rw [← hindex]
    exact h.later j st hst

theorem Emits.step (h : Emits val S t rest) (hp : Placed s (a :: rest))
    (he : Effect val rest a s t) : Emits val S s (a :: rest) := by
  cases he with
  | takes slot hop hsep hslots hlit hsr1 hindex hinst hforward hemitted =>
    refine h.of_not_opCode hop hindex fun j hj => ?_
    have hearlier := h.earlier j (by omega)
    rw [hinst, hemitted j] at hearlier
    rw [hearlier, hslots, operands_cons hop hsep]
    by_cases hj' : j = s.inst
    · simp only [if_pos hj', fill]
    · simp only [if_neg hj']
  | idle hop hclear hexpect hindex hinst hforward hprogram =>
    refine h.of_not_opCode hop hindex fun j hj => ?_
    have hearlier := h.earlier j (by omega)
    have hemitted : t.emitted val j = s.emitted val j := by
      unfold Asm.emitted
      rw [hforward, hprogram j hj]
    rw [hearlier, hinst, hexpect, hemitted]
    rcases hclear with hsep | hclear
    · rw [operands_separates hop hsep]
    · have hslots : s.expect.slots = [] := by rw [hclear]; rfl
      rw [hslots, fill_nil, fill_nil]
  | opCode opcd atoms hop hopcd hconfirm hclear hexpect hinst hindex hforward
      hprogram =>
      have hstatements :
          opStatements (a :: rest) = (a, ownAtoms rest) :: opStatements rest :=
        if_pos hop
      have hslots : s.expect.slots = [] := by rw [hclear]; rfl
      refine ⟨?_, fun j hj => ?_, fun j st hst => ?_⟩
      · rw [hstatements, List.length_cons, h.count, hindex]
        omega
      · have hearlier := h.earlier j (by omega)
        rw [hinst, if_neg (by omega)] at hearlier
        have hemitted : t.emitted val j = s.emitted val j := by
          unfold Asm.emitted
          rw [hforward, hprogram j, if_neg (by omega)]
        rw [hearlier, hemitted, hslots, fill_nil, ite_self]
      · rw [hstatements] at hst
        cases j with
        | zero =>
          injection hst with hst
          have hearlier := h.earlier s.index (by omega)
          rw [hinst, if_pos rfl, hexpect] at hearlier
          have hnone : ∀ r ∈ t.forward, r.1 ≠ s.index := by
            intro r hr
            rw [hforward] at hr
            exact Nat.ne_of_lt (hp.forward r hr)
          have hemitted : t.emitted val s.index =
              { number := opcd.number.number } := by
            unfold Asm.emitted
            rw [patch_of_not_mem hnone, hprogram s.index, if_pos rfl]
          rw [hemitted] at hearlier
          rw [← hst, Nat.add_zero, hearlier]
          unfold statement
          rw [hopcd]
          rfl
        | succ j =>
          have hlater := h.later j st hst
          rw [hindex] at hlater
          rw [← hlater]
          congr 1
          omega

theorem Asm.Accepts.value (h : Accepts p rest a s t) (ha : a.closes = false)
    {x : List Char} (hx : s.eval.symbolValue x ≠ 0) :
    t.eval.symbolValue x = s.eval.symbolValue x := by
  cases h with
  | literal | start | opCode => rfl
  | symbol e _ _ _ hquiet _ => exact hquiet.value x
  | quiet e _ _ _ _ _ hquiet _ _ => exact hquiet.value x
  | label e name _ _ hquiet hknown hzero =>
    have hne : x ≠ name := by
      rintro rfl
      exact hx ((hquiet.value x).symm.trans hzero)
    refine (Evaluator.symbolValue_store hknown x).trans ?_
    rw [if_neg hne]
    exact hquiet.value x
  | register =>
    obtain ⟨program, expect, heq⟩ := register_eq a s
    rw [heq]
  | close e v hcloses _ =>
    rw [ha] at hcloses
    cases hcloses

theorem assemble_value (hok : S.eval.errors = [])
    (h : assemble p lines atoms s = some S)
    (hno : ∀ a ∈ atoms, a.closes = false) {x : List Char}
    (hx : s.eval.symbolValue x ≠ 0) :
    S.eval.symbolValue x = s.eval.symbolValue x := by
  refine assemble_induction
    (motive := fun l s => (∀ a ∈ l, a.closes = false) →
      s.eval.symbolValue x ≠ 0 →
      S.eval.symbolValue x = s.eval.symbolValue x) hok (fun _ _ => rfl)
    ?_ h hno hx
  intro a rest s t ht _ ih hno hx
  have hvalue := ht.value (hno a List.mem_cons_self) hx
  have htail := ih (fun b hb => hno b (List.mem_cons_of_mem _ hb))
    (by rw [show ({ t with patom := some a } : Asm).eval = t.eval from rfl,
      hvalue]; exact hx)
  exact htail.trans hvalue

theorem Asm.Accepts.effect_end (hok : S.eval.errors = [])
    (hp : Placed s (a :: rest)) (ht : Accepts p rest a s t)
    (h : assemble p lines rest { t with patom := some a } = some S) :
    Effect S.eval.symbolValue rest a s { t with patom := some a } := by
  refine (ht.effect hp fun hlit x hx => ?_).patom _
  have hne : ¬ s.index = 0 := by
    intro hzero
    rcases hp.inst with ⟨_, hclear⟩ | hinst
    · rw [hclear] at hlit
      cases hlit
    · omega
  have hno := hp.brackets
  rw [if_neg hne] at hno
  exact assemble_value hok h
    (fun b hb => hno b (List.mem_cons_of_mem _ hb)) hx

theorem assemble_emits (hok : S.eval.errors = [])
    (h : assemble p lines atoms s = some S) (hp : Placed s atoms) :
    Emits S.eval.symbolValue S s atoms := by
  refine assemble_induction
    (motive := fun l s => Placed s l → Emits S.eval.symbolValue S s l) hok
    (fun _ => emits_end S) ?_ h hp
  intro a rest s t ht hrest ih hp
  have heffect := ht.effect_end hok hp hrest
  exact (ih (hp.step heffect)).step hp heffect

theorem assemble_placed (hok : S.eval.errors = [])
    (h : assemble p lines atoms s = some S) (hp : Placed s atoms) :
    (asmSystem p lines atoms s).Invariant fun σ =>
      assemble p lines σ.1 σ.2 = some S ∧ Placed σ.2 σ.1 where
  init hinit := by
    rw [show _ = (atoms, s) from hinit]
    exact ⟨h, hp⟩
  step := by
    rintro ⟨l, s⟩ ⟨rest, s'⟩ a ⟨hrun, hp⟩ hstep
    have hrun' := (assemble_reachable h).step hrun hstep
    obtain ⟨hl, hstep⟩ := hstep
    dsimp only at hl hstep hrun hrun' hp ⊢
    subst hl
    obtain ⟨t, ht, rfl⟩ := step_accepts hstep (assemble_errors hrun' hok)
    exact ⟨hrun', hp.step (ht.effect_end hok hp hrun')⟩

theorem Asm.Accepts.program (h : Accepts p rest a s t)
    (hp : Placed s (a :: rest)) (hclear : s.expect = {}) :
    ∀ j < s.index, t.program j = s.program j := by
  intro j hj
  have hlit : ¬ s.expect.lit = true := by simp [hclear]
  cases h with
  | literal _ hlit' => exact absurd hlit' hlit
  | symbol _ _ _ hlit' => exact absurd hlit' hlit
  | label | start | quiet => rfl
  | opCode => exact if_neg (by omega)
  | register =>
    unfold Asm.register
    rw [hclear]
    rfl
  | close e v ha =>
    have hzero := hp.not_closes ha
    omega

theorem placed_source {file : List Char}
    (h : bracketsFirst (sourceAtoms file)) : Placed {} (sourceAtoms file) where
  fits := trivial
  inst := .inl ⟨rfl, rfl⟩
  forward r hr := by cases hr
  source hlit := by cases hlit
  pending _ r hr := by cases hr
  brackets := h
  last hne := by
    obtain ⟨init, heq⟩ := sourceAtoms_last hne
    rw [heq, List.getLast?_append]
    rfl
  scanned := sourceAtoms_scanned

end Programs

/-! ## The emission frame -/

/-- A source without a closing bracket behind its first op-code is assembled
statement by statement. -/
theorem emission_frame (p : Shifts) (file : List Char) (S : Asm)
    (h : Accepted p file S) (hbrackets : bracketsFirst (sourceAtoms file)) :
    EmissionFrame p file S := by
  have hrun := h.run
  have hplaced := placed_source hbrackets
  have hemits := assemble_emits h.2 hrun hplaced
  have hinvariant := assemble_placed h.2 hrun hplaced
  refine ⟨?_, ?_, ?_, ?_⟩
  · have hcount := hemits.count
    rw [hcount]
    exact Nat.zero_add _
  · intro j st hst
    have hlater := hemits.later j st hst
    rw [pass2_eq, ← hlater]
    congr 1
    exact (Nat.zero_add j).symm
  · intro a rest s s' hreach hstep hclear
    obtain ⟨hrun', hp⟩ := hinvariant.reachable hreach
    have hrest := (assemble_reachable hrun).step hrun' hstep
    obtain ⟨t, ht, rfl⟩ :=
      Asm.step_accepts hstep.2 (assemble_errors hrest h.2)
    exact ht.program hp hclear
  · intro a rest s hreach hop
    obtain ⟨hrun', hp⟩ := hinvariant.reachable hreach
    exact hp.expect_clear (.inr hop) (by simp [hop]) fun _ => by simp [hop]

def zeroShifts : Shifts := ⟨fun _ _ => 0, fun _ _ => 0⟩

/-- An assignment in front, a start address, a use of either, a jump forward and
one back. -/
def loopSource : List Char :=
  "(limit := 5)\n100: start: WRLV limit MSFR\n".toList ++
    "JMP end % done %\nend: JMP start\n".toList

theorem emission_frame_loopSource :
    ∃ S, Accepted zeroShifts loopSource S ∧ S.index = 3 ∧
      (S.pass2 0).src1 = 5 ∧ (S.pass2 1).src1 = 102 ∧
      (S.pass2 2).src1 = 100 ∧ EmissionFrame zeroShifts loopSource S := by
  have hresult : (assembleText zeroShifts loopSource).map (fun S =>
      (S.eval.errors, S.index, (S.pass2 0).src1, (S.pass2 1).src1,
        (S.pass2 2).src1)) = some ([], 3, 5, 102, 100) := by
    decide +kernel
  obtain ⟨S, hS, hvalues⟩ := Option.map_eq_some_iff.mp hresult
  simp only [Prod.mk.injEq] at hvalues
  obtain ⟨herrors, hindex, h₀, h₁, h₂⟩ := hvalues
  have hbrackets : bracketsFirst (sourceAtoms loopSource) := by
    unfold bracketsFirst
    decide +kernel
  exact ⟨S, ⟨hS, herrors⟩, hindex, h₀, h₁, h₂,
    emission_frame zeroShifts loopSource S ⟨hS, herrors⟩ hbrackets⟩

def clobberSource : List Char := "NOOP\n(x := 5)\n".toList

/-- The value of an assignment ends up in the instruction before it. -/
theorem not_emission_frame :
    ¬ ∀ (p : Shifts) (file : List Char) (S : Asm), Accepted p file S →
      EmissionFrame p file S := by
  intro h
  have hresult : (assembleText zeroShifts clobberSource).map (fun S =>
      (S.eval.errors, (S.pass2 0).src1)) = some ([], 5) := by
    decide +kernel
  obtain ⟨S, hS, hvalues⟩ := Option.map_eq_some_iff.mp hresult
  simp only [Prod.mk.injEq] at hvalues
  have hframe := h zeroShifts clobberSource S ⟨hS, hvalues.1⟩
  have hfirst : ((opStatements (sourceAtoms clobberSource))[0]?).map (·.1) =
      some (alphaAtom "NOOP".toList) := by
    decide +kernel
  obtain ⟨st, hst, hatom⟩ := Option.map_eq_some_iff.mp hfirst
  have hopcd : instructionSet[(alphaAtom "NOOP".toList).value.toNat]? =
      some ⟨"NOOP", .noop, .nothing, .nothing, .nothing⟩ := by
    decide +kernel
  have hstatement : (statement S.eval.symbolValue st).src1 = 0 := by
    unfold statement
    rw [hatom, hopcd]
    exact congrArg Instruction.src1 (fill_nil _ _ _)
  rw [← hframe.program 0 st hst, hvalues.2] at hstatement
  cases hstatement

end Coht.Mttn
