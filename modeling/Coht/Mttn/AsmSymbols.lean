import Coht.Mttn.AsmEmission

/-!
# Symbol resolution

A label stands for the start address plus the number of instructions in front
of it, which `labelAddresses` reads off the source. In an accepted source whose
start address comes first, the labels defined are these, and an operand that is
a symbol becomes the value its symbol was given last.

Two checks are missing. Nothing looks at `Defined` outside the listing, so a
name that no label and no assignment defines is zero. And a second definition
is told by the value of the symbol, so it passes unnoticed while that is zero:
after a label at address zero, or after an expression has cleared the symbol.
`symbol_resolution` says that these are the only ways to go wrong, the closing
brackets of `AsmEmission.lean` and a late start address apart.
-/

namespace Coht.Mttn

open Coht.Lib

/-! ## The layout of a source -/

def marks : Option Atom → List Atom → List Mark
  | _, [] => []
  | prev, a :: rest => (mark prev a).toList ++ marks (some a) rest

/-- The labels with their addresses, behind `n` instructions. -/
def labelAddresses (start : BitVec 32) :
    Nat → List Mark → List (List Char × BitVec 32)
  | _, [] => []
  | n, .instruction :: ms => labelAddresses start (n + 1) ms
  | n, .label name :: ms =>
    (name, start + BitVec.ofNat 32 n) :: labelAddresses start n ms
  | n, .start _ :: ms => labelAddresses start n ms

/-- The start address in force at the end: each replaces the one before. -/
def lastStart (v : BitVec 32) : List Mark → BitVec 32
  | [] => v
  | .start w :: ms => lastStart w ms
  | .label _ :: ms => lastStart v ms
  | .instruction :: ms => lastStart v ms

/-- The labels of a source with their addresses. -/
def sourceLabels (file : List Char) : List (List Char × BitVec 32) :=
  let ms := marks none (sourceAtoms file)
  labelAddresses (lastStart 0 ms) 0 ms

def Mark.isStart : Mark → Bool
  | .start _ => true
  | _ => false

/-- Every start address comes before the labels and the instructions. -/
def startsFirst (ms : List Mark) : Prop :=
  ∀ m ∈ ms.dropWhile Mark.isStart, m.isStart = false

/-! ## The statements -/

/-- What a symbol was given last, and for a label that is its address. -/
def HasValue (file : List Char) (S : Asm) (name : List Char) (v : BitVec 32) :
    Prop :=
  ∃ st, S.eval.stores.find? (fun st => st.name = name) = some st ∧
    st.value = v ∧ (st.kind = .label → (name, v) ∈ sourceLabels file)

structure SymbolResolution (file : List Char) (S : Asm) : Prop where
  operand : ∀ (j : Nat) (st : Atom × List Atom) (opcd : OpCode) (a : Atom)
      (args : List Atom), (opStatements (sourceAtoms file))[j]? = some st →
    instructionSet[st.1.value.toNat]? = some opcd →
    opcd.src1 = .literal ∨ opcd.src1 = .address →
    (st.2.filter fun a => !a.separates) = a :: args → a.type = .alpha →
    HasValue file S a.text (S.pass2 j).src1
  defined : ∀ a ∈ sourceAtoms file, a.type = .alpha →
    S.eval.isDefined a.text = true
  once : ∀ (name : List Char) (v w : BitVec 32),
    (name, v) ∈ sourceLabels file → (name, w) ∈ sourceLabels file → v = w

/-- Every name is a label or is assigned. -/
def Named (file : List Char) (S : Asm) : Prop :=
  ∀ a ∈ sourceAtoms file, a.type = .alpha →
    (∃ v, (a.text, v) ∈ sourceLabels file) ∨
      ∃ st ∈ S.eval.stores, st.name = a.text ∧ st.kind = .assigned

/-- A name of two labels at different places is no label at address zero, and
no expression stores to it. -/
def RedefinedVisibly (file : List Char) (S : Asm) : Prop :=
  ∀ (name : List Char) (v w : BitVec 32), (name, v) ∈ sourceLabels file →
    (name, w) ∈ sourceLabels file → v ≠ w →
    (name, 0) ∉ sourceLabels file ∧
      ∀ st ∈ S.eval.stores, st.name = name → st.kind = .label

/-! ## Labels -/

def labelStores (stores : List Store) : List (List Char × BitVec 32) :=
  (stores.filter fun st => st.kind = .label).map fun st => (st.name, st.value)

theorem mem_labelStores {stores : List Store} {name : List Char}
    {v : BitVec 32} : (name, v) ∈ labelStores stores ↔
      ∃ st ∈ stores, st.name = name ∧ st.value = v ∧ st.kind = .label := by
  simp only [labelStores, List.mem_map, List.mem_filter, decide_eq_true_eq,
    Prod.mk.injEq]
  constructor
  · rintro ⟨st, ⟨hmem, hkind⟩, hname, hvalue⟩
    exact ⟨st, hmem, hname, hvalue, hkind⟩
  · rintro ⟨st, hmem, hname, hvalue, hkind⟩
    exact ⟨st, ⟨hmem, hkind⟩, hname, hvalue⟩

inductive Layout (a : Atom) (s t : Asm) : Prop
  | nothing : mark s.patom a = none → t.pc = s.pc →
      t.loadAddress = s.loadAddress → t.index = s.index →
      labelStores t.eval.stores = labelStores s.eval.stores → Layout a s t
  | instruction : mark s.patom a = some .instruction → t.pc = s.pc + 1 →
      t.loadAddress = s.loadAddress → t.index = s.index + 1 →
      t.eval.stores = s.eval.stores → Layout a s t
  | label (name : List Char) : mark s.patom a = some (.label name) →
      t.pc = s.pc → t.loadAddress = s.loadAddress → t.index = s.index →
      t.eval.stores = ⟨name, s.pc, .label⟩ :: s.eval.stores → Layout a s t
  | start (v : BitVec 32) : mark s.patom a = some (.start v) → t.pc = v →
      t.loadAddress = v → t.index = s.index →
      t.eval.stores = s.eval.stores → Layout a s t

section Labels

open Asm

variable {p : Shifts} {lines : Nat} {atoms rest : List Atom} {a : Atom}
  {s t S : Asm}

theorem Asm.Accepts.layout (h : Accepts p rest a s t) : Layout a s t := by
  cases h with
  | literal ha hlit =>
    exact .nothing (mark_eq_none (by simp [ha]) (by simp [ha])) rfl rfl rfl
      rfl
  | symbol e forward ha hlit hquiet hforward =>
    exact .nothing (mark_eq_none (by simp [ha]) (by simp [ha])) rfl rfl rfl
      (congrArg labelStores hquiet.stores)
  | label e name ha hmark hquiet hknown hzero =>
    have hstores : (e.store ⟨name, s.pc, .label⟩).stores =
        ⟨name, s.pc, .label⟩ :: s.eval.stores := by
      rw [← hquiet.stores]
      rfl
    exact .label name hmark rfl rfl rfl hstores
  | start v ha hmark hpc => exact .start v hmark rfl rfl rfl rfl
  | opCode opcd atoms ha hopcd hconfirm =>
    exact .instruction (by simp [mark, ha]) rfl rfl rfl rfl
  | register ha =>
    have hmark : mark s.patom a = none :=
      mark_eq_none (by simp [ha]) (by simp [ha])
    obtain ⟨program, expect, heq⟩ := register_eq a s
    rw [heq]
    exact .nothing hmark rfl rfl rfl rfl
  | close e v ha hexpression =>
    have hkind : a.type ≠ .opCode ∧ a.type ≠ .operator := by
      constructor <;> (intro hx; simp [Atom.closes, hx] at ha)
    refine .nothing (mark_eq_none hkind.1 hkind.2) rfl rfl rfl ?_
    obtain ⟨news, hstores, hnews⟩ :=
      (Evaluator.doExpression_evolves hexpression).stores
    have hnone : (news.filter fun st => st.kind = .label) = [] := by
      refine List.filter_eq_nil_iff.mpr fun st hst => ?_
      simp [hnews st hst]
    change labelStores e.stores = _
    rw [labelStores, hstores, List.filter_append, hnone, List.nil_append,
      labelStores]
  | quiet e expect hop hreg hclose hmark hquiet hlit hexpect =>
    exact .nothing hmark rfl rfl rfl (congrArg labelStores hquiet.stores)

theorem Asm.Accepts.sound (h : Accepts p rest a s t) (hs : s.eval.Sound) :
    t.eval.Sound := by
  cases h with
  | literal | start | opCode => exact hs
  | symbol e _ _ _ hquiet _ => exact hquiet.sound hs
  | quiet e _ _ _ _ _ hquiet _ _ => exact hquiet.sound hs
  | label e name _ _ hquiet hknown hzero =>
    exact (hquiet.sound hs).store hknown fun _ => hzero
  | register =>
    obtain ⟨program, expect, heq⟩ := register_eq a s
    rw [heq]
    exact hs
  | close e v _ hexpression =>
    exact (Evaluator.doExpression_evolves hexpression).sound hs

theorem assemble_sound (hok : S.eval.errors = [])
    (h : assemble p lines atoms s = some S) (hs : s.eval.Sound) :
    S.eval.Sound := by
  refine assemble_induction
    (motive := fun _ s => s.eval.Sound → S.eval.Sound) hok id ?_ h hs
  intro a rest s t ht _ ih hs
  exact ih (ht.sound hs)

theorem marks_cons (prev : Option Atom) (a : Atom) (rest : List Atom) :
    marks prev (a :: rest) = (mark prev a).toList ++ marks (some a) rest :=
  rfl

theorem lastStart_of_none {v : BitVec 32} {ms : List Mark}
    (h : ∀ m ∈ ms, m.isStart = false) : lastStart v ms = v := by
  induction ms with
  | nil => rfl
  | cons m ms ih =>
    have htail := ih fun m' h' => h m' (List.mem_cons_of_mem _ h')
    cases m with
    | start w => cases h (.start w) List.mem_cons_self
    | label name => exact htail
    | instruction => exact htail

theorem assemble_loadAddress (hok : S.eval.errors = [])
    (h : assemble p lines atoms s = some S) :
    S.loadAddress = lastStart s.loadAddress (marks s.patom atoms) := by
  refine assemble_induction
    (motive := fun l s =>
      S.loadAddress = lastStart s.loadAddress (marks s.patom l)) hok rfl ?_ h
  intro a rest s t ht _ htail
  rw [marks_cons]
  cases ht.layout with
  | nothing hmark _ hload | instruction hmark _ hload
  | label _ hmark _ hload | start _ hmark _ hload =>
    rw [hmark]
    exact htail.trans (by rw [← hload]; rfl)

/-- The program counter is where the instruction count says, and no start
address is to come once that would move it. -/
structure Located (s : Asm) (ms : List Mark) : Prop where
  pc : s.pc = s.loadAddress + BitVec.ofNat 32 s.index
  starts : startsFirst ms
  index : s.index = 0 ∨ ∀ m ∈ ms, m.isStart = false

theorem startsFirst_tail {m : Mark} {ms : List Mark}
    (h : startsFirst (m :: ms)) (hm : m.isStart = false) :
    ∀ m' ∈ ms, m'.isStart = false := by
  intro m' hm'
  refine h m' ?_
  rw [List.dropWhile_cons, if_neg (by simp [hm])]
  exact List.mem_cons_of_mem _ hm'

theorem startsFirst_of_none {ms : List Mark}
    (h : ∀ m ∈ ms, m.isStart = false) : startsFirst ms := by
  intro m hm
  exact h m ((List.dropWhile_sublist _).subset hm)

theorem Located.step (h : Located s (marks s.patom (a :: rest)))
    (hl : Layout a s t) : Located t (marks (some a) rest) := by
  obtain ⟨hpc, hstarts, hindex⟩ := h
  rw [marks_cons] at hstarts hindex
  cases hl with
  | nothing hmark hpc' hload hidx hstores =>
    rw [hmark] at hstarts hindex
    exact ⟨by rw [hpc', hload, hidx, hpc], hstarts, hidx ▸ hindex⟩
  | instruction hmark hpc' hload hidx hstores =>
    rw [hmark] at hstarts
    have hno := startsFirst_tail hstarts rfl
    refine ⟨?_, startsFirst_of_none hno, .inr hno⟩
    rw [hpc', hload, hidx, hpc, BitVec.ofNat_add, BitVec.add_assoc]
    rfl
  | label name hmark hpc' hload hidx hstores =>
    rw [hmark] at hstarts
    have hno := startsFirst_tail hstarts rfl
    exact ⟨by rw [hpc', hload, hidx, hpc], startsFirst_of_none hno, .inr hno⟩
  | start v hmark hpc' hload hidx hstores =>
    rw [hmark] at hstarts hindex
    have hzero : s.index = 0 := by
      rcases hindex with hzero | hno
      · exact hzero
      · cases hno (.start v) List.mem_cons_self
    refine ⟨?_, hstarts, .inl (hidx.trans hzero)⟩
    rw [hpc', hload, hidx, hzero]
    exact (BitVec.add_zero v).symm

theorem assemble_labels (hok : S.eval.errors = [])
    (h : assemble p lines atoms s = some S)
    (hloc : Located s (marks s.patom atoms)) :
    labelStores S.eval.stores =
      (labelAddresses S.loadAddress s.index (marks s.patom atoms)).reverse ++
        labelStores s.eval.stores := by
  refine assemble_induction
    (motive := fun l s => Located s (marks s.patom l) →
      labelStores S.eval.stores =
        (labelAddresses S.loadAddress s.index (marks s.patom l)).reverse ++
          labelStores s.eval.stores) hok (fun _ => rfl) ?_ h hloc
  intro a rest s t ht hrest ih hloc
  have hlayout := ht.layout
  have hnext := hloc.step hlayout
  have htail := ih ⟨hnext.pc, hnext.starts, hnext.index⟩
  dsimp only at htail
  rw [marks_cons]
  cases hlayout with
  | nothing hmark hpc hload hidx hstores =>
    rw [hmark, Option.toList_none, List.nil_append, ← hidx, ← hstores]
    exact htail
  | instruction hmark hpc hload hidx hstores =>
    rw [hmark, Option.toList_some, List.singleton_append, labelAddresses,
      ← hidx, ← hstores]
    exact htail
  | label name hmark hpc hload hidx hstores =>
    have hno := hloc.starts
    rw [marks_cons, hmark] at hno
    have hend := (assemble_loadAddress hok hrest).trans
      (lastStart_of_none (startsFirst_tail hno rfl))
    have haddress : S.loadAddress + BitVec.ofNat 32 s.index = s.pc := by
      rw [hend, hloc.pc]
      exact congrArg (· + _) hload
    rw [hmark, Option.toList_some, List.singleton_append, labelAddresses,
      List.reverse_cons, List.append_assoc, haddress, ← hidx, htail, hstores]
    rfl
  | start v hmark hpc hload hidx hstores =>
    rw [hmark, Option.toList_some, List.singleton_append, labelAddresses,
      ← hidx, ← hstores]
    exact htail

end Labels

/-! ## What is resolved -/

section Resolution

variable {p : Shifts} {file : List Char} {S : Asm}

theorem source_labels (h : Accepted p file S)
    (hstarts : startsFirst (marks none (sourceAtoms file)))
    {name : List Char} {v : BitVec 32} :
    (name, v) ∈ sourceLabels file ↔
      ∃ st ∈ S.eval.stores, st.name = name ∧ st.value = v ∧
        st.kind = .label := by
  have hlabels := assemble_labels h.2 h.run ⟨rfl, hstarts, .inl rfl⟩
  have hstores : labelStores S.eval.stores = (sourceLabels file).reverse := by
    rw [hlabels, assemble_loadAddress h.2 h.run]
    exact List.append_nil _
  rw [← mem_labelStores, hstores, List.mem_reverse]

theorem source_sound (h : Accepted p file S) : S.eval.Sound :=
  assemble_sound h.2 h.run (Evaluator.initial_sound [])

theorem latest_ne_zero {stores : List Store} {name : List Char}
    (h : ∀ st ∈ stores, st.name = name → st.value ≠ 0)
    (hmem : ∃ st ∈ stores, st.name = name) : latest stores name ≠ 0 := by
  obtain ⟨st, hst, hname⟩ := hmem
  unfold latest
  cases hfind : stores.find? fun st => st.name = name with
  | none =>
    have hno := List.find?_eq_none.mp hfind st hst
    simp [hname] at hno
  | some st' =>
    have hname' := List.find?_some hfind
    exact h st' (List.mem_of_find?_eq_some hfind)
      (of_decide_eq_true hname')

theorem Fresh.unique {stores : List Store} {name : List Char}
    (hfresh : Fresh stores)
    (h : ∀ st ∈ stores, st.name = name → st.kind = .label ∧ st.value ≠ 0)
    {st st' : Store} (hst : st ∈ stores) (hst' : st' ∈ stores)
    (hname : st.name = name) (hname' : st'.name = name) :
    st = st' := by
  induction stores with
  | nil => cases hst
  | cons st₀ older ih =>
    have holder : ∀ st ∈ older, st.name = name →
        st.kind = .label ∧ st.value ≠ 0 :=
      fun st hst => h st (List.mem_cons_of_mem _ hst)
    by_cases hhead : st₀.name = name
    · have hzero := hfresh.1 (h st₀ List.mem_cons_self hhead).1
      rw [hhead] at hzero
      have hnone : ∀ st ∈ older, st.name ≠ name := by
        intro st hst hname
        exact latest_ne_zero (fun st hst hname => (holder st hst hname).2)
          ⟨st, hst, hname⟩ hzero
      have heq : ∀ st ∈ st₀ :: older, st.name = name → st = st₀ := by
        intro st hst hname
        rcases List.mem_cons.mp hst with rfl | hmem
        · rfl
        · exact absurd hname (hnone st hmem)
      rw [heq st hst hname, heq st' hst' hname']
    · have hmem : ∀ st ∈ st₀ :: older, st.name = name → st ∈ older := by
        intro st hst hname
        rcases List.mem_cons.mp hst with rfl | hmem
        · exact absurd hname hhead
        · exact hmem
      exact ih hfresh.2 holder (hmem st hst hname) (hmem st' hst' hname')

theorem ownAtoms_subset {atoms : List Atom} {st : Atom × List Atom}
    (h : st ∈ opStatements atoms) : ∀ a ∈ st.2, a ∈ atoms := by
  induction atoms with
  | nil => cases h
  | cons b rest ih =>
    intro a ha
    refine List.mem_cons_of_mem _ ?_
    unfold opStatements at h
    split at h
    · rcases List.mem_cons.mp h with rfl | hmem
      · exact (List.takeWhile_sublist _).subset ha
      · exact ih hmem a ha
    · exact ih h a ha

theorem fill_src1 {val : List Char → BitVec 32} {slots : List Slot}
    {args : List Atom} {inst : Instruction}
    (h : ∀ slot ∈ slots, slot = .sr2 ∨ slot = .dst) :
    (fill val slots args inst).src1 = inst.src1 := by
  induction slots generalizing args inst with
  | nil => rw [fill_nil]
  | cons slot slots ih =>
    cases args with
    | nil => rfl
    | cons a args =>
      have htail : (fill val slots args (slot.put val a inst)).src1 =
          (slot.put val a inst).src1 :=
        ih fun slot' h' => h slot' (List.mem_cons_of_mem _ h')
      refine htail.trans ?_
      rcases h slot List.mem_cons_self with rfl | rfl <;> rfl

theorem statement_src1 {val : List Char → BitVec 32} {st : Atom × List Atom}
    {opcd : OpCode} {a : Atom} {args : List Atom}
    (hopcd : instructionSet[st.1.value.toNat]? = some opcd)
    (hkind : opcd.src1 = .literal ∨ opcd.src1 = .address)
    (hargs : (st.2.filter fun a => !a.separates) = a :: args)
    (ha : a.type = .alpha) :
    (statement val st).src1 = val a.text := by
  have hslots : ∃ slots, opcd.expected.slots = .lit :: slots ∧
      ∀ slot ∈ slots, slot = .sr2 ∨ slot = .dst := by
    have hlit : opcd.expected.lit = true := decide_eq_true hkind
    have hsr1 : opcd.expected.sr1 = false := by
      unfold OpCode.expected
      rcases hkind with hsrc | hsrc <;> simp [hsrc]
    refine ⟨_, slots_lit hlit, fun slot hslot => ?_⟩
    simp only [Flags.slots, hsr1] at hslot
    grind
  obtain ⟨slots, hslots, hrest⟩ := hslots
  unfold statement
  rw [hopcd]
  dsimp only
  rw [hslots, hargs, fill, fill_src1 hrest]
  simp [Slot.put, operandValue, ha]

theorem find_of_named (h : Accepted p file S)
    (hstarts : startsFirst (marks none (sourceAtoms file)))
    {name : List Char}
    (hname : (∃ v, (name, v) ∈ sourceLabels file) ∨
      ∃ st ∈ S.eval.stores, st.name = name ∧ st.kind = .assigned) :
    HasValue file S name (S.eval.symbolValue name) := by
  have hmem : ∃ st ∈ S.eval.stores, st.name = name := by
    rcases hname with ⟨v, hv⟩ | ⟨st, hst, hst', _⟩
    · obtain ⟨st, hst, hst', _⟩ := (source_labels h hstarts).mp hv
      exact ⟨st, hst, hst'⟩
    · exact ⟨st, hst, hst'⟩
  obtain ⟨st, hst, hst'⟩ := hmem
  cases hfind : S.eval.stores.find? fun st => st.name = name with
  | none =>
    have hno := List.find?_eq_none.mp hfind st hst
    simp [hst'] at hno
  | some last =>
    have hvalue : last.value = S.eval.symbolValue name := by
      rw [(source_sound h).value, latest, hfind]
    have hlast := List.find?_some hfind
    refine ⟨last, hfind, hvalue, fun hkind => ?_⟩
    exact (source_labels h hstarts).mpr
      ⟨last, List.mem_of_find?_eq_some hfind, of_decide_eq_true hlast,
        hvalue, hkind⟩

/-- An accepted source resolves its symbols if and only if every name is
defined and no redefinition meets the value zero. -/
theorem symbol_resolution (p : Shifts) (file : List Char) (S : Asm)
    (h : Accepted p file S) (hbrackets : bracketsFirst (sourceAtoms file))
    (hstarts : startsFirst (marks none (sourceAtoms file))) :
    SymbolResolution file S ↔ Named file S ∧ RedefinedVisibly file S := by
  have hsound := source_sound h
  have hframe := emission_frame p file S h hbrackets
  constructor
  · intro hres
    refine ⟨fun a ha halpha => ?_, fun name v w hv hw hne => ?_⟩
    · obtain ⟨st, hst, hname, hkind⟩ :=
        (hsound.defined a.text).mp (hres.defined a ha halpha)
      cases hcase : st.kind with
      | label =>
        exact .inl ⟨st.value,
          (source_labels h hstarts).mpr ⟨st, hst, hname, rfl, hcase⟩⟩
      | assigned => exact .inr ⟨st, hst, hname, hcase⟩
      | counted => exact absurd hcase hkind
    · exact absurd (hres.once name v w hv hw) hne
  · rintro ⟨hnamed, hvisible⟩
    refine ⟨?_, ?_, ?_⟩
    · intro j st opcd a args hst hopcd hkind hargs halpha
      have hmem : a ∈ st.2 :=
        (List.mem_filter.mp (hargs ▸ List.mem_cons_self)).1
      have hsource : a ∈ sourceAtoms file :=
        ownAtoms_subset (List.mem_of_getElem? hst) a hmem
      rw [hframe.program j st hst, statement_src1 hopcd hkind hargs halpha]
      exact find_of_named h hstarts (hnamed a hsource halpha)
    · intro a ha halpha
      refine (hsound.defined a.text).mpr ?_
      rcases hnamed a ha halpha with ⟨v, hv⟩ | ⟨st, hst, hname, hkind⟩
      · obtain ⟨st, hst, hname, _, hkind⟩ := (source_labels h hstarts).mp hv
        exact ⟨st, hst, hname, by simp [hkind]⟩
      · exact ⟨st, hst, hname, by simp [hkind]⟩
    · intro name v w hv hw
      refine Decidable.byContradiction fun hne => ?_
      obtain ⟨hzero, hlabels⟩ := hvisible name v w hv hw hne
      have hnever : ∀ st ∈ S.eval.stores, st.name = name →
          st.kind = .label ∧ st.value ≠ 0 := by
        intro st hst hname
        have hkind := hlabels st hst hname
        refine ⟨hkind, fun hvalue => hzero ?_⟩
        exact (source_labels h hstarts).mpr ⟨st, hst, hname, hvalue, hkind⟩
      obtain ⟨st, hst, hname, hvalue, _⟩ := (source_labels h hstarts).mp hv
      obtain ⟨st', hst', hname', hvalue', _⟩ :=
        (source_labels h hstarts).mp hw
      have heq := hsound.fresh.unique hnever hst hst' hname hname'
      rw [heq, hvalue'] at hvalue
      exact hne hvalue.symm

end Resolution

/-- A constant, a label in front of its uses and one behind. -/
def labelSource : List Char :=
  "(limit := 5)\n100: start: WRLV limit MSFR\n".toList ++
    "JMP end\nend: JMP start\n".toList

def labelSourceStores : List Store := [
  ⟨"end".toList, 102, .label⟩, ⟨"start".toList, 100, .label⟩,
  ⟨"limit".toList, 5, .assigned⟩]

theorem symbol_resolution_labelSource :
    ∃ S, Accepted zeroShifts labelSource S ∧ S.loadAddress = 100 ∧
      S.eval.stores = labelSourceStores ∧ SymbolResolution labelSource S := by
  have hresult : (assembleText zeroShifts labelSource).map (fun S =>
      (S.eval.errors, S.loadAddress, S.eval.stores)) =
      some ([], 100, labelSourceStores) := by
    decide +kernel
  obtain ⟨S, hS, hvalues⟩ := Option.map_eq_some_iff.mp hresult
  simp only [Prod.mk.injEq] at hvalues
  obtain ⟨herrors, hload, hstores⟩ := hvalues
  have hlabels : sourceLabels labelSource =
      [("start".toList, 100), ("end".toList, 102)] := by
    decide +kernel
  have hbrackets : bracketsFirst (sourceAtoms labelSource) := by
    unfold bracketsFirst
    decide +kernel
  have hstarts : startsFirst (marks none (sourceAtoms labelSource)) := by
    unfold startsFirst
    decide +kernel
  have hnames : ∀ a ∈ sourceAtoms labelSource, a.type = .alpha →
      a.text = "start".toList ∨ a.text = "end".toList ∨
        a.text = "limit".toList := by
    decide +kernel
  refine ⟨S, ⟨hS, herrors⟩, hload, hstores,
    (symbol_resolution zeroShifts labelSource S ⟨hS, herrors⟩ hbrackets
      hstarts).mpr ⟨?_, ?_⟩⟩
  · intro a ha halpha
    rw [hlabels, hstores]
    rcases hnames a ha halpha with hname | hname | hname
    · exact .inl ⟨100, by simp [hname]⟩
    · exact .inl ⟨102, by simp [hname]⟩
    · exact .inr ⟨⟨"limit".toList, 5, .assigned⟩,
        by simp [labelSourceStores], hname.symm, rfl⟩
  · intro name v w hv hw hne
    rw [hlabels] at hv hw
    have hdistinct : "start".toList ≠ "end".toList := by decide +kernel
    simp only [List.mem_cons, Prod.mk.injEq, List.not_mem_nil, or_false] at hv hw
    rcases hv with ⟨rfl, rfl⟩ | ⟨rfl, rfl⟩ <;>
      rcases hw with ⟨hname, rfl⟩ | ⟨hname, rfl⟩
    · exact absurd rfl hne
    · exact absurd hname hdistinct
    · exact absurd hname.symm hdistinct
    · exact absurd rfl hne

def undefinedSource : List Char := "JMP nowhere\n".toList

/-- A symbol that is defined nowhere assembles to zero. -/
theorem not_symbol_resolution :
    ¬ ∀ (p : Shifts) (file : List Char) (S : Asm), Accepted p file S →
      SymbolResolution file S := by
  intro h
  have hresult : (assembleText zeroShifts undefinedSource).map (fun S =>
      (S.eval.errors, S.eval.isDefined "nowhere".toList)) =
      some ([], false) := by
    decide +kernel
  obtain ⟨S, hS, hvalues⟩ := Option.map_eq_some_iff.mp hresult
  simp only [Prod.mk.injEq] at hvalues
  have hmem : (alphaAtom "nowhere".toList) ∈ sourceAtoms undefinedSource := by
    decide +kernel
  have hdefined := (h zeroShifts undefinedSource S ⟨hS, hvalues.1⟩).defined
    (alphaAtom "nowhere".toList) hmem (by decide +kernel)
  have htext : (alphaAtom "nowhere".toList).text = "nowhere".toList := by
    decide +kernel
  rw [htext, hvalues.2] at hdefined
  cases hdefined

end Coht.Mttn
