import Mathlib.Data.List.Range
import Mathlib.Logic.Function.Basic

/-!
# Programs over allocated buffers

A program that allocates buffers, accesses them by index and frees them leaves a
trace of `BufferStep`s. A heap says which buffers are live and how long they
are, and `follow` follows a trace through it: it stops at an access outside a
live buffer, at a second allocation and at a free of what is not live. A program
`Keeps` a heap if it gets through and all is as it was in the end: no access was
outside, and what it allocated it has freed once.

`Traced` is the monad of programs with their traces. A program that `Settles` either
keeps a heap or goes wrong with it, and then it is taken apart exactly: at its binds
(`Settles.keeps_bind_iff`) and at a buffer that it has for some time
(`Settles.keeps_withBuffer_iff`).
-/

namespace Coht.Lib

inductive BufferStep (β : Type) where
  | alloc (b : β) (size : Nat)
  | touch (b : β) (i : Nat)
  | free (b : β)

variable {β α γ : Type} [DecidableEq β]

/-- One step; `none` where it goes wrong. -/
def BufferStep.run (heap : β → Option Nat) : BufferStep β → Option (β → Option Nat)
  | alloc b size => if heap b = none then some (Function.update heap b (some size)) else none
  | touch b i => if i < (heap b).getD 0 then some heap else none
  | free b => if heap b = none then none else some (Function.update heap b none)

def follow (heap : β → Option Nat) (steps : List (BufferStep β)) : Option (β → Option Nat) :=
  steps.foldlM BufferStep.run heap

/-- A program and the steps it takes. -/
structure Traced (β α : Type) where
  value : α
  steps : List (BufferStep β)

namespace Traced

instance : Monad (Traced β) where
  pure a := ⟨a, []⟩
  bind x f := ⟨(f x.value).value, x.steps ++ (f x.value).steps⟩

def alloc (b : β) (size : Nat) : Traced β Unit := ⟨(), [.alloc b size]⟩

def touch (b : β) (i : Nat) : Traced β Unit := ⟨(), [.touch b i]⟩

/-- The `n` accesses from `start` on. -/
def touchMany (b : β) (start n : Nat) : Traced β Unit :=
  ⟨(), (List.range' start n).map (.touch b)⟩

def free (b : β) : Traced β Unit := ⟨(), [.free b]⟩

/-- A buffer for the time that `x` takes. -/
def withBuffer (b : β) (size : Nat) (x : Traced β α) : Traced β α :=
  ⟨x.value, [.alloc b size] ++ (x.steps ++ [.free b])⟩

variable {heap : β → Option Nat} {x : Traced β α} {f : α → Traced β γ} {b : β}

omit [DecidableEq β] in
@[simp] theorem pure_value (a : α) : (pure a : Traced β α).value = a := rfl

omit [DecidableEq β] in
@[simp] theorem pure_steps (a : α) : (pure a : Traced β α).steps = [] := rfl

omit [DecidableEq β] in
@[simp] theorem bind_value : (x >>= f).value = (f x.value).value := rfl

omit [DecidableEq β] in
@[simp] theorem bind_steps : (x >>= f).steps = x.steps ++ (f x.value).steps := rfl

omit [DecidableEq β] in
@[simp] theorem withBuffer_value {size : Nat} : (withBuffer b size x).value = x.value := rfl

/-- The accesses of a program to one buffer. -/
def Touches (x : Traced β α) (b : β) (i : Nat) : Prop := .touch b i ∈ x.steps

omit [DecidableEq β] in
@[simp] theorem touches_pure (a : α) (i : Nat) : ¬ Touches (pure a : Traced β α) b i := by
  simp [Touches]

omit [DecidableEq β] in
@[simp] theorem touches_bind {i : Nat} :
    Touches (x >>= f) b i ↔ Touches x b i ∨ Touches (f x.value) b i := by
  simp [Touches]

omit [DecidableEq β] in
@[simp] theorem touches_touch {c : β} {i j : Nat} :
    Touches (touch c j) b i ↔ b = c ∧ i = j := by
  simp [Touches, touch]

omit [DecidableEq β] in
@[simp] theorem touches_touchMany {c : β} {start n i : Nat} :
    Touches (touchMany c start n) b i ↔ b = c ∧ start ≤ i ∧ i < start + n := by
  simp only [Touches, touchMany, List.mem_map, List.mem_range'_1, BufferStep.touch.injEq]
  constructor
  · rintro ⟨j, hj, rfl, rfl⟩
    exact ⟨rfl, hj⟩
  · rintro ⟨rfl, hi⟩
    exact ⟨i, hi, rfl, rfl⟩

omit [DecidableEq β] in
@[simp] theorem touches_alloc {c : β} {size i : Nat} : ¬ Touches (alloc c size) b i := by
  simp [Touches, alloc]

omit [DecidableEq β] in
@[simp] theorem touches_free {c : β} {i : Nat} : ¬ Touches (free c) b i := by
  simp [Touches, free]

omit [DecidableEq β] in
@[simp] theorem touches_withBuffer {c : β} {size i : Nat} :
    Touches (withBuffer c size x) b i ↔ Touches x b i := by
  simp [Touches, withBuffer]

/-- The program gets through, and the heap is as before. -/
def Keeps (heap : β → Option Nat) (x : Traced β α) : Prop := follow heap x.steps = some heap

/-- The program does not get through. -/
def Faults (heap : β → Option Nat) (x : Traced β α) : Prop := follow heap x.steps = none

theorem follow_append {steps steps' : List (BufferStep β)} :
    follow heap (steps ++ steps') = (follow heap steps).bind (follow · steps') := by
  simp [follow, List.foldlM_append, Option.bind_eq_bind]

theorem follow_alloc {size : Nat} (hb : heap b = none) :
    follow heap [.alloc b size] = some (Function.update heap b (some size)) := by
  simp [follow, BufferStep.run, hb]

theorem Faults.not_keeps (h : Faults heap x) : ¬ Keeps heap x := by
  simp [Keeps, show follow heap x.steps = none from h]

@[simp] theorem keeps_pure (a : α) : Keeps heap (pure a : Traced β α) := rfl

theorem keeps_bind (h : Keeps heap x) : Keeps heap (x >>= f) ↔ Keeps heap (f x.value) := by
  simp [Keeps, follow_append, show follow heap x.steps = some heap from h]

theorem faults_bind (h : Faults heap x) : Faults heap (x >>= f) := by
  simp [Faults, follow_append, show follow heap x.steps = none from h]

theorem Keeps.faults_bind (h : Keeps heap x) (hf : Faults heap (f x.value)) :
    Faults heap (x >>= f) := by
  simpa [Faults, follow_append, show follow heap x.steps = some heap from h] using hf

@[simp] theorem keeps_bind_pure {g : α → γ} :
    Keeps heap (x >>= fun a => pure (g a)) ↔ Keeps heap x := by
  simp [Keeps]

@[simp] theorem keeps_touch {i : Nat} : Keeps heap (touch b i) ↔ i < (heap b).getD 0 := by
  simp [Keeps, follow, touch, BufferStep.run]

theorem follow_touches {is : List Nat} : follow heap (is.map (.touch b)) =
    if ∀ i ∈ is, i < (heap b).getD 0 then some heap else none := by
  induction is with
  | nil => simp [follow]
  | cons i is ih =>
    simp only [follow] at ih
    by_cases hi : i < (heap b).getD 0
    · simp [follow, BufferStep.run, hi, ih]
    · simp [follow, BufferStep.run, hi]

@[simp] theorem keeps_touchMany {start n : Nat} :
    Keeps heap (touchMany b start n) ↔ n = 0 ∨ start + n ≤ (heap b).getD 0 := by
  simp only [Keeps, touchMany, follow_touches, List.mem_range'_1, ite_eq_left_iff,
    reduceCtorEq, imp_false, not_not]
  constructor
  · intro h
    by_cases hn : n = 0
    · exact .inl hn
    · have hlast := h (start + (n - 1)) ⟨by omega, by omega⟩
      omega
  · intro h i hi
    omega

theorem withBuffer_follow {size : Nat} (hb : heap b = none) : follow heap (withBuffer b size x).steps =
    (follow (Function.update heap b (some size)) x.steps).bind (follow · [.free b]) := by
  change follow heap ([.alloc b size] ++ (x.steps ++ [.free b])) = _
  rw [follow_append, follow_alloc hb, Option.bind_some, follow_append]

theorem keeps_withBuffer {size : Nat} (hb : heap b = none)
    (h : Keeps (Function.update heap b (some size)) x) : Keeps heap (withBuffer b size x) := by
  have hfreed : Function.update (Function.update heap b (some size)) b none = heap := by
    rw [Function.update_idem, ← hb, Function.update_eq_self]
  have hx : follow (Function.update heap b (some size)) x.steps =
    some (Function.update heap b (some size)) := h
  rw [Keeps, withBuffer_follow hb, hx]
  simp [follow, BufferStep.run, hfreed]

theorem faults_withBuffer {size : Nat}
    (h : heap b = none → Faults (Function.update heap b (some size)) x) :
    Faults heap (withBuffer b size x) := by
  by_cases hb : heap b = none
  · have hx : follow (Function.update heap b (some size)) x.steps = none := h hb
    rw [Faults, withBuffer_follow hb, hx, Option.bind_none]
  · simp [Faults, withBuffer, follow, BufferStep.run, hb]

theorem faults_alloc {size : Nat} {k : Unit → Traced β α}
    (h : heap b = none → Faults (Function.update heap b (some size)) (k ())) :
    Faults heap (alloc b size >>= k) := by
  by_cases hb : heap b = none
  · have hk : follow (Function.update heap b (some size)) (k ()).steps = none := h hb
    change follow heap ([.alloc b size] ++ (k ()).steps) = none
    rw [follow_append, follow_alloc hb, Option.bind_some, hk]
  · simp [Faults, alloc, follow, BufferStep.run, hb]

/-! ## Programs that get through or stop -/

/-- From any heap the program keeps it or goes wrong: it leaves nothing behind. -/
def Settles (x : Traced β α) : Prop := ∀ heap, Keeps heap x ∨ Faults heap x

theorem settles_pure (a : α) : Settles (pure a : Traced β α) := fun _ => .inl rfl

theorem settles_touchMany {start n : Nat} : Settles (touchMany b start n) := by
  intro heap
  simp only [Keeps, Faults, touchMany, follow_touches]
  split
  · exact .inl rfl
  · exact .inr rfl

theorem settles_touch {i : Nat} : Settles (touch b i) := by
  intro heap
  simp only [Keeps, Faults, follow, touch, List.foldlM_cons, List.foldlM_nil, BufferStep.run]
  split
  · exact .inl rfl
  · exact .inr rfl

theorem settles_bind (hx : Settles x) (hf : Settles (f x.value)) : Settles (x >>= f) := by
  intro heap
  rcases hx heap with hkeeps | hfaults
  · rcases hf heap with hkeeps' | hfaults'
    · exact .inl ((keeps_bind hkeeps).mpr hkeeps')
    · exact .inr (hkeeps.faults_bind hfaults')
  · exact .inr (faults_bind hfaults)

theorem settles_withBuffer {size : Nat} (hx : Settles x) : Settles (withBuffer b size x) := by
  intro heap
  by_cases hb : heap b = none
  · rcases hx (Function.update heap b (some size)) with hkeeps | hfaults
    · exact .inl (keeps_withBuffer hb hkeeps)
    · exact .inr (faults_withBuffer fun _ => hfaults)
  · exact .inr (faults_withBuffer fun h => absurd h hb)

theorem Settles.faults (hx : Settles x) (h : ¬ Keeps heap x) : Faults heap x :=
  (hx heap).resolve_left h

/-- The parts of such a program must all keep the heap. -/
theorem Settles.keeps_bind_iff (hx : Settles x) :
    Keeps heap (x >>= f) ↔ Keeps heap x ∧ Keeps heap (f x.value) := by
  rcases hx heap with hkeeps | hfaults
  · simp [keeps_bind hkeeps, hkeeps]
  · simp [(faults_bind hfaults : Faults heap (x >>= f)).not_keeps, hfaults.not_keeps]

theorem Settles.keeps_withBuffer_iff {size : Nat} (hx : Settles x) (hb : heap b = none) :
    Keeps heap (withBuffer b size x) ↔ Keeps (Function.update heap b (some size)) x := by
  constructor
  · intro h
    rcases hx (Function.update heap b (some size)) with hkeeps | hfaults
    · exact hkeeps
    · exact absurd h (faults_withBuffer fun _ => hfaults).not_keeps
  · exact keeps_withBuffer hb

end Traced

end Coht.Lib

/-!
## Programs that access tables

A program that allocates nothing keeps a heap or goes wrong with it, from any heap.
`Accessing` has this as a field, so such a program can be taken apart wherever it is
put together: its accesses are inside if and only if those of its parts are.

`each` is a loop that changes a state, `find` one that stops at the first hit and
`select` one that goes over all. `each_inside` says what a loop accesses, round by
round, where this can be said in terms of the beginning. `Fills` is for a program that
fills a table of limited size: what it would fill in, if the table had no end, says
whether it stays inside.
-/

namespace Coht.Lib

open Traced

/-- A program that only accesses. -/
structure Accessing (β : Type) [DecidableEq β] (α : Type) where
  prog : Traced β α
  settles : Settles prog

namespace Accessing

variable {β α γ σ : Type} [DecidableEq β]

instance : Monad (Accessing β) where
  pure a := ⟨pure a, settles_pure a⟩
  bind x f := ⟨x.prog >>= fun a => (f a).prog, settles_bind x.settles (f x.prog.value).settles⟩

def value (x : Accessing β α) : α := x.prog.value

/-- An access to one place of a table. -/
def access (b : β) (i : Nat) : Accessing β Unit := ⟨touch b i, settles_touch⟩

/-- All accesses are inside the tables. -/
def Inside (sizes : β → Option Nat) (x : Accessing β α) : Prop := Keeps sizes x.prog

/-- A loop over `is` that changes a state. -/
def each (body : σ → Nat → Accessing β σ) : List Nat → σ → Accessing β σ
  | [], s => pure s
  | i :: is, s => do
      let s ← body s i
      each body is s

/-- The first that passes the test. -/
def find (test : Nat → Accessing β Bool) : List Nat → Accessing β (Option Nat)
  | [] => pure none
  | i :: is => do
      let found ← test i
      if found then pure (some i) else find test is

/-- All that pass the test. -/
def select (test : Nat → Accessing β Bool) : List Nat → Accessing β (List Nat)
  | [] => pure []
  | i :: is => do
      let found ← test i
      let rest ← select test is
      pure (if found then i :: rest else rest)

variable {sizes : β → Option Nat} {x : Accessing β α} {f : α → Accessing β γ} {b : β}
  {is : List Nat} {test : Nat → Accessing β Bool} {body : σ → Nat → Accessing β σ} {s : σ}

@[simp] theorem value_pure (a : α) : (pure a : Accessing β α).value = a := rfl

@[simp] theorem value_bind : (x >>= f).value = (f x.value).value := rfl

@[simp] theorem inside_pure (a : α) : Inside sizes (pure a : Accessing β α) := keeps_pure a

@[simp] theorem inside_bind : Inside sizes (x >>= f) ↔ Inside sizes x ∧ Inside sizes (f x.value) :=
  x.settles.keeps_bind_iff

theorem inside_access {i : Nat} : Inside sizes (access b i) ↔ i < (sizes b).getD 0 :=
  keeps_touch

@[simp] theorem value_access {i : Nat} : (access b i).value = () := rfl

section

variable {p : Prop} [Decidable p] {y : Accessing β α}

@[simp] theorem value_ite : (if p then x else y).value = if p then x.value else y.value :=
  apply_ite value p x y

theorem inside_ite : Inside sizes (if p then x else y) ↔
    (p → Inside sizes x) ∧ (¬ p → Inside sizes y) := by
  split
  · next hp => exact ⟨fun h => ⟨fun _ => h, fun hn => absurd hp hn⟩, fun h => h.1 hp⟩
  · next hp => exact ⟨fun h => ⟨fun hyes => absurd hyes hp, fun _ => h⟩, fun h => h.2 hp⟩

end

/-! ### Loops -/

theorem each_value : (each body is s).value = is.foldl (fun s i => (body s i).value) s := by
  induction is generalizing s with
  | nil => rfl
  | cons i is ih => exact ih

/-- What a round accesses is inside if and only if `ok` says so, whatever the rounds
before have done to the state; `P` is what is left of the beginning. -/
theorem each_inside (ok : Nat → Prop) (P : List Nat → σ → Prop)
    (h : ∀ i rest s, P (i :: rest) s → (Inside sizes (body s i) ↔ ok i) ∧
      P rest (body s i).value) (hs : P is s) :
    Inside sizes (each body is s) ↔ ∀ i ∈ is, ok i := by
  induction is generalizing s with
  | nil => exact ⟨fun _ i hi => (by cases hi), fun _ => inside_pure s⟩
  | cons i is ih =>
    obtain ⟨hround, hrest⟩ := h i is s hs
    unfold each
    rw [inside_bind, hround, ih hrest, List.forall_mem_cons]

/-- No round accesses anything outside. -/
theorem each_all_inside (h : ∀ i ∈ is, ∀ s, Inside sizes (body s i)) :
    Inside sizes (each body is s) := by
  refine (each_inside (fun _ => True) (fun rest _ => ∀ i ∈ rest, i ∈ is) ?_
    fun _ hi => hi).mpr fun _ _ => trivial
  intro i rest s hmem
  exact ⟨iff_of_true (h i (hmem i List.mem_cons_self) s) trivial,
    fun j hj => hmem j (List.mem_cons_of_mem _ hj)⟩

theorem find_value : (find test is).value = is.find? fun i => (test i).value := by
  induction is with
  | nil => rfl
  | cons i is ih =>
    unfold find
    rw [value_bind, List.find?_cons]
    cases (test i).value with
    | true => rfl
    | false => exact ih

theorem find_inside (h : ∀ i ∈ is, Inside sizes (test i)) : Inside sizes (find test is) := by
  induction is with
  | nil => exact inside_pure none
  | cons i is ih =>
    unfold find
    refine inside_bind.mpr ⟨h i List.mem_cons_self, ?_⟩
    split
    · exact inside_pure _
    · exact ih fun j hj => h j (List.mem_cons_of_mem _ hj)

theorem select_value : (select test is).value = is.filter fun i => (test i).value := by
  induction is with
  | nil => rfl
  | cons i is ih =>
    unfold select
    rw [value_bind, value_bind, value_pure, ih, List.filter_cons]

theorem select_inside (h : ∀ i ∈ is, Inside sizes (test i)) : Inside sizes (select test is) := by
  induction is with
  | nil => exact inside_pure []
  | cons i is ih =>
    unfold select
    refine inside_bind.mpr ⟨h i List.mem_cons_self, inside_bind.mpr ⟨?_, inside_pure _⟩⟩
    exact ih fun j hj => h j (List.mem_cons_of_mem _ hj)

/-! ### Tables that are filled -/

/-- A step that fills a table: it stays inside if and only if `fill`, which knows no end
of the table, does not pass the end. -/
structure Fills (sizes : β → Option Nat) (filled : σ → Nat) (bound : Nat)
    (x : σ → Accessing β σ) (fill : σ → σ) : Prop where
  grows : ∀ s, filled s ≤ filled (fill s)
  inside : ∀ s, filled s ≤ bound → (Inside sizes (x s) ↔ filled (fill s) ≤ bound)
  value : ∀ s, filled (fill s) ≤ bound → (x s).value = fill s

variable {filled : σ → Nat} {bound : Nat} {x y : σ → Accessing β σ} {fill fill' : σ → σ}

theorem Fills.skip : Fills sizes filled bound pure (fun s => s) where
  grows _ := Nat.le_refl _
  inside s hs := iff_of_true (inside_pure s) hs
  value _ _ := rfl

theorem Fills.bind (hx : Fills sizes filled bound x fill)
    (hy : Fills sizes filled bound y fill') :
    Fills sizes filled bound (fun s => x s >>= y) (fun s => fill' (fill s)) where
  grows s := Nat.le_trans (hx.grows s) (hy.grows _)
  inside s hs := by
    rw [inside_bind, hx.inside s hs]
    constructor
    · intro ⟨hle, hin⟩
      rw [hx.value s hle] at hin
      exact (hy.inside _ hle).mp hin
    · intro hle
      have hfirst := Nat.le_trans (hy.grows _) hle
      rw [hx.value s hfirst]
      exact ⟨hfirst, (hy.inside _ hfirst).mpr hle⟩
  value s hle := by
    rw [value_bind, hx.value s (Nat.le_trans (hy.grows _) hle)]
    exact hy.value _ hle

theorem Fills.each {fill : σ → Nat → σ}
    (h : ∀ i ∈ is, Fills sizes filled bound (body · i) (fill · i)) :
    Fills sizes filled bound (each body is) (is.foldl fill) := by
  induction is with
  | nil => exact .skip
  | cons i is ih =>
    exact (h i List.mem_cons_self).bind (ih fun j hj => h j (List.mem_cons_of_mem _ hj))

/-- An access before that is inside. -/
theorem Fills.after {i : Nat} (h : Fills sizes filled bound x fill)
    (hi : Inside sizes (access b i)) :
    Fills sizes filled bound (fun s => access b i >>= fun _ => x s) fill where
  grows := h.grows
  inside s hs := by
    rw [inside_bind, and_iff_right hi]
    exact h.inside s hs
  value := h.value

end Accessing

end Coht.Lib
