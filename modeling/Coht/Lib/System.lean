/-!
# Transition systems, their runs and their invariants

A driver is a state machine that is driven from outside: by calls, by
interrupts, by other processes between two critical sections. A `System` is an
initial condition and a labelled step relation, and a property that ranges
over "any sequence of operations" or "any interleaving" is a property of the
states a system reaches.

Two rules carry the proofs. `Invariant.reachable` turns what one step
preserves into what a whole run preserves. `Run.keeps` is the same rule from
the middle of a run: what some step established stays true for as long as no
later label is one of those that may take it away.

`System.guarded` cuts a system down to the steps that meet a condition on the
state before them. A statement about the runs whose steps all meet the
condition is a statement about the reachable states of the guarded system.
`System.recorded` keeps the labels of the run with the state, so that what must
have happened before is a property of a state too.
-/

namespace Coht.Lib

universe u v

/-- A labelled transition system: where runs may start and what one step may
do. -/
structure System (σ : Type u) (ε : Type v) where
  init : σ → Prop
  step : σ → ε → σ → Prop

namespace System

variable {σ : Type u} {ε : Type v}

/-- The states some finite run ends in. -/
inductive Reachable (S : System σ ε) : σ → Prop
  | init {s : σ} : S.init s → Reachable S s
  | step {s s' : σ} {e : ε} : Reachable S s → S.step s e s' → Reachable S s'

/-- A finite run from a state, with the labels it went through. -/
inductive Run (S : System σ ε) : σ → List ε → σ → Prop
  | nil (s : σ) : Run S s [] s
  | cons {s s' s'' : σ} {e : ε} {es : List ε} :
      S.step s e s' → Run S s' es s'' → Run S s (e :: es) s''

/-- An inductive invariant: it holds where runs start and every step keeps
it. -/
structure Invariant (S : System σ ε) (I : σ → Prop) : Prop where
  init : ∀ {s : σ}, S.init s → I s
  step : ∀ {s s' : σ} {e : ε}, I s → S.step s e s' → I s'

/-- The steps of `S` that meet a condition on the state they start from. -/
def guarded (S : System σ ε) (ok : σ → ε → Prop) : System σ ε where
  init := S.init
  step s e s' := ok s e ∧ S.step s e s'

/-- The system together with the labels it went through, the last one first. -/
def recorded (S : System σ ε) : System (σ × List ε) ε where
  init s := S.init s.1 ∧ s.2 = []
  step s e s' := S.step s.1 e s'.1 ∧ s'.2 = e :: s.2

variable {S : System σ ε}

/-- An invariant of the system is one of the recorded system. -/
theorem Invariant.recorded {I : σ → Prop} (hI : S.Invariant I) :
    S.recorded.Invariant fun s => I s.1 where
  init h := hI.init h.1
  step h hs := hI.step h hs.1

theorem Invariant.reachable {I : σ → Prop} (hI : S.Invariant I) {s : σ}
    (h : S.Reachable s) : I s := by
  induction h with
  | init hi => exact hI.init hi
  | step _ hs ih => exact hI.step ih hs

/-- A system that can do more reaches more. -/
theorem Reachable.mono {T : System σ ε} (hinit : ∀ s, S.init s → T.init s)
    (hstep : ∀ s e s', S.step s e s' → T.step s e s') {s : σ}
    (h : S.Reachable s) : T.Reachable s := by
  induction h with
  | init hi => exact .init (hinit _ hi)
  | step _ hs ih => exact .step ih (hstep _ _ _ hs)

/-- What a guarded run reaches with its labels, the system reaches with
them. -/
theorem Reachable.of_guarded {ok : σ → ε → Prop} {s : σ × List ε}
    (h : (S.guarded ok).recorded.Reachable s) : S.recorded.Reachable s :=
  Reachable.mono (S := (S.guarded ok).recorded) (T := S.recorded)
    (fun _ hi => hi) (fun _ _ _ hs => ⟨hs.1.2, hs.2⟩) h

theorem Run.mono {T : System σ ε} (hstep : ∀ s e s', S.step s e s' → T.step s e s')
    {s s' : σ} {es : List ε} (h : S.Run s es s') : T.Run s es s' := by
  induction h with
  | nil s => exact .nil s
  | cons hs _ ih => exact .cons (hstep _ _ _ hs) ih

theorem Run.of_guarded {ok : σ → ε → Prop} {s s' : σ} {es : List ε}
    (h : (S.guarded ok).Run s es s') : S.Run s es s' :=
  Run.mono (S := S.guarded ok) (fun _ _ _ hs => hs.2) h

theorem Reachable.run {s s' : σ} {es : List ε} (h : S.Reachable s)
    (hrun : S.Run s es s') : S.Reachable s' := by
  induction hrun with
  | nil => exact h
  | cons hs _ ih => exact ih (.step h hs)

theorem Reachable.record {s s' : σ} {e : ε} {es : List ε}
    (h : S.recorded.Reachable (s, es)) (hs : S.step s e s') :
    S.recorded.Reachable (s', e :: es) :=
  .step h ⟨hs, rfl⟩

theorem Reachable.recordGuarded {ok : σ → ε → Prop} {s s' : σ} {e : ε}
    {es : List ε} (h : (S.guarded ok).recorded.Reachable (s, es))
    (hs : S.step s e s') (hok : ok s e) :
    (S.guarded ok).recorded.Reachable (s', e :: es) :=
  h.record ⟨hok, hs⟩

/-- What the events of a list lead to one after the other is reached. -/
theorem Reachable.foldlM {next : σ → ε → Option σ}
    (hnext : ∀ {s s' e}, next s e = some s' → S.step s e s') {s s' : σ} {es : List ε}
    (h : S.Reachable s) (hes : es.foldlM next s = some s') : S.Reachable s' := by
  induction es generalizing s with
  | nil =>
    cases hes
    exact h
  | cons e es ih =>
    simp only [List.foldlM_cons, Option.bind_eq_bind, Option.bind_eq_some_iff] at hes
    obtain ⟨s'', hs, hes⟩ := hes
    exact ih (h.step (hnext hs)) hes

/-- From the middle of a run: `Q` stays true over every run none of whose
labels is one that may end it, given what holds in every reachable state. -/
theorem Run.keeps {I Q : σ → Prop} {ends : ε → Prop} (hI : S.Invariant I)
    (hkeep : ∀ {s s' : σ} {e : ε}, I s → Q s → S.step s e s' → ¬ ends e → Q s')
    {s s' : σ} {es : List ε} (h : S.Run s es s') (hi : I s) (hq : Q s)
    (hes : ∀ e ∈ es, ¬ ends e) : Q s' := by
  induction h with
  | nil => exact hq
  | cons hst _ ih =>
    exact ih (hI.step hi hst)
      (hkeep hi hq hst (hes _ List.mem_cons_self))
      (fun e he => hes e (List.mem_cons_of_mem _ he))

end System

end Coht.Lib

/-!
## Conditions that a run meets step by step

A program is a function that takes a state and an input to the next state, and a run is a
list of inputs. `Along` says of every step of a run what is asked of the state before it
and its input. When an invariant holds at the start, and a step keeps it just when a
condition holds, the whole run keeps it just when every step meets the condition.
-/

namespace Coht.Lib

universe u v

variable {σ : Type u} {α : Type v}

/-- Every step of the run meets `P`. -/
def Along (step : σ → α → σ) (P : σ → α → Prop) : σ → List α → Prop
  | _, [] => True
  | s, a :: as => P s a ∧ Along step P (step s a) as

variable {step : σ → α → σ} {P Q : σ → α → Prop} {I : σ → Prop}

theorem Along.iff (hstep : ∀ s a, I s → (P s a ↔ Q s a))
    (hnext : ∀ s a, I s → P s a → I (step s a)) {s : σ} {as : List α} (hs : I s) :
    Along step P s as ↔ Along step Q s as := by
  induction as generalizing s with
  | nil => exact Iff.rfl
  | cons a as ih =>
    constructor
    · intro h
      exact ⟨(hstep s a hs).mp h.1, (ih (hnext s a hs h.1)).mp h.2⟩
    · intro h
      have hp := (hstep s a hs).mpr h.1
      exact ⟨hp, (ih (hnext s a hs hp)).mpr h.2⟩

end Coht.Lib
