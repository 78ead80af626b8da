import Coht.Lib.System
import Mathlib.Data.List.Basic
import Mathlib.Logic.Function.Basic

/-!
# Programs that access a shared memory

A `Prog` reads and writes the cells of a memory, one at a time, and returns
something in the end. Alone it can be `run` on a memory; `touched` lists the
cells it accesses on the way and `written` what it writes.

A program that only reads can also run next to a writer (`duo`), which makes
calls whose writes are lists of cells and values. Between two accesses of one
the other may go on as it likes. One rule is enough for what the reader gets
(`duo_possible`): whatever it reads in a cell was there in the beginning, or
some call that has begun writes it there.
-/

namespace Coht.Lib

inductive Prog (V α : Type) where
  | ret (a : α)
  | read (addr : Nat) (k : V → Prog V α)
  | write (addr : Nat) (x : V) (next : Prog V α)

namespace Prog

variable {V α β : Type}

def bind : Prog V α → (α → Prog V β) → Prog V β
  | ret a, f => f a
  | read addr k, f => read addr fun x => (k x).bind f
  | write addr x next, f => write addr x (next.bind f)

instance : Monad (Prog V) where
  pure := ret
  bind := bind

@[simp] theorem pure_eq (a : α) : (pure a : Prog V α) = ret a := rfl

@[simp] theorem bind_ret (a : α) (f : α → Prog V β) : ret a >>= f = f a := rfl

@[simp] theorem bind_read (addr : Nat) (k : V → Prog V α) (f : α → Prog V β) :
    read addr k >>= f = read addr fun x => k x >>= f := rfl

@[simp] theorem bind_write (addr : Nat) (x : V) (next : Prog V α)
    (f : α → Prog V β) : write addr x next >>= f = write addr x (next >>= f) :=
  rfl

theorem bind_assoc {γ : Type} {p : Prog V α} {f : α → Prog V β}
    {g : β → Prog V γ} : p >>= f >>= g = p >>= fun a => f a >>= g := by
  induction p with
  | ret a => rfl
  | read addr k ih => exact congrArg (read addr) (funext fun x => ih x)
  | write addr x next ih => exact congrArg (write addr x) ih

/-! ## Running alone -/

def run : Prog V α → (Nat → V) → α × (Nat → V)
  | ret a, m => (a, m)
  | read addr k, m => (k (m addr)).run m
  | write addr x next, m => next.run (Function.update m addr x)

/-- The cells that a run accesses, in order. -/
def touched : Prog V α → (Nat → V) → List Nat
  | ret _, _ => []
  | read addr k, m => addr :: (k (m addr)).touched m
  | write addr x next, m => addr :: next.touched (Function.update m addr x)

/-- What a run writes, in order. -/
def written : Prog V α → (Nat → V) → List (Nat × V)
  | ret _, _ => []
  | read addr k, m => (k (m addr)).written m
  | write addr x next, m =>
    (addr, x) :: next.written (Function.update m addr x)

variable {p : Prog V α} {f : α → Prog V β} {m : Nat → V}

@[simp] theorem run_ret (a : α) : (ret a : Prog V α).run m = (a, m) := rfl

@[simp] theorem touched_ret (a : α) : (ret a : Prog V α).touched m = [] := rfl

@[simp] theorem written_ret (a : α) : (ret a : Prog V α).written m = [] := rfl

@[simp] theorem run_bind :
    (p >>= f).run m = (f (p.run m).1).run (p.run m).2 := by
  induction p generalizing m with
  | ret a => rfl
  | read addr k ih => exact ih (m addr)
  | write addr x next ih => exact ih

@[simp] theorem touched_bind : (p >>= f).touched m =
    p.touched m ++ (f (p.run m).1).touched (p.run m).2 := by
  induction p generalizing m with
  | ret a => rfl
  | read addr k ih => exact congrArg (addr :: ·) (ih (m addr))
  | write addr x next ih => exact congrArg (addr :: ·) ih

@[simp] theorem written_bind : (p >>= f).written m =
    p.written m ++ (f (p.run m).1).written (p.run m).2 := by
  induction p generalizing m with
  | ret a => rfl
  | read addr k ih => exact ih (m addr)
  | write addr x next ih => exact congrArg ((addr, x) :: ·) ih

/-! ## Where a program goes -/

/-- Whatever the program reads, it accesses only cells that satisfy `P`. -/
def Confined (P : Nat → Prop) : Prog V α → Prop
  | ret _ => True
  | read addr k => P addr ∧ ∀ x, Confined P (k x)
  | write addr _ next => P addr ∧ Confined P next

theorem Confined.bind {P : Nat → Prop} (hp : Confined P p)
    (hf : ∀ a, Confined P (f a)) : Confined P (p >>= f) := by
  induction p with
  | ret a => exact hf a
  | read addr k ih => exact ⟨hp.1, fun x => ih x (hp.2 x)⟩
  | write addr x next ih => exact ⟨hp.1, ih hp.2⟩

theorem Confined.touched {P : Nat → Prop} (hp : Confined P p) :
    ∀ addr ∈ p.touched m, P addr := by
  induction p generalizing m with
  | ret a => exact fun addr h => nomatch h
  | read addr k ih => exact List.forall_mem_cons.mpr ⟨hp.1, ih _ (hp.2 _)⟩
  | write addr x next ih => exact List.forall_mem_cons.mpr ⟨hp.1, ih hp.2⟩

/-! ## Consecutive cells -/

/-- The `n` cells from `a` on. -/
def readMany (a : Nat) : Nat → Prog V (List V)
  | 0 => ret []
  | n + 1 => read a fun x => readMany (a + 1) n >>= fun xs => ret (x :: xs)

def writeMany (a : Nat) : List V → Prog V Unit
  | [] => ret ()
  | x :: xs => write a x (writeMany (a + 1) xs)

/-- A memory with a list laid over it from `a` on. -/
def lay (m : Nat → V) (a : Nat) : List V → Nat → V
  | [] => m
  | x :: xs => lay (Function.update m a x) (a + 1) xs

/-- The elements of a list with the cells they go to. -/
def placed (a : Nat) : List V → List (Nat × V)
  | [] => []
  | x :: xs => (a, x) :: placed (a + 1) xs

variable {a n i : Nat} {l : List V}

@[simp] theorem run_readMany :
    (readMany a n).run m = ((List.range' a n).map m, m) := by
  induction n generalizing a with
  | zero => rfl
  | succ n ih =>
    rw [readMany, run, run_bind, ih, run_ret, List.range'_succ, List.map_cons]

@[simp] theorem touched_readMany :
    (readMany a n).touched m = List.range' a n := by
  induction n generalizing a with
  | zero => rfl
  | succ n ih =>
    rw [readMany, touched, touched_bind, ih, touched_ret, List.append_nil,
      List.range'_succ]

@[simp] theorem written_readMany : (readMany a n).written m = [] := by
  induction n generalizing a with
  | zero => rfl
  | succ n ih =>
    rw [readMany, written, written_bind, ih, written_ret, List.append_nil]

@[simp] theorem run_writeMany :
    (writeMany a l).run m = ((), lay m a l) := by
  induction l generalizing a m with
  | nil => rfl
  | cons x xs ih => exact ih

@[simp] theorem touched_writeMany :
    (writeMany a l).touched m = List.range' a l.length := by
  induction l generalizing a m with
  | nil => rfl
  | cons x xs ih => rw [writeMany, touched, ih, List.length_cons,
      List.range'_succ]

@[simp] theorem written_writeMany :
    (writeMany a l).written m = placed a l := by
  induction l generalizing a m with
  | nil => rfl
  | cons x xs ih => rw [writeMany, written, ih, placed]

theorem lay_outside (h : i < a ∨ a + l.length ≤ i) : lay m a l i = m i := by
  induction l generalizing a m with
  | nil => rfl
  | cons x xs ih =>
    have hne : i ≠ a := by
      rw [List.length_cons] at h
      omega
    rw [lay, ih (by rw [List.length_cons] at h; omega),
      Function.update_of_ne hne]

theorem lay_inside (h : i < l.length) : lay m a l (a + i) = l[i] := by
  induction l generalizing a m i with
  | nil => cases h
  | cons x xs ih =>
    rw [lay]
    cases i with
    | zero =>
      have hhead : lay (Function.update m a x) (a + 1) xs a = x := by
        rw [lay_outside (.inl (Nat.lt_succ_self a)), Function.update_self]
      exact hhead
    | succ i =>
      rw [← Nat.add_assoc, Nat.add_right_comm]
      exact ih (Nat.lt_of_succ_lt_succ h)

/-- What was laid over a memory is read back. -/
theorem map_lay : (List.range' a l.length).map (lay m a l) = l := by
  apply List.ext_getElem
  · rw [List.length_map, List.length_range']
  · intro i hi hil
    rw [List.getElem_map, List.getElem_range', Nat.one_mul, lay_inside hil]

theorem lay_map {c : Nat → V} {b : Nat} (h : i < n) :
    lay m a ((List.range' b n).map c) (a + i) = c (b + i) := by
  have hlen : i < ((List.range' b n).map c).length := by
    rwa [List.length_map, List.length_range']
  rw [lay_inside hlen, List.getElem_map, List.getElem_range', Nat.one_mul]

@[simp] theorem length_placed : (placed a l).length = l.length := by
  induction l generalizing a with
  | nil => rfl
  | cons x xs ih => exact congrArg (· + 1) ih

theorem getElem_placed (h : i < (placed a l).length) :
    (placed a l)[i] = (a + i, l.get ⟨i, length_placed ▸ h⟩) := by
  induction l generalizing a i with
  | nil => cases h
  | cons x xs ih =>
    cases i with
    | zero => rfl
    | succ i =>
      simp only [placed, List.getElem_cons_succ]
      rw [ih, Nat.add_right_comm, Nat.add_assoc]
      rfl

theorem mem_placed {c : Nat × V} :
    c ∈ placed a l ↔ ∃ i, ∃ h : i < l.length, c = (a + i, l[i]) := by
  rw [List.mem_iff_getElem]
  constructor
  · rintro ⟨i, hi, rfl⟩
    exact ⟨i, by rwa [length_placed] at hi, getElem_placed hi⟩
  · rintro ⟨i, hi, rfl⟩
    exact ⟨i, by rwa [length_placed], getElem_placed _⟩

/-! ## Reading what others write -/

/-- What a program may return if each cell it reads satisfies `P`. -/
def Possible (P : Nat → V → Prop) : Prog V α → α → Prop
  | ret a, r => r = a
  | read addr k, r => ∃ x, P addr x ∧ Possible P (k x) r
  | write _ _ next, r => Possible P next r

variable {P Q : Nat → V → Prop} {r : β}

theorem possible_bind : Possible P (p >>= f) r ↔
    ∃ a, Possible P p a ∧ Possible P (f a) r := by
  induction p with
  | ret a => simp [Possible]
  | read addr k ih =>
    simp only [bind_read, Possible, ih]
    exact ⟨fun ⟨x, hx, a, ha, hr⟩ => ⟨a, ⟨x, hx, ha⟩, hr⟩,
      fun ⟨a, ⟨x, hx, ha⟩, hr⟩ => ⟨x, hx, a, ha, hr⟩⟩
  | write addr x next ih => exact ih

theorem possible_readMany (h : Possible P (readMany a n) l) :
    l.length = n ∧ ∀ i, ∀ hi : i < l.length, P (a + i) l[i] := by
  induction n generalizing a l with
  | zero =>
    cases h
    exact ⟨rfl, fun i hi => by cases hi⟩
  | succ n ih =>
    obtain ⟨x, hx, hrest⟩ := h
    obtain ⟨xs, hxs, rfl⟩ := possible_bind.mp hrest
    obtain ⟨hlen, hall⟩ := ih hxs
    refine ⟨congrArg (· + 1) hlen, fun i hi => ?_⟩
    cases i with
    | zero => exact hx
    | succ i =>
      rw [← Nat.add_assoc, Nat.add_right_comm]
      exact hall i (Nat.lt_of_succ_lt_succ hi)

/-- `q` is what is left of `p` after some reads that all satisfied `P`. -/
inductive Along (P : Nat → V → Prop) (p : Prog V α) : Prog V α → Prop
  | refl : Along P p p
  | read {addr : Nat} {k : V → Prog V α} {x : V} :
      Along P p (.read addr k) → P addr x → Along P p (k x)

theorem Along.mono {q : Prog V α} (h : Along P p q)
    (hPQ : ∀ addr x, P addr x → Q addr x) : Along Q p q := by
  induction h with
  | refl => exact .refl
  | read _ hx ih => exact .read ih (hPQ _ _ hx)

theorem Along.possible {q : Prog V α} {r : α} (h : Along P p q)
    (hr : Possible P q r) : Possible P p r := by
  induction h with
  | refl => exact hr
  | read _ hx ih => exact ih ⟨_, hx, hr⟩

end Prog

/-! ## A reader next to a writer -/

/-- The writer has begun `started` calls and has `pending` left to write of the
last one; the reader has made `reads` accesses and `reader` is left to do. -/
structure Duo (V α : Type) where
  mem : Nat → V
  started : Nat := 0
  pending : List (Nat × V) := []
  reader : Prog V α
  reads : Nat := 0

inductive DuoEvent
  | begins
  | writes
  | reads
  deriving DecidableEq

namespace Duo

variable {V α : Type}

inductive Step (calls : Nat → List (Nat × V)) :
    Duo V α → DuoEvent → Duo V α → Prop
  | begins {s : Duo V α} : s.pending = [] → Step calls s .begins
      { s with started := s.started + 1, pending := calls s.started }
  | writes {s : Duo V α} {addr : Nat} {x : V} {rest : List (Nat × V)} :
      s.pending = (addr, x) :: rest → Step calls s .writes
        { s with mem := Function.update s.mem addr x, pending := rest }
  | reads {s : Duo V α} {addr : Nat} {k : V → Prog V α} :
      s.reader = .read addr k → Step calls s .reads
        { s with reader := k (s.mem addr), reads := s.reads + 1 }

/-- The step with a label, if there is one. -/
def next (calls : Nat → List (Nat × V)) (s : Duo V α) :
    DuoEvent → Option (Duo V α)
  | .begins =>
    if s.pending.isEmpty then
      some { s with started := s.started + 1, pending := calls s.started }
    else none
  | .writes =>
    match s.pending with
    | [] => none
    | (addr, x) :: rest =>
      some { s with mem := Function.update s.mem addr x, pending := rest }
  | .reads =>
    match s.reader with
    | .read addr k =>
      some { s with reader := k (s.mem addr), reads := s.reads + 1 }
    | _ => none

theorem step_of_next {calls : Nat → List (Nat × V)} {s s' : Duo V α}
    {e : DuoEvent} (h : s.next calls e = some s') : Step calls s e s' := by
  cases e with
  | begins =>
    simp only [next] at h
    split at h
    · next hempty =>
      cases h
      exact .begins (List.isEmpty_iff.mp hempty)
    · cases h
  | writes =>
    simp only [next] at h
    split at h
    · cases h
    · next hpending =>
      cases h
      exact .writes hpending
  | reads =>
    simp only [next] at h
    split at h
    · next hreader =>
      cases h
      exact .reads hreader
    · cases h

end Duo

open Duo

variable {V α : Type}

def duo (calls : Nat → List (Nat × V)) (m : Nat → V) (p : Prog V α) :
    System (Duo V α) DuoEvent where
  init s := s = { mem := m, reader := p }
  step := Step calls

/-- The end of a run with the labels of a list, if all its steps meet the
condition. -/
def Duo.go (calls : Nat → List (Nat × V)) (ok : Duo V α → DuoEvent → Bool) :
    List DuoEvent → Duo V α → Option (Duo V α)
  | [], s => some s
  | e :: es, s => if ok s e then s.next calls e >>= go calls ok es else none

theorem Duo.go_reachable {calls : Nat → List (Nat × V)} {m : Nat → V}
    {p : Prog V α} {ok : Duo V α → DuoEvent → Bool} {es : List DuoEvent}
    {s s' : Duo V α}
    (hs : ((duo calls m p).guarded fun s e => ok s e = true).Reachable s)
    (h : go calls ok es s = some s') :
    ((duo calls m p).guarded fun s e => ok s e = true).Reachable s' := by
  induction es generalizing s with
  | nil =>
    cases h
    exact hs
  | cons e es ih =>
    unfold go at h
    split at h
    · next hok =>
      obtain ⟨t, hnext, hgo⟩ := Option.bind_eq_some_iff.mp h
      exact ih (.step hs ⟨hok, step_of_next hnext⟩) hgo
    · cases h

/-- How many calls the writer has begun and what the reader has returned at the
end of a run with given labels. -/
def Duo.outcome (calls : Nat → List (Nat × V)) (m : Nat → V) (p : Prog V α)
    (ok : Duo V α → DuoEvent → Bool) (es : List DuoEvent) : Option (Nat × α) :=
  (go calls ok es { mem := m, reader := p }).bind fun s =>
    match s.reader with
    | .ret r => some (s.started, r)
    | _ => none

theorem Duo.outcome_reachable {calls : Nat → List (Nat × V)} {m : Nat → V}
    {p : Prog V α} {ok : Duo V α → DuoEvent → Bool} {es : List DuoEvent}
    {c : Nat} {r : α} (h : outcome calls m p ok es = some (c, r)) :
    ∃ s, ((duo calls m p).guarded fun s e => ok s e = true).Reachable s ∧
      s.started = c ∧ s.reader = .ret r := by
  obtain ⟨s, hgo, hs⟩ := Option.bind_eq_some_iff.mp h
  refine ⟨s, go_reachable (.init rfl) hgo, ?_⟩
  split at hs
  · next hreader =>
    cases hs
    exact ⟨rfl, hreader⟩
  · cases hs

theorem Duo.reachable_of_guarded {calls : Nat → List (Nat × V)} {m : Nat → V}
    {p : Prog V α} {ok : Duo V α → DuoEvent → Prop} {s : Duo V α}
    (h : ((duo calls m p).guarded ok).Reachable s) : (duo calls m p).Reachable s :=
  System.Reachable.mono (S := (duo calls m p).guarded ok) (T := duo calls m p)
    (fun _ hi => hi) (fun _ _ _ hs => hs.2) h

/-- The values a cell has had or may soon have: the first one, and what the
calls begun write there. -/
def Seen (calls : Nat → List (Nat × V)) (m : Nat → V) (started : Nat)
    (addr : Nat) (x : V) : Prop :=
  x = m addr ∨ ∃ k < started, (addr, x) ∈ calls k

variable {calls : Nat → List (Nat × V)} {m : Nat → V} {p : Prog V α}

theorem Seen.succ {n addr : Nat} {x : V} (h : Seen calls m n addr x) :
    Seen calls m (n + 1) addr x :=
  h.imp_right fun ⟨k, hk, hmem⟩ => ⟨k, Nat.lt_succ_of_lt hk, hmem⟩

/-- All that is in memory, on the way to it or has been read was seen. -/
structure AllSeen (calls : Nat → List (Nat × V)) (m : Nat → V) (p : Prog V α)
    (s : Duo V α) : Prop where
  mem : ∀ addr, Seen calls m s.started addr (s.mem addr)
  pending : ∀ c ∈ s.pending, Seen calls m s.started c.1 c.2
  reader : p.Along (Seen calls m s.started) s.reader

theorem allSeen_step {s s' : Duo V α} {e : DuoEvent}
    (h : AllSeen calls m p s) (hs : Step calls s e s') :
    AllSeen calls m p s' := by
  cases hs with
  | begins _ =>
    refine ⟨fun addr => (h.mem addr).succ, fun c hc => ?_,
      h.reader.mono fun _ _ => Seen.succ⟩
    exact .inr ⟨s.started, Nat.lt_succ_self _, hc⟩
  | @writes addr x rest hpending =>
    have hx : Seen calls m s.started addr x :=
      h.pending (addr, x) (by rw [hpending]; exact List.mem_cons_self)
    refine ⟨fun i => ?_, fun c hc => ?_, h.reader⟩
    · dsimp only
      by_cases hi : i = addr
      · subst hi
        rw [Function.update_self]
        exact hx
      · rw [Function.update_of_ne hi]
        exact h.mem i
    · exact h.pending c (by rw [hpending]; exact List.mem_cons_of_mem _ hc)
  | reads hreader =>
    exact ⟨h.mem, h.pending, .read (hreader ▸ h.reader) (h.mem _)⟩

theorem allSeen : (duo calls m p).Invariant (AllSeen calls m p) where
  init := by
    rintro s rfl
    exact ⟨fun _ => .inl rfl, (fun c hc => by cases hc), .refl⟩
  step := allSeen_step

/-- What the reader returns in the end, from what the writer has begun. -/
theorem duo_possible {s : Duo V α} {r : α} (h : (duo calls m p).Reachable s)
    (hr : s.reader = .ret r) : p.Possible (Seen calls m s.started) r :=
  (allSeen.reachable h).reader.possible (by rw [hr]; rfl)

end Coht.Lib
