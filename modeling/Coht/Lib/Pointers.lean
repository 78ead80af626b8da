import Mathlib.Data.List.Basic

/-!
# Chains of pointers

A device that fetches its work from memory follows links: a link resolves to
a node, and the node holds the link to the next one or marks itself as the
last. `Walk` is what the device does from a given link on; it is a derivation,
so a walk is finite by construction. `Segment` is the unfinished kind, from
one link up to another, and is what a builder that appends at the tail has at
every moment.

A segment is extended at its end (`Segment.snoc`), survives changes elsewhere
(`Segment.congr`, `Walk.congr`), and splits every walk that starts where it starts
(`Segment.walk_split`), which is how a property of the built part carries over
to whatever the device will see.
-/

namespace Coht.Lib

universe u v

/-- Where links lead and what nodes hold. -/
structure Pointers (Link : Type u) (Node : Type v) where
  node : Link → Option Node
  next : Node → Option Link

namespace Pointers

variable {Link : Type u} {Node : Type v} {p q : Pointers Link Node}

/-- Following the links from `l` up to the last node visits these nodes. -/
inductive Walk (p : Pointers Link Node) : Link → List Node → Prop
  | last {l : Link} {n : Node} :
      p.node l = some n → p.next n = none → Walk p l [n]
  | step {l l' : Link} {n : Node} {ns : List Node} :
      p.node l = some n → p.next n = some l' → Walk p l' ns →
      Walk p l (n :: ns)

/-- The nodes from `l` up to, and not including, what `l'` leads to. -/
def Segment (p : Pointers Link Node) : Link → List Node → Link → Prop
  | l, [], l' => l = l'
  | l, n :: ns, l' =>
    p.node l = some n ∧ ∃ m, p.next n = some m ∧ Segment p m ns l'

theorem Segment.snoc {l l' l'' : Link} {ns : List Node} {n : Node}
    (h : p.Segment l ns l') (hn : p.node l' = some n)
    (hnext : p.next n = some l'') : p.Segment l (ns ++ [n]) l'' := by
  induction ns generalizing l with
  | nil =>
    obtain rfl : l = l' := h
    exact ⟨hn, l'', hnext, rfl⟩
  | cons a ns ih =>
    obtain ⟨ha, m, hm, hrest⟩ := h
    exact ⟨ha, m, hm, ih hrest⟩

theorem Segment.walk {l l' : Link} {ns ms : List Node}
    (h : p.Segment l ns l') (hw : p.Walk l' ms) : p.Walk l (ns ++ ms) := by
  induction ns generalizing l with
  | nil =>
    obtain rfl : l = l' := h
    exact hw
  | cons a ns ih =>
    obtain ⟨ha, m, hm, hrest⟩ := h
    exact .step ha hm (ih hrest)

theorem Segment.walk_split {l l' : Link} {ns vs : List Node}
    (h : p.Segment l ns l') (hw : p.Walk l vs) :
    ∃ ms, vs = ns ++ ms ∧ p.Walk l' ms := by
  induction ns generalizing l vs with
  | nil =>
    obtain rfl : l = l' := h
    exact ⟨vs, rfl, hw⟩
  | cons a ns ih =>
    obtain ⟨ha, m, hm, hrest⟩ := h
    cases hw with
    | last hn hend =>
      obtain rfl : a = _ := Option.some.inj (ha.symm.trans hn)
      rw [hm] at hend
      cases hend
    | step hn hnext hw =>
      obtain rfl : a = _ := Option.some.inj (ha.symm.trans hn)
      obtain rfl : m = _ := Option.some.inj (hm.symm.trans hnext)
      obtain ⟨ms, rfl, hms⟩ := ih hrest hw
      exact ⟨ms, rfl, hms⟩

theorem Segment.congr {l l' : Link} {ns : List Node}
    (hnode : ∀ l n, p.node l = some n → q.node l = some n)
    (hnext : ∀ n ∈ ns, q.next n = p.next n) (h : p.Segment l ns l') :
    q.Segment l ns l' := by
  induction ns generalizing l with
  | nil => exact h
  | cons a ns ih =>
    obtain ⟨ha, m, hm, hrest⟩ := h
    have hma : q.next a = some m := by
      rw [hnext a List.mem_cons_self, hm]
    exact ⟨hnode l a ha, m, hma,
      ih (fun n hn => hnext n (List.mem_cons_of_mem a hn)) hrest⟩

/-- A walk sees only the nodes it visits. -/
theorem Walk.congr {l : Link} {vs : List Node} (h : p.Walk l vs)
    (hnode : ∀ l, ∀ n ∈ vs, p.node l = some n → q.node l = some n)
    (hnext : ∀ n ∈ vs, q.next n = p.next n) : q.Walk l vs := by
  induction h with
  | last hn hend =>
    exact .last (hnode _ _ List.mem_cons_self hn) ((hnext _ List.mem_cons_self).trans hend)
  | step hn hstep _ ih =>
    refine .step (hnode _ _ List.mem_cons_self hn) ((hnext _ List.mem_cons_self).trans hstep) ?_
    exact ih (fun l n hmem => hnode l n (List.mem_cons_of_mem _ hmem))
      fun n hmem => hnext n (List.mem_cons_of_mem _ hmem)

/-- The node a link leads to is the first one visited from it. -/
theorem Walk.mem_of_node {l : Link} {n : Node} {vs : List Node}
    (hw : p.Walk l vs) (hn : p.node l = some n) : n ∈ vs := by
  cases hw with
  | last hn' _ =>
    obtain rfl : n = _ := Option.some.inj (hn.symm.trans hn')
    exact List.mem_cons_self
  | step hn' _ _ =>
    obtain rfl : n = _ := Option.some.inj (hn.symm.trans hn')
    exact List.mem_cons_self

/-- There is one walk from a link. -/
theorem Walk.unique {l : Link} {vs ws : List Node} (hv : p.Walk l vs)
    (hw : p.Walk l ws) : vs = ws := by
  induction hv generalizing ws with
  | last hn hend =>
    cases hw with
    | last hn' _ => rw [Option.some.inj (hn.symm.trans hn')]
    | step hn' hnext _ =>
      obtain rfl := Option.some.inj (hn.symm.trans hn')
      rw [hend] at hnext
      cases hnext
  | step hn hnext _ ih =>
    cases hw with
    | last hn' hend =>
      obtain rfl := Option.some.inj (hn.symm.trans hn')
      rw [hend] at hnext
      cases hnext
    | step hn' hnext' hw' =>
      obtain rfl := Option.some.inj (hn.symm.trans hn')
      obtain rfl := Option.some.inj (hnext.symm.trans hnext')
      rw [ih hw']

end Pointers

end Coht.Lib
