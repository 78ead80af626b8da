import Mathlib.Data.Nat.ModEq
import Mathlib.Logic.Function.Basic

/-!
# Ring buffers

A ring buffer of `cap` slots is a function from slot numbers, a read pointer
and a number of entries. `held` is the list it stands for, the oldest entry
first. The write pointer of an implementation is `(rd + size) % cap`, and the
three laws say what a write there means: `held_push` while there is room,
`held_overwrite` in a full ring whose read pointer is moved on, and `held_pop`
for moving the read pointer alone.
-/

namespace Coht.Lib

universe u

variable {α : Type u} {cap rd size : Nat} {slots : Nat → α}

/-- The entries in the ring, oldest first. -/
def held (cap : Nat) (slots : Nat → α) (rd size : Nat) : List α :=
  (List.range size).map fun k => slots ((rd + k) % cap)

@[simp] theorem held_zero : held cap slots rd 0 = [] := rfl

@[simp] theorem length_held : (held cap slots rd size).length = size := by
  simp [held]

theorem held_pop (slots : Nat → α) (size : Nat) (hrd : rd < cap) :
    held cap slots rd (size + 1) =
      slots rd :: held cap slots ((rd + 1) % cap) size := by
  unfold held
  rw [List.range_succ_eq_map, List.map_cons, List.map_map, Nat.add_zero,
    Nat.mod_eq_of_lt hrd]
  congr 1
  apply List.map_congr_left
  intro k _
  show slots ((rd + (k + 1)) % cap) = slots (((rd + 1) % cap + k) % cap)
  rw [Nat.mod_add_mod, Nat.add_right_comm, Nat.add_assoc]

/-- Two offsets below the capacity are the same slot only if they are equal. -/
theorem slot_ne {i j : Nat} (hij : i < j) (hj : j < cap) :
    (rd + i) % cap ≠ (rd + j) % cap := by
  intro heq
  have hmod : i ≡ j [MOD cap] := Nat.ModEq.add_left_cancel' rd heq
  have hij' : i = j := hmod.eq_of_lt_of_lt (by omega) hj
  omega

theorem held_push (slots : Nat → α) (rd : Nat) (a : α) (hsize : size < cap) :
    held cap (Function.update slots ((rd + size) % cap) a) rd (size + 1) =
      held cap slots rd size ++ [a] := by
  unfold held
  rw [List.range_succ, List.map_append, List.map_singleton,
    Function.update_self]
  congr 1
  apply List.map_congr_left
  intro k hk
  have hlt : k < size := List.mem_range.mp hk
  rw [Function.update_of_ne (slot_ne hlt hsize)]

/-- In a full ring the slot written is the oldest one. -/
theorem held_overwrite {a : α} (hrd : rd < cap) :
    held cap (Function.update slots rd a) ((rd + 1) % cap) cap =
      (held cap slots rd cap).tail ++ [a] := by
  obtain ⟨n, rfl⟩ : ∃ n, cap = n + 1 := ⟨cap - 1, by omega⟩
  have hslot : ((rd + 1) % (n + 1) + n) % (n + 1) = rd := by
    rw [Nat.mod_add_mod, Nat.add_assoc, Nat.add_comm 1 n, Nat.add_mod_right,
      Nat.mod_eq_of_lt hrd]
  have hpush := held_push slots ((rd + 1) % (n + 1)) a (Nat.lt_succ_self n)
  rw [hslot] at hpush
  rw [hpush, held_pop slots n hrd, List.tail_cons]

end Coht.Lib

/-!
## Histories of a queue

What happened to a first-in first-out queue is a list of events in the order
of time: an entry is put, the oldest one is taken, or the oldest one is
dropped. `replay` runs a history and fails when something is taken or dropped
that is not the oldest entry at that moment.

A history that can be replayed loses and invents nothing: `replay_conserves`
says that what went in is what came out, in the same order, followed by what
is left, and `replay_sublist` that the entries taken and the ones left are
what went in without the entries dropped.
-/

namespace Coht.Lib

universe u

inductive FifoEvent (α : Type u)
  | put (a : α)
  | take (a : α)
  | drop (a : α)
  deriving DecidableEq, Repr

namespace FifoEvent

variable {α : Type u}

def put? : FifoEvent α → Option α
  | put a => some a
  | take _ | drop _ => none

def taken? : FifoEvent α → Option α
  | take a => some a
  | put _ | drop _ => none

def dropped? : FifoEvent α → Option α
  | drop a => some a
  | put _ | take _ => none

def removed? : FifoEvent α → Option α
  | take a | drop a => some a
  | put _ => none

end FifoEvent

open FifoEvent

variable {α : Type u} [DecidableEq α]

/-- The queue after a history, from a queue with the entries `q`. -/
def replay : List (FifoEvent α) → List α → Option (List α)
  | [], q => some q
  | .put a :: es, q => replay es (q ++ [a])
  | .take a :: es, q | .drop a :: es, q =>
    match q with
    | [] => none
    | b :: q => if a = b then replay es q else none

theorem replay_append {es fs : List (FifoEvent α)} {q : List α} :
    replay (es ++ fs) q = (replay es q).bind (replay fs) := by
  induction es generalizing q with
  | nil => rfl
  | cons e es ih =>
    cases e with
    | put a => exact ih
    | take a | drop a =>
      cases q with
      | nil => rfl
      | cons b q =>
        show (if a = b then replay (es ++ fs) q else none) =
          (if a = b then replay es q else none).bind (replay fs)
        split
        · exact ih
        · rfl

/-- What went in is what came out, followed by what is left. -/
theorem replay_conserves {es : List (FifoEvent α)} {q q' : List α}
    (h : replay es q = some q') :
    q ++ es.filterMap put? = es.filterMap removed? ++ q' := by
  induction es generalizing q with
  | nil =>
    cases h
    simp
  | cons e es ih =>
    cases e with
    | put a =>
      have htail := ih h
      simpa [put?, removed?, List.filterMap_cons] using htail
    | take a | drop a =>
      cases q with
      | nil => cases h
      | cons b q =>
        change (if a = b then replay es q else none) = some q' at h
        split at h
        · next hab =>
          subst hab
          have htail := ih h
          simpa [put?, removed?, List.filterMap_cons] using htail
        · cases h

omit [DecidableEq α] in
/-- An entry that came out was taken or dropped. -/
theorem removed_length {es : List (FifoEvent α)} :
    (es.filterMap removed?).length =
      (es.filterMap taken?).length + (es.filterMap dropped?).length := by
  induction es with
  | nil => rfl
  | cons e es ih =>
    cases e <;>
      simp [removed?, taken?, dropped?, List.filterMap_cons] at ih ⊢ <;>
      omega

omit [DecidableEq α] in
theorem taken_sublist {es : List (FifoEvent α)} :
    (es.filterMap taken?).Sublist (es.filterMap removed?) := by
  induction es with
  | nil => exact .slnil
  | cons e es ih =>
    cases e with
    | put a => exact ih
    | take a => exact ih.cons_cons a
    | drop a => exact ih.cons a

/-- All entries can be dropped. -/
theorem replay_drops {q : List α} : replay (q.map .drop) q = some [] := by
  induction q with
  | nil => rfl
  | cons a q ih => exact (if_pos rfl).trans ih

/-- What was taken and what is left is what went in, less what was dropped. -/
theorem replay_sublist {es : List (FifoEvent α)} {q' : List α}
    (h : replay es [] = some q') :
    (es.filterMap taken? ++ q').Sublist (es.filterMap put?) := by
  have hall := replay_conserves h
  rw [List.nil_append] at hall
  rw [hall]
  exact taken_sublist.append (List.Sublist.refl q')

end Coht.Lib
