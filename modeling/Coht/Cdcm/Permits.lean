import Coht.Cdcm.WaitList

/-!
# The permits of a semaphore

What came in, as the initial value or by an up, is free, was discarded or was
granted; as `count` has 32 bits the sum is right up to a multiple of `2 ^ 32`,
and right as long as less than that came in (`permits`).

`Sema.seen` is the semaphore as the models of the drivers have it. Its
operations are those of `CdcmSem` as long as the count does not wrap, so what is
proved there with a count without bound holds of these calls.
-/

namespace Coht.Cdcm

open Coht.Lib

variable {sem : Sema} {k : Nat} {ret : Int} {waiter : Waiter} {signalled : Bool}
  {caller : Caller} {timeout : Int} {initial : BitVec 32} {jiffies : Int → Int}

def Sema.books (sem : Sema) : BitVec 32 × Nat × Nat × Nat :=
  (sem.count, sem.ups, sem.discarded, sem.granted.length)

def Balanced (initial : BitVec 32) (sem : Sema) : Prop :=
  ∃ wraps, initial.toNat + sem.ups =
    sem.count.toNat + sem.discarded + sem.granted.length + 2 ^ 32 * wraps

theorem Balanced.of_books {sem' : Sema} (h : Balanced initial sem)
    (hbooks : sem'.books = sem.books) : Balanced initial sem' := by
  simp only [Sema.books, Prod.mk.injEq] at hbooks
  obtain ⟨hcount, hups, hdiscarded, hgranted⟩ := hbooks
  simpa only [Balanced, hcount, hups, hdiscarded, hgranted] using h

@[simp] theorem books_returns : (sem.returns k ret).books = sem.books := rfl

@[simp] theorem books_begins : sem.begins.books = sem.books := rfl

@[simp] theorem books_downRound :
    (sem.downRound k waiter signalled).books = sem.books := by
  unfold Sema.downRound
  split
  · rfl
  · split <;> rfl

theorem balanced_acquires (h : Balanced initial sem) (hpos : sem.count ≠ 0) :
    Balanced initial (sem.acquires k ret) := by
  obtain ⟨wraps, h⟩ := h
  have hne : sem.count.toNat ≠ 0 := fun h0 => hpos (BitVec.eq_of_toNat_eq h0)
  have hlt := sem.count.isLt
  refine ⟨wraps, ?_⟩
  simp only [Sema.acquires, Sema.returns, BitVec.toNat_sub, BitVec.ofNat_eq_ofNat,
    BitVec.toNat_ofNat, List.length_append, List.length_singleton]
  omega

theorem balanced_upWaiter (h : Balanced initial sem) : Balanced initial sem.upWaiter := by
  unfold Sema.upWaiter
  split
  · exact h
  · obtain ⟨wraps, h⟩ := h
    refine ⟨wraps, ?_⟩
    simp only [List.length_append, List.length_singleton]
    omega

theorem balanced_cdcmUp (h : Balanced initial sem) : Balanced initial sem.cdcmUp := by
  unfold Sema.cdcmUp
  split
  · obtain ⟨wraps, h⟩ := h
    have hlt := sem.count.isLt
    by_cases hmax : sem.count.toNat + 1 = 2 ^ 32
    · refine ⟨wraps + 1, ?_⟩
      simp only [BitVec.toNat_add, BitVec.ofNat_eq_ofNat, BitVec.toNat_ofNat]
      omega
    · refine ⟨wraps, ?_⟩
      simp only [BitVec.toNat_add, BitVec.ofNat_eq_ofNat, BitVec.toNat_ofNat]
      omega
  · exact balanced_upWaiter h

theorem balanced_cdcmUps (h : Balanced initial sem) (n : Nat) :
    Balanced initial (Sema.cdcmUps n sem) := by
  induction n generalizing sem with
  | zero => exact h
  | succ n ih => exact ih (balanced_cdcmUp h)

theorem balanced_upWaiters (h : Balanced initial sem) (n : Nat) :
    Balanced initial (Sema.upWaiters n sem) := by
  induction n generalizing sem with
  | zero => exact h
  | succ n ih => exact ih (balanced_upWaiter h)

theorem balanced_sreset (h : Balanced initial sem) : Balanced initial sem.sreset := by
  unfold Sema.sreset
  split
  · exact balanced_upWaiters h _
  · obtain ⟨wraps, h⟩ := h
    refine ⟨wraps, ?_⟩
    show initial.toNat + sem.ups =
      0 + (sem.discarded + sem.count.toNat) + sem.granted.length + 2 ^ 32 * wraps
    omega

theorem balanced_cdcmDown (h : Balanced initial sem) :
    Balanced initial (sem.cdcmDown k caller timeout signalled) := by
  unfold Sema.cdcmDown
  split
  · next hpos => exact balanced_acquires h ((BitVec.pos_iff_ne_zero _).mp hpos)
  · exact h.of_books books_downRound

theorem balanced_cdcmDownTrylock (h : Balanced initial sem) :
    Balanced initial (sem.cdcmDownTrylock k) := by
  unfold Sema.cdcmDownTrylock
  split
  · next hpos =>
    refine balanced_acquires h ?_
    intro hzero
    rw [hzero] at hpos
    exact absurd hpos (by decide)
  · exact h.of_books books_returns

theorem balanced_swait {sig : Int} {found : Bool} (h : Balanced initial sem) :
    Balanced initial (sem.swait k sig found signalled) := by
  unfold Sema.swait
  split
  · exact h.of_books books_returns
  · split
    · exact balanced_cdcmDown h
    · split
      · exact balanced_cdcmDown h
      · exact h.of_books books_returns

theorem balanced_tswait {sig interval : Int} {found : Bool} (h : Balanced initial sem) :
    Balanced initial (sem.tswait jiffies k sig interval found signalled) := by
  unfold Sema.tswait
  split
  · exact h.of_books books_returns
  · split
    · exact balanced_cdcmDownTrylock h
    · split
      · exact balanced_swait h
      · exact balanced_cdcmDown h

theorem balanced_wakes {left : Int} (h : Balanced initial sem) :
    Balanced initial (sem.wakes k waiter left signalled) := by
  unfold Sema.wakes
  split
  · exact h.of_books books_returns
  · exact h.of_books books_downRound

theorem balanced_invariant : (semaphore jiffies initial).Invariant (Balanced initial) where
  init hinit := by
    cases hinit
    exact ⟨0, rfl⟩
  step {sem sem' e} h hs := by
    change sem.next jiffies e = some sem' at hs
    cases e with
    | swait sig found signalled =>
      cases hs
      exact balanced_swait (h.of_books books_begins)
    | tswait sig interval found signalled =>
      cases hs
      exact balanced_tswait (h.of_books books_begins)
    | wakes k left signalled =>
      cases hin : sem.inside k with
      | none => simp [Sema.next, hin] at hs
      | some waiter =>
        simp only [Sema.next, hin, Option.some.injEq] at hs
        subst hs
        exact balanced_wakes h
    | ssignal found =>
      cases hs
      cases found
      · exact h
      · exact balanced_cdcmUp h
    | ssignaln count found =>
      cases hs
      cases found
      · exact h
      · exact balanced_cdcmUps h _
    | sreset found =>
      cases hs
      cases found
      · exact h
      · exact balanced_sreset h

structure PermitsOk (initial : BitVec 32) (sem : Sema) : Prop where
  /-- while a permit is free no call waits -/
  free : 0 < sem.count → sem.waitList = []
  balance : (initial.toNat + sem.ups) % 2 ^ 32 =
    (sem.count.toNat + sem.discarded + sem.granted.length) % 2 ^ 32
  exact : initial.toNat + sem.ups < 2 ^ 32 →
    initial.toNat + sem.ups = sem.count.toNat + sem.discarded + sem.granted.length
  /-- success is one permit, and anything else none -/
  returned : ∀ k ret, (k, ret) ∈ sem.returned →
    sem.granted.count k = if ret = OK then 1 else 0
  /-- those who were woken and those who wait are in the order in which they
  began to wait -/
  order : (sem.woken ++ sem.waitList).Sublist sem.began
  once : sem.began.Nodup
  inside : ∀ k, k ∈ sem.waitList ↔ ∃ waiter, sem.inside k = some waiter ∧ waiter.up = false

theorem signals (n : Nat) : (semaphore jiffies initial).Reachable
    { count := initial + BitVec.ofNat 32 n, ups := n } := by
  induction n with
  | zero => exact .init (by simp [semaphore])
  | succ n ih =>
    refine .step (e := .ssignal true) ih ?_
    simp [semaphore, Sema.next, Sema.cdcmUp, BitVec.ofNat_add, BitVec.add_assoc]

/-! ## As the drivers see it -/

/-- The semaphore without its calls. -/
def Sema.seen (sem : Sema) : CdcmSem Nat :=
  { count := sem.count.toNat, waitList := sem.waitList }

theorem seen_cdcmUp (h : sem.count.toNat + 1 < 2 ^ 32) :
    sem.cdcmUp.seen = (cdcmUp sem.seen).2 := by
  cases hlist : sem.waitList with
  | nil =>
    simp only [Sema.cdcmUp, Sema.seen, cdcmUp, hlist, if_true, BitVec.toNat_add,
      BitVec.ofNat_eq_ofNat, BitVec.toNat_ofNat, CdcmSem.mk.injEq, and_true]
    omega
  | cons k rest => simp [Sema.cdcmUp, Sema.upWaiter, Sema.seen, cdcmUp, hlist]

theorem upWaiters_length :
    (Sema.upWaiters sem.waitList.length sem).waitList = [] ∧
      (Sema.upWaiters sem.waitList.length sem).count = sem.count := by
  generalize hlist : sem.waitList = waiting
  induction waiting generalizing sem with
  | nil => exact ⟨hlist, rfl⟩
  | cons k rest ih =>
    have hnext : sem.upWaiter.waitList = rest := by simp [Sema.upWaiter, hlist]
    have hcount : sem.upWaiter.count = sem.count := by simp [Sema.upWaiter, hlist]
    obtain ⟨hempty, hsame⟩ := ih hnext
    exact ⟨hempty, hsame.trans hcount⟩

theorem seen_sreset : sem.sreset.seen = (sreset sem.seen).2 := by
  obtain ⟨hempty, hcount⟩ := @upWaiters_length sem
  by_cases hzero : sem.count = 0
  · have hseen : sem.seen.count = 0 := congrArg BitVec.toNat hzero
    rw [Sema.sreset, if_pos hzero, sreset, if_pos hseen]
    simp [Sema.seen, hempty, hcount]
  · have hne : sem.seen.count ≠ 0 := fun h0 => hzero (BitVec.eq_of_toNat_eq h0)
    rw [Sema.sreset, if_neg hzero, sreset, if_neg hne]
    rfl

/-- A call gets its permit where the abstract one does, and else is put on the
list. -/
theorem seen_cdcmDown : cdcmDown k sem.seen =
    if 0 < sem.count then (true, (sem.acquires k ret).seen)
    else (false, { sem with waitList := sem.waitList ++ [k] }.seen) := by
  by_cases hzero : sem.count = 0
  · simp [cdcmDown, Sema.seen, hzero]
  · have hne : sem.seen.count ≠ 0 := fun h0 => hzero (BitVec.eq_of_toNat_eq h0)
    have hpred : (sem.count - 1).toNat = sem.count.toNat - 1 := by
      have hlt := sem.count.isLt
      have hpos : sem.count.toNat ≠ 0 := hne
      simp only [BitVec.toNat_sub, BitVec.ofNat_eq_ofNat, BitVec.toNat_ofNat]
      omega
    have hpos : 0 < sem.count := (BitVec.pos_iff_ne_zero _).mpr hzero
    rw [if_pos hpos, cdcmDown, if_pos (Nat.pos_of_ne_zero hne)]
    simp only [Sema.acquires, Sema.returns, Sema.seen, hpred]

theorem seen_listDel : (sem.listDel k).seen = downFails k sem.seen := rfl

end Coht.Cdcm
