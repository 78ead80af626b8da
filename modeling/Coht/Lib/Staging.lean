import Mathlib.Algebra.Group.Nat.Defs

/-!
# Items laid out in memory, moved block by block

A memory is a function from addresses to cells. `blit` overwrites a range of
it. `spread` is the memory that holds the first `n` of a sequence of items of
one size, back to back, over what was there before.

The laws are what a transfer through a staging buffer needs: writing the next
item extends the sequence by one, and copying a buffer that holds the items
from the `m`-th on behind the first `m` extends it by as many as the buffer
holds.
-/

namespace Coht.Lib

universe u

variable {β : Type u}

/-- `len` cells of `bytes` written from `base` on. -/
def blit (mem : Nat → β) (base : Nat) (bytes : Nat → β) (len : Nat) :
    Nat → β :=
  fun a => if base ≤ a ∧ a < base + len then bytes (a - base) else mem a

/-- The first `n` items of `enc`, each of `size` cells, over `mem`. -/
def spread (enc : Nat → Nat → β) (size n : Nat) (mem : Nat → β) : Nat → β :=
  fun a => if a < n * size then enc (a / size) (a % size) else mem a

variable {mem bytes : Nat → β} {enc : Nat → Nat → β} {base len size n m a : Nat}

theorem blit_inside (hlt : a < len) :
    blit mem base bytes len (base + a) = bytes a := by
  unfold blit
  rw [if_pos ⟨by omega, by omega⟩, Nat.add_sub_cancel_left]

/-- What follows on in the same bytes extends the range. -/
theorem blit_blit : blit (blit mem base bytes n) (base + n) (fun j => bytes (n + j)) m =
    blit mem base bytes (n + m) := by
  funext a
  unfold blit
  by_cases hsecond : base + n ≤ a ∧ a < base + n + m
  · have hcell : n + (a - (base + n)) = a - base := by omega
    rw [if_pos hsecond, if_pos (by omega)]
    exact congrArg bytes hcell
  · rw [if_neg hsecond]
    by_cases hfirst : base ≤ a ∧ a < base + n
    · rw [if_pos hfirst, if_pos (by omega)]
    · rw [if_neg hfirst, if_neg (by omega)]

@[simp] theorem spread_zero : spread enc size 0 mem = mem := by
  funext a
  simp [spread]

/-- Writing item `n` behind the first `n` items. -/
theorem blit_item (hsize : 0 < size) :
    blit (spread enc size n mem) (n * size) (enc n) size =
      spread enc size (n + 1) mem := by
  funext a
  have hsucc : (n + 1) * size = n * size + size := Nat.succ_mul n size
  unfold blit spread
  by_cases hin : n * size ≤ a ∧ a < n * size + size
  · have hdiv : a / size = n := by
      rw [Nat.div_eq_iff hsize]
      omega
    have hmod : a % size = a - n * size := by
      have hdecomp := Nat.div_add_mod a size
      rw [hdiv, Nat.mul_comm] at hdecomp
      omega
    rw [if_pos hin, if_pos (by omega), hdiv, hmod]
  · rw [if_neg hin]
    by_cases hlt : a < n * size
    · rw [if_pos hlt, if_pos (by omega)]
    · rw [if_neg hlt, if_neg (by omega)]

/-- Copying a buffer that holds the `n` items from item `m` on, behind the
first `m` items. -/
theorem blit_spread (hsize : 0 < size) {junk : Nat → β} :
    blit (spread enc size m mem) (m * size)
        (spread (fun j => enc (m + j)) size n junk) (n * size) =
      spread enc size (m + n) mem := by
  funext a
  have hadd : (m + n) * size = m * size + n * size := Nat.add_mul m n size
  unfold blit spread
  by_cases hin : m * size ≤ a ∧ a < m * size + n * size
  · obtain ⟨k, rfl⟩ := Nat.exists_eq_add_of_le hin.1
    have hdiv : (m * size + k) / size = m + k / size := by
      rw [Nat.add_comm, Nat.add_mul_div_right _ _ hsize, Nat.add_comm]
    have hmod : (m * size + k) % size = k % size := by
      rw [Nat.add_comm, Nat.add_mul_mod_self_right]
    rw [if_pos hin, Nat.add_sub_cancel_left, if_pos (by omega),
      if_pos (by omega), hdiv, hmod]
  · rw [if_neg hin]
    by_cases hlt : a < m * size
    · rw [if_pos hlt, if_pos (by omega)]
    · rw [if_neg hlt, if_neg (by omega)]

end Coht.Lib
