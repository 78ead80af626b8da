import Mathlib.Data.List.Basic
import Coht.Skel.RawIo

/-!
# What a block transfer does

`rounds_transfer` and `rounds_flush` are the two halves of one round of the
loop of `RawIoBlock()`. After `i` rounds the kernel buffer has been emptied
`q` times and `r` items of it are in use, so `i = q * K + r` for a buffer of
`K` items; the invariant `Rounds` says in these terms where the data is. On a
write the buffer that is in use after `q` refills holds block `q - 1` of the
user's data: the first refill brings block 0 a second time.
-/

namespace Coht.Skel

open Coht.Lib

/-! ## Items in memory -/

section Memory

variable {bus : Bus}

theorem Bus.loadItem_congr {mem mem' : Nat → BitVec 8} {a a' size : Nat}
    (h : ∀ j < size, mem (a + j) = mem' (a' + j)) :
    bus.loadItem mem a size = bus.loadItem mem' a' size := by
  unfold Bus.loadItem
  refine List.foldl_ext _ _ _ fun v j hj => ?_
  have hlt := List.mem_range.mp hj
  split
  · rw [h j hlt]
  · rw [h (size - 1 - j) (by omega)]

def Bus.readItem (bus : Bus) (size : Nat) (acc : Nat → Access) (i : Nat) :
    Nat → BitVec 8 :=
  bus.itemByte size (bus.ioread ((List.range i).map acc) (acc i))

theorem readItem_congr {size n i : Nat} {acc acc' : Nat → Access}
    (h : ∀ i < n, acc i = acc' i) (hi : i < n) :
    bus.readItem size acc i = bus.readItem size acc' i := by
  have hpast : (List.range i).map acc = (List.range i).map acc' := by
    apply List.map_congr_left
    intro j hj
    exact h j (Nat.lt_trans (List.mem_range.mp hj) hi)
  unfold Bus.readItem
  rw [hpast, h i hi]

theorem spread_readItem_congr {size n : Nat} {acc acc' : Nat → Access}
    {mem : Nat → BitVec 8} (hsize : 0 < size)
    (h : ∀ i < n, acc i = acc' i) :
    spread (bus.readItem size acc) size n mem =
      spread (bus.readItem size acc') size n mem := by
  funext a
  unfold spread
  split
  · rename_i hlt
    have hdiv : a / size < n := (Nat.div_lt_iff_lt_mul hsize).mpr hlt
    rw [readItem_congr h hdiv]
  · rfl

end Memory

/-! ## The accesses of a block -/

def BlockIo.skip (b : BlockIo) (i : Nat) : BitVec 32 :=
  BitVec.ofNat 32 i * (b.addrIncr * BitVec.ofNat 32 b.tszby)

@[simp] theorem BlockIo.skip_zero (b : BlockIo) : b.skip 0 = 0 :=
  BitVec.zero_mul

theorem BlockIo.skip_succ (b : BlockIo) (i : Nat) :
    b.skip (i + 1) = b.skip i + b.addrIncr * BitVec.ofNat 32 b.tszby := by
  unfold BlockIo.skip
  rw [BitVec.ofNat_add, BitVec.add_mul, BitVec.one_mul]

def sourceItem (K i : Nat) : Nat := if i < K then i else i - K

theorem sourceItem_eq {K q r : Nat} (hr : r < K) :
    sourceItem K (q * K + r) = (q - 1) * K + r := by
  unfold sourceItem
  cases q with
  | zero =>
    rw [Nat.zero_mul, Nat.zero_add, if_pos hr]
  | succ q =>
    have hmul : (q + 1) * K = q * K + K := Nat.succ_mul q K
    rw [if_neg (by omega), Nat.add_sub_cancel]
    omega

def BlockIo.access (b : BlockIo) (bus : Bus) (user : Nat → BitVec 8)
    (K i : Nat) : Access :=
  if b.flag then
    cdcmIowrite b.tszbt (b.tszbt ≠ 8 ∧ b.bendf)
      (bus.loadItem user (sourceItem K i * b.tszby) b.tszby) (b.mmap + b.skip i)
  else
    cdcmIoread b.tszbt (b.tszbt ≠ 8 ∧ b.bendf)
      (if b.tszbt = 8 then b.mmap else b.mmap + b.skip i)

structure BlockIo.Whole (b : BlockIo) : Prop where
  width : b.tszbt = 8 ∨ b.tszbt = 16 ∨ b.tszbt = 32
  size : b.tszby = b.tszbt / 8

theorem BlockIo.Whole.pos {b : BlockIo} (hb : b.Whole) : 0 < b.tszby := by
  rcases hb.width with h | h | h <;> rw [hb.size, h] <;> decide

section Transfer

variable {bus : Bus} {b : BlockIo} {l : BlockState}

theorem blockTransfer_write (hb : b.Whole) (hflag : b.flag = true) :
    blockTransfer bus b l =
      l.iowrite bus b.tszbt (b.tszbt ≠ 8 ∧ b.bendf) (b.mmap + l.hskip) := by
  unfold blockTransfer
  rcases hb.width with h | h | h <;> rw [hflag, h] <;> simp

theorem blockTransfer_read (hb : b.Whole) (hflag : b.flag = false) :
    blockTransfer bus b l =
      l.ioread bus b.tszbt (b.tszbt ≠ 8 ∧ b.bendf)
        (if b.tszbt = 8 then b.mmap else b.mmap + l.hskip) := by
  unfold blockTransfer
  rcases hb.width with h | h | h <;> rw [hflag, h] <;> simp

end Transfer

/-! ## The invariant of the loop -/

section Rounds

variable {bus : Bus} {b : BlockIo} {user : Nat → BitVec 8}
  {K n i q r : Nat} {l : BlockState}

/-- After `i` of at most `n` rounds with a buffer of `K` items: `q` buffers
have gone through and `r` items of the next are done. -/
structure Rounds (bus : Bus) (b : BlockIo) (user : Nat → BitVec 8)
    (K n i q r : Nat) (l : BlockState) : Prop where
  count : i = q * K + r
  inside : r ≤ K
  trace : l.trace = (List.range i).map (b.access bus user K)
  copies : ∀ c ∈ l.copies, c.1 + c.2 ≤ n * b.tszby
  uindx : l.uindx = q * K * b.tszby
  kindx : l.kindx = r * b.tszby
  hskip : l.hskip = b.skip i
  write : b.flag = true → l.user = user ∧
    ∀ a < K * b.tszby, l.kbuf a = user ((q - 1) * K * b.tszby + a)
  read : b.flag = false →
    l.user = spread (bus.readItem b.tszby (b.access bus user K)) b.tszby (q * K)
      user ∧
    ∃ junk, l.kbuf =
      spread (fun j => bus.readItem b.tszby (b.access bus user K) (q * K + j))
        b.tszby r junk

theorem rounds_write (hb : b.Whole) (hflag : b.flag = true) (hr : r < K)
    (h : Rounds bus b user K n i q r l) :
    Rounds bus b user K n (i + 1) q (r + 1)
      (blockIndexes b (blockTransfer bus b l)) := by
  obtain ⟨huser, hkbuf⟩ := h.write hflag
  have hitem : bus.loadItem l.kbuf l.kindx (b.tszbt / 8) =
      bus.loadItem user (sourceItem K i * b.tszby) b.tszby := by
    rw [← hb.size]
    apply Bus.loadItem_congr
    intro j hj
    have hrow : (r + 1) * b.tszby ≤ K * b.tszby := Nat.mul_le_mul_right _ hr
    rw [Nat.succ_mul] at hrow
    rw [h.kindx, hkbuf _ (by omega), h.count, sourceItem_eq hr, Nat.add_mul,
      Nat.add_assoc]
  rw [blockTransfer_write hb hflag]
  exact {
    count := by rw [h.count, Nat.add_assoc]
    inside := hr
    trace := by
      rw [List.range_succ, List.map_append]
      show l.trace ++ [cdcmIowrite b.tszbt _ _ _] = _
      rw [h.trace, hitem, h.hskip]
      simp [BlockIo.access, hflag]
    copies := h.copies
    uindx := h.uindx
    kindx := by
      show l.kindx + b.tszby = _
      rw [h.kindx, Nat.succ_mul]
    hskip := by
      show l.hskip + _ = _
      rw [h.hskip, BlockIo.skip_succ]
    write := fun _ => ⟨huser, hkbuf⟩
    read := fun hread => by rw [hflag] at hread; cases hread }

theorem rounds_read (hb : b.Whole) (hflag : b.flag = false) (hr : r < K)
    (h : Rounds bus b user K n i q r l) :
    Rounds bus b user K n (i + 1) q (r + 1)
      (blockIndexes b (blockTransfer bus b l)) := by
  obtain ⟨huser, junk, hkbuf⟩ := h.read hflag
  have haccess : cdcmIoread b.tszbt (b.tszbt ≠ 8 ∧ b.bendf)
      (if b.tszbt = 8 then b.mmap else b.mmap + l.hskip) =
      b.access bus user K i := by
    simp [BlockIo.access, hflag, h.hskip]
  rw [blockTransfer_read hb hflag]
  unfold BlockState.ioread
  rw [haccess]
  exact {
    count := by rw [h.count, Nat.add_assoc]
    inside := hr
    trace := by
      rw [List.range_succ, List.map_append, ← h.trace]
      rfl
    copies := h.copies
    uindx := h.uindx
    kindx := by
      show l.kindx + b.tszby = _
      rw [h.kindx, Nat.succ_mul]
    hskip := by
      show l.hskip + _ = _
      rw [h.hskip, BlockIo.skip_succ]
    write := fun hwrite => by rw [hflag] at hwrite; cases hwrite
    read := fun _ => by
      refine ⟨huser, junk, ?_⟩
      show blit l.kbuf l.kindx (bus.itemByte (b.tszbt / 8)
        (bus.ioread l.trace (b.access bus user K i))) (b.tszbt / 8) = _
      rw [hkbuf, h.kindx, ← hb.size, ← blit_item hb.pos, h.trace, ← h.count]
      rfl }

theorem rounds_transfer (hb : b.Whole) (hr : r < K)
    (h : Rounds bus b user K n i q r l) :
    Rounds bus b user K n (i + 1) q (r + 1)
      (blockIndexes b (blockTransfer bus b l)) := by
  cases hflag : b.flag with
  | true => exact rounds_write hb hflag hr h
  | false => exact rounds_read hb hflag hr h

theorem rounds_full (hb : b.Whole) (hK : b.ksize = K * b.tszby) (hin : i ≤ n)
    (h : Rounds bus b user K n i q K l) :
    Rounds bus b user K n i (q + 1) 0
      { (if b.flag then l.copyFromUser l.uindx b.ksize
          else l.copyToUser l.uindx b.ksize) with
        uindx := l.uindx + b.ksize
        kindx := 0 } := by
  have hnext : (q + 1) * K = q * K + K := Nat.succ_mul q K
  have hrange : l.uindx + b.ksize ≤ n * b.tszby := by
    rw [h.uindx, hK, ← Nat.add_mul, ← h.count]
    exact Nat.mul_le_mul_right _ hin
  have hcopies : ∀ c ∈ l.copies ++ [(l.uindx, b.ksize)],
      c.1 + c.2 ≤ n * b.tszby := by
    intro c hc
    rcases List.mem_append.mp hc with hc | hc
    · exact h.copies c hc
    · rw [List.mem_singleton.mp hc]
      exact hrange
  have hcount : i = (q + 1) * K + 0 := by rw [h.count, hnext, Nat.add_zero]
  have huindx : l.uindx + b.ksize = (q + 1) * K * b.tszby := by
    rw [h.uindx, hK, hnext, Nat.add_mul]
  cases hflag : b.flag with
  | true =>
    obtain ⟨huser, hkbuf⟩ := h.write hflag
    exact {
      count := hcount
      inside := Nat.zero_le K
      trace := h.trace
      copies := hcopies
      uindx := huindx
      kindx := (Nat.zero_mul _).symm
      hskip := h.hskip
      write := fun _ => by
        refine ⟨huser, fun a ha => ?_⟩
        have hcopied : blit l.kbuf 0 (fun a => l.user (l.uindx + a)) b.ksize
            (0 + a) = l.user (l.uindx + a) := blit_inside (by omega)
        rw [Nat.zero_add] at hcopied
        exact hcopied.trans (by rw [huser, h.uindx, Nat.add_sub_cancel])
      read := fun hread => by rw [hflag] at hread; cases hread }
  | false =>
    obtain ⟨huser, junk, hkbuf⟩ := h.read hflag
    exact {
      count := hcount
      inside := Nat.zero_le K
      trace := h.trace
      copies := hcopies
      uindx := huindx
      kindx := (Nat.zero_mul _).symm
      hskip := h.hskip
      write := fun hwrite => by rw [hflag] at hwrite; cases hwrite
      read := fun _ => by
        refine ⟨?_, l.kbuf, spread_zero.symm⟩
        show blit l.user l.uindx l.kbuf b.ksize = _
        rw [huser, hkbuf, h.uindx, hK, blit_spread hb.pos, hnext] }

theorem rounds_flush (hb : b.Whole) (hK : b.ksize = K * b.tszby) (hpos : 0 < K)
    (hin : i ≤ n) (h : Rounds bus b user K n i q r l) :
    ∃ q' r', r' < K ∧ Rounds bus b user K n i q' r' (blockFlush b l) := by
  unfold blockFlush
  split
  · rename_i hfull
    rw [hK, h.kindx] at hfull
    have hle := Nat.le_of_mul_le_mul_right hfull hb.pos
    obtain rfl : r = K := Nat.le_antisymm h.inside hle
    exact ⟨q + 1, 0, hpos, rounds_full hb hK hin h⟩
  · rename_i hroom
    rw [hK, h.kindx, Nat.not_le] at hroom
    exact ⟨q, r, Nat.lt_of_mul_lt_mul_right hroom, h⟩

theorem blockLoop_rounds (hb : b.Whole) (hK : b.ksize = K * b.tszby)
    (hr : r < K) {tremg : Nat} (hin : i + tremg ≤ n)
    (h : Rounds bus b user K n i q r l) :
    ∃ q' r', r' < K ∧
      Rounds bus b user K n (i + tremg) q' r' (blockLoop bus b tremg l) := by
  induction tremg generalizing i q r l with
  | zero => exact ⟨q, r, hr, h⟩
  | succ tremg ih =>
    have hdone := rounds_transfer hb hr h
    obtain ⟨q', r', hr', hnext⟩ :=
      rounds_flush hb hK (Nat.zero_lt_of_lt hr) (by omega) hdone
    have hrest := ih hr' (by omega) hnext
    rw [Nat.add_assoc, Nat.add_comm 1] at hrest
    exact hrest

theorem blockRemainder_rounds (hb : b.Whole) (hin : i ≤ n)
    (h : Rounds bus b user K n i q r l) :
    (blockRemainder b l).trace = (List.range i).map (b.access bus user K) ∧
    (blockRemainder b l).user =
      (if b.flag then user
        else spread (bus.readItem b.tszby (b.access bus user K)) b.tszby i user) ∧
    ∀ c ∈ (blockRemainder b l).copies, c.1 + c.2 ≤ n * b.tszby := by
  unfold blockRemainder
  cases hflag : b.flag with
  | true =>
    rw [if_neg (by simp)]
    exact ⟨h.trace, (h.write hflag).1, h.copies⟩
  | false =>
    obtain ⟨huser, junk, hkbuf⟩ := h.read hflag
    by_cases hrest : l.kindx = 0
    · have hr : r = 0 := by
        have hzero := h.kindx.symm.trans hrest
        rcases Nat.mul_eq_zero.mp hzero with hr | hsize
        · exact hr
        · exact absurd hsize (Nat.pos_iff_ne_zero.mp hb.pos)
      rw [if_neg (by simp [hrest])]
      refine ⟨h.trace, ?_, h.copies⟩
      have hi : i = q * K := by rw [h.count, hr, Nat.add_zero]
      rw [huser, hi]
      rfl
    · rw [if_pos ⟨rfl, hrest⟩]
      refine ⟨h.trace, ?_, ?_⟩
      · show blit l.user l.uindx l.kbuf l.kindx = _
        rw [huser, hkbuf, h.uindx, h.kindx, blit_spread hb.pos, h.count]
        rfl
      · intro c hc
        rcases List.mem_append.mp hc with hc | hc
        · exact h.copies c hc
        · rw [List.mem_singleton.mp hc]
          show l.uindx + l.kindx ≤ _
          rw [h.uindx, h.kindx, ← Nat.add_mul, ← h.count]
          exact Nat.mul_le_mul_right _ hin

end Rounds

end Coht.Skel
