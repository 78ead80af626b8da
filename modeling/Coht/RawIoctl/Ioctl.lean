import Coht.Lib.Ledger

/-!
# Raw I/O of the ICV196 and the VD80 (`icv196.c`, `vd80.c`)

`RAW_READ` and `RAW_WRITE` move a block between a buffer of the user and the window of a
device. The two drivers do it in the same steps: the argument block is allocated and copied
in, a buffer is allocated for the data, `raw_read()` or `raw_write()` makes one access after
the other, and the data and the argument are copied out. They differ in the size of an
access, in the width of the offset and the size in the argument, and in that the loops of the
VD80 end at a bus error, while the ICV196 does not look for one.

Counts and offsets in words are below `2 ^ 30`, so that the `int` of the loops holds them. A
device that is not installed has a window at the null pointer; what such an access does to the
kernel is not in the model, it is only recorded.
-/

namespace Coht.RawIoctl

open Coht.Lib

inductive Driver
  | icv196 | vd80
  deriving DecidableEq

def enomem : Int := 12
def eacces : Int := 13
def eio : Int := 5
def enodev : Int := 19

/-- `MAX_DEVICES` of both drivers. -/
def maxDevices : Nat := 8

namespace Driver

/-- The width of `boffs` and `bsize`. -/
def fieldBits : Driver → Nat
  | icv196 => 8
  | vd80 => 32

/-- The bytes of an access. -/
def wordSize : Driver → Nat
  | icv196 => 1
  | vd80 => 4

/-- `ICV196_WINDOW_SIZE` and `VD80_WINDOW_SIZE` -/
def windowSize : Driver → Nat
  | icv196 => 0x100
  | vd80 => 0x10000

/-- Whether the loops ask `get_clr_bus_err_cnt()` after an access. -/
def seesBusErrors : Driver → Bool
  | icv196 => false
  | vd80 => true

/-- The error for a transfer that was cut short. -/
def shortTransfer : Driver → Int
  | icv196 => eio
  | vd80 => eacces

abbrev Word (d : Driver) : Type := BitVec (8 * d.wordSize)

theorem wordSize_pos (d : Driver) : 0 < d.wordSize := by
  cases d with
  | icv196 => exact Nat.one_pos
  | vd80 => exact Nat.succ_pos 3

end Driver

variable {d : Driver}

/-- `struct icv196_riob_s`, `struct vd80_riob_s` -/
structure Riob (d : Driver) where
  boffs : BitVec d.fieldBits
  bsize : BitVec d.fieldBits

namespace Riob

def icnt (riob : Riob d) : Nat := riob.bsize.toNat / d.wordSize

def ioff (riob : Riob d) : Nat := riob.boffs.toNat / d.wordSize

end Riob

inductive Dir
  | read | write
  deriving DecidableEq

/-- What a device is to its driver: whether it has been installed, which is whether its window
is mapped, and what is in the window. -/
structure Device (d : Driver) where
  mapped : Bool
  mem : Nat → d.Word

/-- What happens on the way: which allocations and copies do their work, which accesses meet a
bus error, and what a read with a bus error gives. The buffer of the user holds `user`. -/
structure World (d : Driver) where
  kmallocArb : Bool := true
  copyFromArg : Bool := true
  kmallocBuf : Bool := true
  copyBuf : Bool := true
  copyToArg : Bool := true
  busError : Nat → Bool := fun _ => false
  noise : Nat → d.Word := fun _ => 0
  user : Nat → d.Word := fun _ => 0

/-- An access to a word of the window, and whether it was done. -/
structure Access where
  word : Nat
  done : Bool

def World.access (w : World d) (ioff i : Nat) : Access :=
  { word := ioff + i, done := !w.busError i }

/-- Whether the loops end behind an access. -/
def World.stops (w : World d) (i : Nat) : Bool := d.seesBusErrors && w.busError i

/-! ## The loops -/

section Loop

variable {σ : Type} (stops : Nat → Bool) (access : σ → Nat → σ)

/-- A loop that makes `left` accesses from `i` on, and the `i` it ends with. -/
def rawLoop : Nat → Nat → σ → Nat × σ
  | 0, i, s => (i, s)
  | left + 1, i, s =>
    let s := access s i
    if stops i then (i, s) else rawLoop left (i + 1) s

/-- How many accesses it makes. -/
def made : Nat → Nat → Nat
  | 0, _ => 0
  | left + 1, i => if stops i then 1 else made left (i + 1) + 1

variable {stops access} {left i k : Nat} {s : σ}

theorem rawLoop_snd : (rawLoop stops access left i s).2 =
    (List.range' i (made stops left i)).foldl access s := by
  induction left generalizing i s with
  | zero => rfl
  | succ left ih =>
    rw [rawLoop, made]
    cases stops i with
    | true => rfl
    | false => exact ih

theorem rawLoop_fst_iff : (rawLoop stops access left i s).1 = i + left ↔
    ∀ k < left, stops (i + k) = false := by
  induction left generalizing i s with
  | zero => simp [rawLoop]
  | succ left ih =>
    rw [rawLoop]
    cases hi : stops i with
    | true =>
      refine iff_of_false ?_ fun h => ?_
      · simp
      · have hzero := h 0 (Nat.succ_pos left)
        rw [Nat.add_zero, hi] at hzero
        cases hzero
    | false =>
      have hshift : i + (left + 1) = i + 1 + left := by omega
      simp only [Bool.false_eq_true, if_false]
      rw [hshift, ih]
      constructor
      · intro h k hk
        cases k with
        | zero => exact hi
        | succ k =>
          have hnext := h k (by omega)
          rwa [Nat.add_right_comm] at hnext
      · intro h k hk
        have hnext := h (k + 1) (by omega)
        rwa [Nat.add_right_comm]

theorem rawLoop_zero_fst_iff : (rawLoop stops access left 0 s).1 = left ↔
    ∀ k < left, stops k = false := by
  have h := @rawLoop_fst_iff _ stops access left 0 s
  simpa only [Nat.zero_add] using h

theorem lt_made_iff : k < made stops left i ↔ k < left ∧ ∀ j < k, stops (i + j) = false := by
  induction left generalizing i k with
  | zero => simp [made]
  | succ left ih =>
    rw [made]
    cases hi : stops i with
    | true =>
      rw [if_pos rfl]
      constructor
      · intro hk
        exact ⟨by omega, fun j hj => by omega⟩
      · rintro ⟨-, h⟩
        by_cases hk : k < 1
        · exact hk
        · have hzero := h 0 (by omega)
          rw [Nat.add_zero, hi] at hzero
          cases hzero
    | false =>
      rw [if_neg Bool.false_ne_true]
      cases k with
      | zero => simp
      | succ k =>
        rw [Nat.add_lt_add_iff_right, ih, Nat.add_lt_add_iff_right]
        refine and_congr_right fun _ => ?_
        constructor
        · intro h j hj
          cases j with
          | zero => exact hi
          | succ j =>
            have hnext := h j (by omega)
            rwa [Nat.add_right_comm] at hnext
        · intro h j hj
          have hnext := h (j + 1) (by omega)
          rwa [Nat.add_right_comm]

theorem made_eq (h : ∀ k < left, stops (i + k) = false) : made stops left i = left := by
  apply Nat.le_antisymm
  · apply Nat.le_of_not_lt
    intro hlt
    have hself := (lt_made_iff.mp hlt).1
    omega
  · cases left with
    | zero => exact Nat.zero_le _
    | succ left =>
      exact lt_made_iff.mpr ⟨Nat.lt_succ_self left, fun j hj => h j (by omega)⟩

end Loop

/-- `raw_read()`: the data is appended to what is in `ibuf`. -/
def rawRead (w : World d) (dev : Device d) (icnt ioff : Nat) : Nat × List d.Word × List Access :=
  rawLoop w.stops
    (fun (ibuf, accesses) i =>
      (ibuf ++ [if w.busError i then w.noise i else dev.mem (ioff + i)],
        accesses ++ [w.access ioff i]))
    icnt 0 ([], [])

/-- `raw_write()` -/
def rawWrite (w : World d) (dev : Device d) (icnt ioff : Nat) (ibuf : Nat → d.Word) :
    Nat × (Nat → d.Word) × List Access :=
  rawLoop w.stops
    (fun (mem, accesses) i =>
      (if w.busError i then mem else Function.update mem (ioff + i) (ibuf i),
        accesses ++ [w.access ioff i]))
    icnt 0 (dev.mem, [])

/-! ## The requests -/

inductive Buffer
  | arb | ibuf
  deriving DecidableEq

abbrev Books : Type := Ledger Buffer

/-- What a request leaves: its result, the books on the buffers, the accesses, the device, and
what the user gets, the data and the argument. -/
structure Outcome (d : Driver) where
  cc : Int
  books : Books := {}
  accesses : List Access := []
  dev : Device d
  user : List d.Word := []
  riob : Option (Nat × Nat) := none

/-- From the end of the switch on: the argument is copied out. -/
def finish (w : World d) (o : Outcome d) : Outcome d :=
  let books := o.books.release .arb
  if w.copyToArg then { o with cc := 0, books := books }
  else { o with cc := -eacces, riob := none, books := books }

/-- `RAW_READ`, when both buffers are there. -/
def rawReadCase (w : World d) (dev : Device d) (riob : Riob d) (books : Books) : Outcome d :=
  let icnt := riob.icnt
  let ioff := riob.ioff
  let (i, ibuf, accesses) := rawRead w dev icnt ioff
  if i ≠ icnt then
    -- `kfree(ival)`, which is `arb`, and then `out`
    { cc := -d.shortTransfer
      dev := dev
      accesses := accesses
      books := (books.release .arb).release .arb }
  else if !w.copyBuf then
    { cc := -eacces
      dev := dev
      accesses := accesses
      books := (books.release .ibuf).release .arb }
  else
    finish w
      { cc := 0
        dev := dev
        accesses := accesses
        user := ibuf
        riob := some (ioff * d.wordSize, icnt * d.wordSize)
        books := books.release .ibuf }

/-- `RAW_WRITE`, when both buffers are there. -/
def rawWriteCase (w : World d) (dev : Device d) (riob : Riob d) (books : Books) : Outcome d :=
  let icnt := riob.icnt
  let ioff := riob.ioff
  if !w.copyBuf then
    -- `kfree(ival)`, which is `arb`, and then `out`
    { cc := -eacces
      dev := dev
      books := (books.release .arb).release .arb }
  else
    let (i, mem, accesses) := rawWrite w dev icnt ioff w.user
    if i ≠ icnt then
      { cc := -d.shortTransfer
        dev := { dev with mem := mem }
        accesses := accesses
        books := (books.release .ibuf).release .arb }
    else
      finish w
        { cc := 0
          dev := { dev with mem := mem }
          accesses := accesses
          riob := some (ioff * d.wordSize, icnt * d.wordSize)
          books := books.release .ibuf }

/-- `__icv196_ioctl()`, `__vd80_ioctl()` -/
def ioctl (w : World d) (dev : Device d) (dir : Dir) (riob : Riob d) : Outcome d :=
  if !w.kmallocArb then { cc := -enomem, dev := dev }
  else
    let books := Ledger.acquire Buffer.arb {}
    if !w.copyFromArg then { cc := -eacces, dev := dev, books := books.release .arb }
    else if !w.kmallocBuf then { cc := -enomem, dev := dev, books := books.release .arb }
    else
      let books := books.acquire .ibuf
      match dir with
      | .read => rawReadCase w dev riob books
      | .write => rawWriteCase w dev riob books

/-- A request from `icv196_open()` or `vd80_open()` on, which looks at the number of the device
only. -/
def request (w : World d) (devs : Nat → Device d) (lun : Nat) (dir : Dir) (riob : Riob d) :
    Outcome d :=
  if lun ≥ maxDevices then { cc := -enodev, dev := devs lun }
  else ioctl w (devs lun) dir riob

end Coht.RawIoctl
