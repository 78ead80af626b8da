import Mathlib.Data.List.GetD
import Mathlib.Data.List.Rotate

/-!
# Putting the samples of an acquisition in order (`sis33acq.c`)

The driver hands out the samples as the module stores them: in words of 32 bits
in big endian order, two samples in a word with the first one in the low half,
and as a ring that begins at `first_samp`. `sis33acq_list_normalize()` makes two
passes over the list. The first swaps the bytes of the words and needs nothing;
the second turns the ring and needs a buffer as large as the samples, for which
there may be no memory.

Each pass clears the field that made it touch an acquisition, so an entry always
says what is still to be done to it. That is `AcqBuffer.normal`, the result that
an entry is going to have: no step of either pass changes it, whether the call
comes to its end or not (`listNormalize_normal`).
-/

namespace Coht.Sis33

abbrev U8 := BitVec 8

abbrev U16 := BitVec 16

abbrev U32 := BitVec 32

inductive Endian
  | little
  | big
  deriving DecidableEq

/-- `struct sis33_acq`, as far as the library looks into it, with the bytes
that its buffer holds. -/
structure AcqBuffer where
  data : List U8
  size : U32
  firstSamp : U32
  be : U32
  full : data.length = size.toNat
  deriving DecidableEq

/-! ## The code -/

/-- A word of memory. -/
def load32 (host : Endian) (b0 b1 b2 b3 : U8) : U32 :=
  match host with
  | .little => b3 ++ b2 ++ b1 ++ b0
  | .big => b0 ++ b1 ++ b2 ++ b3

def store32 (host : Endian) (x : U32) : List U8 :=
  let bytes := [x.extractLsb' 0 8, x.extractLsb' 8 8, x.extractLsb' 16 8,
    x.extractLsb' 24 8]
  match host with
  | .little => bytes
  | .big => bytes.reverse

def myswap32 (x : U32) : U32 :=
  x.extractLsb' 0 8 ++ x.extractLsb' 8 8 ++ x.extractLsb' 16 8 ++
    x.extractLsb' 24 8

def beToCpu (host : Endian) (hwval : U32) : U32 :=
  match host with
  | .little => myswap32 hwval
  | .big => hwval

/-- A rest of less than a word is left as it is. -/
def acqSwap (host : Endian) : List U8 → List U8
  | b0 :: b1 :: b2 :: b3 :: rest =>
    store32 host (beToCpu host (load32 host b0 b1 b2 b3)) ++ acqSwap host rest
  | rest => rest

theorem acqSwap_length (host : Endian) (data : List U8) :
    (acqSwap host data).length = data.length := by
  fun_induction acqSwap host data with
  | case1 b0 b1 b2 b3 rest ih =>
    have hword : ∀ x, (store32 host x).length = 4 := by
      intro x
      cases host <;> rfl
    rw [List.length_append, hword, ih]
    simp only [List.length_cons]
    omega
  | case2 => rfl

def swapEntry (host : Endian) (acq : AcqBuffer) : AcqBuffer :=
  if acq.be ≠ 0 ∧ host = .little then
    { acq with
      data := acqSwap host acq.data
      be := 0
      full := (acqSwap_length host acq.data).trans acq.full }
  else acq

/-- The first `elems` entries of the list. -/
def sis33acqListSwap (host : Endian) : (elems : Nat) → List AcqBuffer →
    List AcqBuffer
  | elems + 1, acq :: acqs =>
    swapEntry host acq :: sis33acqListSwap host elems acqs
  | _, acqs => acqs

/-- The bytes that the two calls of `memcpy()` put into the new buffer, for an
index that is in the old one. -/
def turned (data : List U8) (size firstSamp : Nat) : List U8 :=
  let len1 := size - firstSamp * 2
  (data.drop (firstSamp * 2)).take len1 ++ data.take (size - len1)

theorem turned_length {data : List U8} {size k : Nat} (h : data.length = size) :
    (turned data size k).length = size := by
  simp only [turned, List.length_append, List.length_take, List.length_drop]
  omega

def AcqBuffer.reordered (acq : AcqBuffer) : AcqBuffer :=
  { acq with
    data := turned acq.data acq.size.toNat acq.firstSamp.toNat
    firstSamp := 0
    full := turned_length acq.full }

/-- `sis33acq_reorder()`, `none` if there is no memory for the buffer. -/
def sis33acqReorder (malloc : Bool) (acq : AcqBuffer) : Option AcqBuffer :=
  if malloc then some acq.reordered else none

/-- The first `elems` entries of the list, which begins with entry `i`. `malloc`
says for which entries there is memory. -/
def sis33acqListReorder (malloc : Nat → Bool) (i : Nat) : (elems : Nat) →
    List AcqBuffer → Int × List AcqBuffer
  | elems + 1, acq :: acqs =>
    if acq.firstSamp ≠ 0 then
      match sis33acqReorder (malloc i) acq with
      | none => (-1, acq :: acqs)
      | some acq =>
        let r := sis33acqListReorder malloc (i + 1) elems acqs
        (r.1, acq :: r.2)
    else
      let r := sis33acqListReorder malloc (i + 1) elems acqs
      (r.1, acq :: r.2)
  | _, acqs => (0, acqs)

def sis33acqListNormalize (host : Endian) (malloc : Nat → Bool) (elems : Int)
    (acqs : List AcqBuffer) : Int × List AcqBuffer :=
  sis33acqListReorder malloc 0 elems.toNat
    (sis33acqListSwap host elems.toNat acqs)

/-! ## What the samples are -/

/-- Sample `j` of a buffer, as a little endian host reads it. -/
def sampleAt (data : List U8) (j : Nat) : U16 :=
  data.getD (2 * j + 1) 0 ++ data.getD (2 * j) 0

/-- Word `k` of a buffer in big endian order. -/
def beWord (data : List U8) (k : Nat) : U32 :=
  data.getD (4 * k) 0 ++ data.getD (4 * k + 1) 0 ++ data.getD (4 * k + 2) 0 ++
    data.getD (4 * k + 3) 0

namespace AcqBuffer

/-- Sample `j` with its byte order corrected: of a word in big endian order the
low half is the first sample. -/
def corrected (acq : AcqBuffer) (j : Nat) : U16 :=
  if acq.be ≠ 0 then (beWord acq.data (j / 2)).extractLsb' (j % 2 * 16) 16
  else sampleAt acq.data j

/-- The sizes and the indices that the driver fills in. -/
structure WellFormed (acq : AcqBuffer) : Prop where
  words : acq.size.toNat % 4 = 0
  index : acq.firstSamp.toNat ≤ acq.size.toNat / 2

/-- The result for one acquisition. -/
structure Normalised (acq acq' : AcqBuffer) : Prop where
  be : acq'.be = 0
  firstSamp : acq'.firstSamp = 0
  size : acq'.size = acq.size
  samples : ∀ j, j < acq.size.toNat / 2 →
    sampleAt acq'.data j =
      acq.corrected ((j + acq.firstSamp.toNat) % (acq.size.toNat / 2))

end AcqBuffer

/-! ## Bytes and halves of a word -/

section Word

variable {w n k k' : Nat} {b0 b1 b2 b3 : U8}

theorem extract_lo (x : BitVec w) (y : U8) : (x ++ y).extractLsb' 0 8 = y := by
  ext i hi
  simp [BitVec.getLsbD_append, hi]

theorem extract_hi (x : BitVec w) (y : U8) (hk : k' = k + 8) :
    (x ++ y).extractLsb' k' n = x.extractLsb' k n := by
  ext i hi
  have hge : ¬k' + i < 8 := by omega
  have hsub : k' + i - 8 = k + i := by omega
  simp [BitVec.getLsbD_append, hge, hsub]

theorem store32_append :
    store32 .little (b3 ++ b2 ++ b1 ++ b0) = [b0, b1, b2, b3] := by
  simp only [store32, List.cons.injEq, and_true]
  refine ⟨extract_lo _ _, ?_, ?_, ?_⟩
  · rw [extract_hi (k := 0) _ _ rfl, extract_lo]
  · rw [extract_hi (k := 8) _ _ rfl, extract_hi (k := 0) _ _ rfl, extract_lo]
  · rw [extract_hi (k := 16) _ _ rfl, extract_hi (k := 8) _ _ rfl,
      extract_hi (k := 0) _ _ rfl, BitVec.extractLsb'_eq_self]

theorem store_swap_load :
    store32 .little (beToCpu .little (load32 .little b0 b1 b2 b3)) =
      [b3, b2, b1, b0] := by
  have hbytes : store32 .little (load32 .little b0 b1 b2 b3) =
      [b0, b1, b2, b3] := store32_append
  simp only [store32, List.cons.injEq, and_true] at hbytes
  obtain ⟨h0, h1, h2, h3⟩ := hbytes
  simp only [beToCpu, myswap32, h0, h1, h2, h3]
  exact store32_append

theorem low_half_append :
    (b0 ++ b1 ++ b2 ++ b3 : U32).extractLsb' 0 16 = (b2 ++ b3 : U16) := by
  ext i hi
  simp
  grind

theorem high_half_append :
    (b0 ++ b1 ++ b2 ++ b3 : U32).extractLsb' 16 16 = (b0 ++ b1 : U16) := by
  rw [extract_hi (k := 8) _ _ rfl, extract_hi (k := 0) _ _ rfl]
  exact BitVec.extractLsb'_eq_self

end Word

/-! ## Swapping -/

section Swap

variable {data : List U8} {acq : AcqBuffer} {j k : Nat}

theorem acqSwap_getD (hk : k < data.length / 4) :
    (acqSwap .little data).getD (4 * k) 0 = data.getD (4 * k + 3) 0 ∧
    (acqSwap .little data).getD (4 * k + 1) 0 = data.getD (4 * k + 2) 0 ∧
    (acqSwap .little data).getD (4 * k + 2) 0 = data.getD (4 * k + 1) 0 ∧
    (acqSwap .little data).getD (4 * k + 3) 0 = data.getD (4 * k) 0 := by
  induction data using acqSwap.induct generalizing k with
  | case1 b0 b1 b2 b3 rest ih =>
    rw [acqSwap, store_swap_load]
    cases k with
    | zero => exact ⟨rfl, rfl, rfl, rfl⟩
    | succ k =>
      simp only [List.length_cons] at hk
      exact ih (by omega)
  | case2 rest hshort =>
    match rest, hshort with
    | [], _ | [_], _ | [_, _], _ | [_, _, _], _ =>
      exact absurd hk (by simp)
    | b0 :: b1 :: b2 :: b3 :: rest, hshort =>
      exact (hshort b0 b1 b2 b3 rest rfl).elim

theorem sampleAt_acqSwap (hwords : data.length % 4 = 0)
    (hj : j < data.length / 2) :
    sampleAt (acqSwap .little data) j =
      (beWord data (j / 2)).extractLsb' (j % 2 * 16) 16 := by
  have hk : j / 2 < data.length / 4 := by omega
  obtain ⟨h0, h1, h2, h3⟩ := acqSwap_getD hk
  unfold sampleAt beWord
  obtain h | h := Nat.mod_two_eq_zero_or_one j
  · have hj0 : 2 * j = 4 * (j / 2) := by omega
    rw [h, hj0, h0, h1, low_half_append]
  · have hj0 : 2 * j = 4 * (j / 2) + 2 := by omega
    rw [h, hj0, h2, h3, high_half_append]

theorem swapEntry_sampleAt (hwf : acq.WellFormed)
    (hj : j < acq.size.toNat / 2) :
    sampleAt (swapEntry .little acq).data j = acq.corrected j := by
  unfold swapEntry AcqBuffer.corrected
  by_cases hbe : acq.be = 0
  · rw [if_neg (fun h => h.1 hbe), if_neg (not_not.mpr hbe)]
  · rw [if_pos ⟨hbe, rfl⟩, if_pos hbe]
    have hfull := acq.full
    have hwords := hwf.words
    exact sampleAt_acqSwap (by omega) (by omega)

end Swap

/-! ## Turning the ring -/

section Turn

variable {data : List U8} {acq : AcqBuffer} {j k : Nat}

theorem turned_eq (h : k * 2 ≤ data.length) :
    turned data data.length k = data.rotate (k * 2) := by
  have hdrop : (data.drop (k * 2)).take (data.length - k * 2) =
      data.drop (k * 2) :=
    List.take_of_length_le (by rw [List.length_drop])
  have htake : data.length - (data.length - k * 2) = k * 2 := by omega
  rw [List.rotate_eq_drop_append_take h]
  dsimp only [turned]
  rw [hdrop, htake]

theorem sampleAt_turned (heven : data.length % 2 = 0)
    (hk : k ≤ data.length / 2) (hj : j < data.length / 2) :
    sampleAt (turned data data.length k) j =
      sampleAt data ((j + k) % (data.length / 2)) := by
  have hget : ∀ n < data.length, (data.rotate (k * 2)).getD n 0 =
      data.getD ((n + k * 2) % data.length) 0 := by
    intro n hn
    have hlt : (n + k * 2) % data.length < data.length :=
      Nat.mod_lt _ (by omega)
    rw [List.getD_eq_getElem _ _ (by rwa [List.length_rotate]),
      List.getElem_rotate, List.getD_eq_getElem _ _ hlt]
  have hmod : 2 * ((j + k) % (data.length / 2)) =
      (2 * j + k * 2) % data.length := by
    rw [← Nat.mul_mod_mul_left]
    congr 1 <;> omega
  have hmod1 : 2 * ((j + k) % (data.length / 2)) + 1 =
      (2 * j + 1 + k * 2) % data.length := by
    have hlt : (j + k) % (data.length / 2) < data.length / 2 :=
      Nat.mod_lt _ (by omega)
    rw [Nat.add_right_comm (2 * j), ← Nat.mod_add_mod (2 * j + k * 2), ← hmod]
    exact (Nat.mod_eq_of_lt (by omega)).symm
  rw [turned_eq (by omega), sampleAt, sampleAt, hget _ (by omega),
    hget _ (by omega), ← hmod, ← hmod1]

def AcqBuffer.normal (acq : AcqBuffer) : AcqBuffer :=
  (swapEntry .little acq).reordered

structure Pending (acq acq' : AcqBuffer) : Prop where
  normal : acq'.normal = acq.normal
  wellFormed : acq.WellFormed → acq'.WellFormed

theorem Pending.refl (acq : AcqBuffer) : Pending acq acq := ⟨rfl, id⟩

theorem Pending.trans {acq1 acq2 acq3 : AcqBuffer} (h : Pending acq1 acq2)
    (h' : Pending acq2 acq3) : Pending acq1 acq3 :=
  ⟨h'.normal.trans h.normal, fun hwf => h'.wellFormed (h.wellFormed hwf)⟩

theorem swapEntry_be : (swapEntry .little acq).be = 0 := by
  unfold swapEntry
  split
  · rfl
  · rename_i h
    exact not_not.mp fun hbe => h ⟨hbe, rfl⟩

theorem swapEntry_of_be (h : acq.be = 0) : swapEntry .little acq = acq :=
  if_neg fun hbe => hbe.1 h

theorem swapEntry_size : (swapEntry .little acq).size = acq.size := by
  unfold swapEntry
  split <;> rfl

theorem swapEntry_firstSamp :
    (swapEntry .little acq).firstSamp = acq.firstSamp := by
  unfold swapEntry
  split <;> rfl

theorem swapEntry_pending : Pending acq (swapEntry .little acq) := by
  constructor
  · unfold AcqBuffer.normal
    rw [swapEntry_of_be swapEntry_be]
  · intro h
    refine ⟨?_, ?_⟩
    · rw [swapEntry_size]
      exact h.words
    · rw [swapEntry_size, swapEntry_firstSamp]
      exact h.index

theorem turned_zero (n : Nat) (h : data.length = n) : turned data n 0 = data := by
  simp [turned, ← h]

theorem reordered_of_done (h : acq.firstSamp = 0) : acq.reordered = acq := by
  obtain ⟨data, size, firstSamp, be, full⟩ := acq
  subst h
  have hdata : turned data size.toNat 0 = data := turned_zero _ full
  simp only [AcqBuffer.reordered, AcqBuffer.mk.injEq, and_true]
  exact hdata

theorem normal_of_be (h : acq.be = 0) : acq.normal = acq.reordered := by
  rw [AcqBuffer.normal, swapEntry_of_be h]

theorem normal_be : acq.normal.be = 0 := swapEntry_be

theorem normal_pending : Pending acq acq.normal := by
  constructor
  · rw [normal_of_be normal_be]
    exact reordered_of_done rfl
  · intro h
    refine ⟨?_, Nat.zero_le _⟩
    show (swapEntry .little acq).size.toNat % 4 = 0
    rw [swapEntry_size]
    exact h.words

theorem normal_normalised (hwf : acq.WellFormed) :
    acq.Normalised acq.normal := by
  refine ⟨normal_be, rfl, swapEntry_size, ?_⟩
  intro j hj
  have hlen : (swapEntry .little acq).data.length = acq.size.toNat := by
    rw [(swapEntry .little acq).full, swapEntry_size]
  have hwords := hwf.words
  have hindex := hwf.index
  have heven : (swapEntry .little acq).data.length % 2 = 0 := by omega
  have hturn := sampleAt_turned (j := j) (k := acq.firstSamp.toNat) heven
    (by omega) (by omega)
  unfold AcqBuffer.normal AcqBuffer.reordered
  dsimp only
  rw [swapEntry_size, swapEntry_firstSamp, ← hlen, hturn, hlen]
  exact swapEntry_sampleAt hwf (Nat.mod_lt _ (by omega))

end Turn

/-! ## The list -/

section Passes

variable {malloc : Nat → Bool} {elems i : Nat} {acq : AcqBuffer}
  {acqs : List AcqBuffer}

def normalList : (elems : Nat) → List AcqBuffer → List AcqBuffer
  | elems + 1, acq :: acqs => acq.normal :: normalList elems acqs
  | _, acqs => acqs

def Swapped : (elems : Nat) → List AcqBuffer → Prop
  | elems + 1, acq :: acqs => acq.be = 0 ∧ Swapped elems acqs
  | _, _ => True

theorem listSwap_swapped (elems : Nat) (acqs : List AcqBuffer) :
    Swapped elems (sis33acqListSwap .little elems acqs) := by
  fun_induction sis33acqListSwap .little elems acqs with
  | case1 elems acq acqs ih => exact ⟨swapEntry_be, ih⟩
  | case2 elems acqs hend =>
    unfold Swapped
    split
    · exact (hend _ _ _ rfl rfl).elim
    · trivial

theorem listSwap_normal :
    normalList elems (sis33acqListSwap .little elems acqs) =
      normalList elems acqs := by
  fun_induction sis33acqListSwap .little elems acqs with
  | case1 elems acq acqs ih =>
    rw [normalList, normalList, ih, swapEntry_pending.normal]
  | case2 => rfl

theorem listReorder_normal (h : Swapped elems acqs) :
    let r := sis33acqListReorder malloc i elems acqs
    normalList elems r.2 = normalList elems acqs ∧
      (r.1 = 0 → r.2 = normalList elems acqs) ∧
      ((∀ i, malloc i = true) → r.1 = 0) := by
  fun_induction sis33acqListReorder malloc i elems acqs with
  | case1 i elems acq acqs hne hfail =>
    refine ⟨rfl, fun h0 => absurd h0 (by decide : (-1 : Int) ≠ 0),
      fun hall => ?_⟩
    rw [sis33acqReorder, if_pos (hall i)] at hfail
    cases hfail
  | case2 i elems acq acqs hne acq' hreorder r ih =>
    obtain ⟨hbe, hrest⟩ := h
    obtain ⟨hsame, hdone, hall⟩ := ih hrest
    have hacq : acq' = acq.normal := by
      rw [sis33acqReorder] at hreorder
      split at hreorder
      · rw [normal_of_be hbe]
        exact (Option.some.inj hreorder).symm
      · cases hreorder
    subst hacq
    refine ⟨?_, fun h0 => ?_, hall⟩
    · rw [normalList, normalList, normal_pending.normal, hsame]
    · rw [normalList, ← hdone h0]
  | case3 i elems acq acqs hzero r ih =>
    obtain ⟨hbe, hrest⟩ := h
    obtain ⟨hsame, hdone, hall⟩ := ih hrest
    have hacq : acq.normal = acq :=
      (normal_of_be hbe).trans (reordered_of_done (not_not.mp hzero))
    refine ⟨?_, fun h0 => ?_, hall⟩
    · rw [normalList, normalList, hsame]
    · rw [normalList, ← hdone h0, hacq]
  | case4 i elems acqs hend =>
    refine ⟨rfl, fun _ => ?_, fun _ => rfl⟩
    unfold normalList
    split
    · exact (hend _ _ _ rfl rfl).elim
    · rfl

theorem listNormalize_normal (malloc : Nat → Bool) (elems : Int)
    (acqs : List AcqBuffer) :
    let r := sis33acqListNormalize .little malloc elems acqs
    normalList elems.toNat r.2 = normalList elems.toNat acqs ∧
      (r.1 = 0 → r.2 = normalList elems.toNat acqs) ∧
      ((∀ i, malloc i = true) → r.1 = 0) := by
  have h := @listReorder_normal malloc elems.toNat 0 _
    (listSwap_swapped elems.toNat acqs)
  rwa [listSwap_normal] at h

/-- Calls one after the other, with the list as each of them leaves it. -/
def normalizeCalls (elems : Int) (acqs : List AcqBuffer)
    (calls : List (Nat → Bool)) : List AcqBuffer :=
  calls.foldl
    (fun acqs malloc => (sis33acqListNormalize .little malloc elems acqs).2) acqs

theorem normalizeCalls_normal (elems : Int) (acqs : List AcqBuffer)
    (calls : List (Nat → Bool)) :
    normalList elems.toNat (normalizeCalls elems acqs calls) =
      normalList elems.toNat acqs := by
  unfold normalizeCalls
  induction calls generalizing acqs with
  | nil => rfl
  | cons malloc calls ih =>
    rw [List.foldl_cons, ih]
    exact (listNormalize_normal malloc elems acqs).1

/-! ## A second call -/

theorem listSwap_normalList :
    sis33acqListSwap .little elems (normalList elems acqs) =
      normalList elems acqs := by
  fun_induction normalList elems acqs with
  | case1 elems acq acqs ih =>
    rw [sis33acqListSwap, ih, swapEntry_of_be normal_be]
  | case2 elems acqs hend =>
    unfold sis33acqListSwap
    split
    · exact (hend _ _ _ rfl rfl).elim
    · rfl

theorem listReorder_normalList :
    sis33acqListReorder malloc i elems (normalList elems acqs) =
      (0, normalList elems acqs) := by
  fun_induction normalList elems acqs generalizing i with
  | case1 elems acq acqs ih =>
    have hfirst : acq.normal.firstSamp = 0 := rfl
    rw [sis33acqListReorder, if_neg (not_not.mpr hfirst)]
    dsimp only
    rw [ih]
  | case2 elems acqs hend =>
    unfold sis33acqListReorder
    split
    · exact (hend _ _ _ rfl rfl).elim
    · rfl

/-! ## The samples in the list -/

theorem normalList_length : (normalList elems acqs).length = acqs.length := by
  fun_induction normalList elems acqs with
  | case1 elems acq acqs ih => rw [List.length_cons, ih, List.length_cons]
  | case2 => rfl

theorem normalList_drop : (normalList elems acqs).drop elems = acqs.drop elems := by
  fun_induction normalList elems acqs with
  | case1 elems acq acqs ih => exact ih
  | case2 => rfl

theorem normalList_getElem {k : Nat} (hk : k < acqs.length) (helems : k < elems)
    (hk' : k < (normalList elems acqs).length) :
    (normalList elems acqs)[k] = acqs[k].normal := by
  induction acqs generalizing elems k with
  | nil => exact absurd hk (Nat.not_lt_zero k)
  | cons acq acqs ih =>
    obtain ⟨elems, rfl⟩ := Nat.exists_eq_add_of_lt helems
    cases k with
    | zero => rfl
    | succ k => exact ih (Nat.lt_of_succ_lt_succ hk) (by omega) _

/-- What `sis33acq_list_normalize()` is to do to a list. -/
structure ListNormalised (elems : Int) (acqs acqs' : List AcqBuffer) :
    Prop where
  length : acqs'.length = acqs.length
  entries : ∀ (k : Nat) (hk : k < acqs.length) (hk' : k < acqs'.length),
    (k : Int) < elems → acqs[k].Normalised acqs'[k]
  rest : acqs'.drop elems.toNat = acqs.drop elems.toNat

/-- A call that returns 0 has put the samples in order, and a second one changes
nothing, with memory or without. After any calls, failed ones among them, one
that returns 0 has the result of a single call, and one that finds memory
returns 0. -/
theorem sis33acqListNormalize_normalises (elems : Int) (acqs : List AcqBuffer)
    (hwf : ∀ acq ∈ acqs, acq.WellFormed) :
    (∀ malloc acqs',
      sis33acqListNormalize .little malloc elems acqs = (0, acqs') →
        ListNormalised elems acqs acqs' ∧
          ∀ malloc', sis33acqListNormalize .little malloc' elems acqs' =
            (0, acqs')) ∧
    ∀ calls,
      (∀ malloc acqs',
        sis33acqListNormalize .little malloc elems
            (normalizeCalls elems acqs calls) = (0, acqs') →
          sis33acqListNormalize .little (fun _ => true) elems acqs =
            (0, acqs')) ∧
        (sis33acqListNormalize .little (fun _ => true) elems
          (normalizeCalls elems acqs calls)).1 = 0 := by
  have hdone : ∀ {malloc acqs acqs'},
      sis33acqListNormalize .little malloc elems acqs = (0, acqs') →
        acqs' = normalList elems.toNat acqs := by
    intro malloc acqs acqs' h
    have hcall := (listNormalize_normal malloc elems acqs).2.1
    rw [h] at hcall
    exact hcall rfl
  have hmemory : ∀ acqs,
      (sis33acqListNormalize .little (fun _ => true) elems acqs).1 = 0 :=
    fun acqs => (listNormalize_normal _ elems acqs).2.2 fun _ => rfl
  constructor
  · intro malloc acqs' h
    obtain rfl := hdone h
    refine ⟨⟨normalList_length, ?_, normalList_drop⟩, ?_⟩
    · intro k hk hk' hlt
      rw [normalList_getElem hk (by omega)]
      exact normal_normalised (hwf _ (List.getElem_mem hk))
    · intro malloc'
      rw [sis33acqListNormalize, listSwap_normalList, listReorder_normalList]
  · intro calls
    refine ⟨?_, hmemory _⟩
    intro malloc acqs' h
    have hlater := hdone h
    rw [normalizeCalls_normal] at hlater
    have hone := hdone (Prod.ext (hmemory acqs) rfl)
    exact Prod.ext (hmemory acqs) (hone.trans hlater.symm)

/-- Four samples in big endian order that begin at the second one. -/
def ringOfFour : AcqBuffer :=
  { data := [0, 1, 2, 3, 4, 5, 6, 7], size := 8, firstSamp := 1, be := 1,
    full := rfl }

/-- There is no memory in the first call. -/
theorem sis33acqListNormalize_later :
    (sis33acqListNormalize .little (fun _ => true) 1
      (normalizeCalls 1 [ringOfFour] [fun _ => false])).1 = 0 :=
  ((sis33acqListNormalize_normalises 1 [ringOfFour]
    (List.forall_mem_singleton.mpr ⟨by decide, by decide⟩)).2
      [fun _ => false]).2

end Passes

end Coht.Sis33
