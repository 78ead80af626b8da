import Coht.Lib.Word
import Coht.Lib.Tiling
import Coht.Vmebridge.DmaSetup
import Mathlib.Algebra.GroupWithZero.Nat

/-!
# The pages of a buffer (`vme_dma.c`)

`vme_dma_setup()` counts the pages that a buffer touches, and `sgl_map_user_pages()`
cuts the buffer up by what is left of its length alone: the first entry goes to the end
of its page, the others are a page long until less than a page is left. The two agree
when there are as many pages as multiples of the page size up to the end of the buffer,
counted from the start of its first page (`nrPages_spec`). Then `setRest` has the last
byte in its last page (`setRest_splits`).
-/

namespace Coht.Vmebridge

open Coht.Lib

/-- Where the entries of a table lie in the buffer whose first page starts at `a`. -/
def pageRanges (k : Nat) : Nat → List SgPage → List Seg
  | _, [] => []
  | a, e :: es => ⟨a + e.offset.toNat, e.length.toNat⟩ :: pageRanges k (a + 2 ^ k) es

/-- The length of all entries. -/
def tableTotal (table : List SgPage) : Nat := (table.map fun e => e.length.toNat).sum

/-- The table has one entry for each page, and they cover the buffer. -/
structure Splits (k : Nat) (uaddr : BitVec 64) (length : Word) (pages : List Page)
    (table : List SgPage) : Prop where
  count : table.length = (nrPages k uaddr length).toNat
  pages : table.map SgPage.page = pages
  first : table.head?.map (fun e => e.offset.toNat) = some (uaddr.toNat % 2 ^ k)
  later : ∀ e ∈ table.tail, e.offset.toNat = 0
  bounds : ∀ e ∈ table, 0 < e.length.toNat ∧ e.length.toNat ≤ 2 ^ k ∧
    e.offset.toNat + e.length.toNat ≤ 2 ^ k
  covers : Tiles [⟨uaddr.toNat, length.toNat⟩]
    (pageRanges k (roundDown (2 ^ k) uaddr.toNat) table)
  total : tableTotal table = length.toNat

/-- The entries for the `n` bytes from the page at `a` on, all of them at the start of
their page. -/
structure SplitsRest (k a n : Nat) (pages : List Page) (table : List SgPage) : Prop where
  pages : table.map SgPage.page = pages
  later : ∀ e ∈ table, e.offset.toNat = 0
  bounds : ∀ e ∈ table, 0 < e.length.toNat ∧ e.length.toNat ≤ 2 ^ k
  covers : Tiles [⟨a, n⟩] (pageRanges k a table)
  total : tableTotal table = n

section

variable {k : Nat}

theorem pow_lt_word (hk : k < 32) : 2 ^ k < 2 ^ 32 := Nat.pow_lt_pow_right (by decide) hk

theorem and_offsetMask_toNat (hk : k < 32) (uaddr : BitVec 64) :
    (uaddr &&& offsetMask k).toNat = uaddr.toNat % 2 ^ k := by
  have hlt := pow_lt_word hk
  refine toNat_and_low ?_
  rw [offsetMask, BitVec.toNat_ofNat, Nat.mod_eq_of_lt (by omega)]

theorem offsetInPage_toNat (hk : k < 32) (uaddr : BitVec 64) :
    (offsetInPage k uaddr).toNat = uaddr.toNat % 2 ^ k := by
  have hlt := pow_lt_word hk
  have hmod := Nat.mod_lt uaddr.toNat (Nat.two_pow_pos k)
  rw [offsetInPage, BitVec.toNat_setWidth, and_offsetMask_toNat hk,
    Nat.mod_eq_of_lt (by omega)]

theorem pageBytes_toNat (hk : k < 32) : (pageBytes k).toNat = 2 ^ k := by
  have hlt := pow_lt_word hk
  rw [pageBytes, BitVec.toNat_ofNat, Nat.mod_eq_of_lt (by omega)]

theorem nrPages_toNat (hk : k < 32) (uaddr : BitVec 64) (length : Word) :
    (nrPages k uaddr length).toNat =
      (uaddr.toNat % 2 ^ k + length.toNat + (2 ^ k - 1)) / 2 ^ k := by
  have hpos := Nat.two_pow_pos k
  have hle : 2 ^ k ≤ 2 ^ 31 := Nat.pow_le_pow_right (by decide) (by omega)
  have hmod := Nat.mod_lt uaddr.toNat hpos
  have hlen := length.isLt
  have hmask : (offsetMask k).toNat = 2 ^ k - 1 := by
    rw [offsetMask, BitVec.toNat_ofNat, Nat.mod_eq_of_lt (by omega)]
  have hfew : (uaddr.toNat % 2 ^ k + length.toNat + (2 ^ k - 1)) / 2 ^ k < 2 ^ 32 := by
    rw [Nat.div_lt_iff_lt_mul hpos]
    have hmul : 2 ^ 32 * 2 ^ k = 2 ^ 32 * (2 ^ k - 1) + 2 ^ 32 := by
      rw [← Nat.mul_succ]
      congr 1
      omega
    omega
  have hsum : ((uaddr &&& offsetMask k) + length.setWidth 64 + offsetMask k).toNat =
      uaddr.toNat % 2 ^ k + length.toNat + (2 ^ k - 1) := by
    rw [BitVec.toNat_add, BitVec.toNat_add, and_offsetMask_toNat hk, hmask,
      BitVec.toNat_setWidth, Nat.mod_eq_of_lt (by omega : length.toNat < 2 ^ 64)]
    omega
  rw [nrPages, BitVec.toNat_setWidth, BitVec.toNat_ushiftRight, hsum, Nat.shiftRight_eq_div_pow,
    Nat.mod_eq_of_lt hfew]

theorem nrPages_spec (hk : k < 32) (uaddr : BitVec 64) {length : Word}
    (hlen : 0 < length.toNat) : ∃ n, (nrPages k uaddr length).toNat = n + 1 ∧
      2 ^ k * n < uaddr.toNat % 2 ^ k + length.toNat ∧
      uaddr.toNat % 2 ^ k + length.toNat ≤ 2 ^ k * (n + 1) := by
  have hpos := Nat.two_pow_pos k
  have hcount := nrPages_toNat hk uaddr length
  have hsplit := Nat.div_add_mod (uaddr.toNat % 2 ^ k + length.toNat + (2 ^ k - 1)) (2 ^ k)
  have hrest := Nat.mod_lt (uaddr.toNat % 2 ^ k + length.toNat + (2 ^ k - 1)) hpos
  rw [← hcount] at hsplit
  cases hn : (nrPages k uaddr length).toNat with
  | zero =>
    rw [hn, Nat.mul_zero] at hsplit
    omega
  | succ n =>
    have hmul := Nat.mul_add_one (2 ^ k) n
    rw [hn] at hsplit
    exact ⟨n, rfl, by omega, by omega⟩

/-! ## The entries after the first -/

theorem chunk_toNat (hk : k < 32) {length : BitVec 64} {n : Nat}
    (h : min length.toNat (2 ^ k) = n) :
    ((if length < pageBytes k then length else pageBytes k).setWidth 32).toNat = n := by
  have hlt := pow_lt_word hk
  have hpage := pageBytes_toNat hk
  rw [BitVec.toNat_setWidth]
  split
  · next hless =>
    rw [BitVec.lt_def, hpage] at hless
    rw [Nat.mod_eq_of_lt (by omega)]
    omega
  · next hge =>
    rw [BitVec.lt_def, hpage] at hge
    rw [hpage, Nat.mod_eq_of_lt (by omega)]
    omega

theorem SplitsRest.cons {a n m : Nat} {page : Page} {pages : List Page} {e : SgPage}
    {table : List SgPage} (hpage : e.page = page) (hoff : e.offset.toNat = 0)
    (hlen : e.length.toNat = 2 ^ k) (hn : n = 2 ^ k + m) (hm : 0 < m)
    (h : SplitsRest k (a + 2 ^ k) m pages table) :
    SplitsRest k a n (page :: pages) (e :: table) where
  pages := by rw [List.map_cons, hpage, h.pages]
  later := List.forall_mem_cons.mpr ⟨hoff, h.later⟩
  bounds := by
    have hpos := Nat.two_pow_pos k
    exact List.forall_mem_cons.mpr ⟨⟨by omega, by omega⟩, h.bounds⟩
  covers := by
    have hpos := Nat.two_pow_pos k
    rw [pageRanges, hoff, hlen, Nat.add_zero, hn]
    exact .cut hpos hm h.covers
  total := by
    have htotal := h.total
    unfold tableTotal at htotal ⊢
    rw [List.map_cons, List.sum_cons, hlen, htotal, hn]

theorem SplitsRest.single {a n : Nat} {e : SgPage} (hoff : e.offset.toNat = 0)
    (hlen : e.length.toNat = n) (hn : 0 < n) (hle : n ≤ 2 ^ k) :
    SplitsRest k a n [e.page] [e] where
  pages := rfl
  later := List.forall_mem_singleton.mpr hoff
  bounds := List.forall_mem_singleton.mpr ⟨by omega, by omega⟩
  covers := by
    rw [pageRanges, pageRanges, hoff, hlen, Nat.add_zero]
    exact .whole hn .nil
  total := by
    unfold tableTotal
    rw [List.map_singleton, List.sum_singleton, hlen]

theorem setRest_splits (hk : k < 32) {pages : List Page} {a n : Nat} {length : BitVec 64}
    (hcount : pages.length = n + 1) (hlow : 2 ^ k * n < length.toNat)
    (hhigh : length.toNat ≤ 2 ^ k * (n + 1)) :
    SplitsRest k a length.toNat pages (setRest k length pages) := by
  induction pages generalizing a n length with
  | nil => cases hcount
  | cons page pages ih =>
    unfold setRest
    cases n with
    | zero =>
      obtain rfl : pages = [] := List.length_eq_zero_iff.mp (Nat.succ.inj hcount)
      unfold setRest
      rw [Nat.zero_add, Nat.mul_one] at hhigh
      exact .single (e := ⟨page, _, 0⟩) rfl (chunk_toNat hk (Nat.min_eq_left hhigh))
        (by omega) hhigh
    | succ n =>
      have hmul := Nat.mul_add_one (2 ^ k) n
      have hmul' := Nat.mul_add_one (2 ^ k) (n + 1)
      have hpage := pageBytes_toNat hk
      have hrest : (length - pageBytes k).toNat = length.toNat - 2 ^ k := by
        rw [BitVec.toNat_sub_of_le (by rw [BitVec.le_def]; omega), hpage]
      refine .cons rfl rfl (chunk_toNat hk (Nat.min_eq_right (by omega))) ?_ ?_
        (ih (Nat.succ.inj hcount) ?_ ?_)
      · omega
      · omega
      · omega
      · omega

/-! ## The table -/

theorem setPages_splits (hk : k < 32) {uaddr : BitVec 64} {length : Word}
    {pages : List Page} (hlen : 0 < length.toNat)
    (hcount : pages.length = (nrPages k uaddr length).toNat) :
    Splits k uaddr length pages (setPages k uaddr (length.setWidth 64) pages) := by
  have hpos := Nat.two_pow_pos k
  have hlt := pow_lt_word hk
  have hmod := Nat.mod_lt uaddr.toNat hpos
  have hdown := @roundDown_add_mod (2 ^ k) uaddr.toNat
  have hoff := offsetInPage_toNat hk uaddr
  have hword : (length.setWidth 64 : BitVec 64).toNat = length.toNat := by
    have hbound := length.isLt
    rw [BitVec.toNat_setWidth, Nat.mod_eq_of_lt (by omega)]
  obtain ⟨n, hn, hlow, hhigh⟩ := nrPages_spec hk uaddr hlen
  rw [hn] at hcount
  cases pages with
  | nil => cases hcount
  | cons page pages =>
    cases n with
    | zero =>
      obtain rfl : pages = [] := List.length_eq_zero_iff.mp (Nat.succ.inj hcount)
      rw [Nat.zero_add, Nat.mul_one] at hhigh
      have hlength : ((length.setWidth 64 : BitVec 64).setWidth 32).toNat =
          length.toNat := by
        rw [BitVec.toNat_setWidth, hword, Nat.mod_eq_of_lt length.isLt]
      refine ⟨hn.symm, rfl, congrArg some hoff, ?_, ?_, ?_, ?_⟩
      · exact fun e he => absurd he List.not_mem_nil
      · refine List.forall_mem_singleton.mpr ?_
        rw [hlength, hoff]
        omega
      · rw [setPages, pageRanges, pageRanges, hoff, hdown, hlength]
        exact .whole hlen .nil
      · unfold tableTotal setPages
        rw [List.map_singleton, List.sum_singleton, hlength]
    | succ n =>
      obtain ⟨page', rest, rfl⟩ : ∃ page' rest, pages = page' :: rest := by
        cases pages with
        | nil => cases hcount
        | cons page' rest => exact ⟨page', rest, rfl⟩
      have hmul := Nat.mul_add_one (2 ^ k) n
      have hmul' := Nat.mul_add_one (2 ^ k) (n + 1)
      have hfirst : ((pageBytes k).setWidth 32 - offsetInPage k uaddr).toNat =
          2 ^ k - uaddr.toNat % 2 ^ k := by
        have hbytes : ((pageBytes k).setWidth 32 : Word).toNat = 2 ^ k := by
          rw [BitVec.toNat_setWidth, pageBytes_toNat hk, Nat.mod_eq_of_lt hlt]
        rw [BitVec.toNat_sub_of_le (by rw [BitVec.le_def]; omega), hbytes, hoff]
      unfold setPages
      dsimp only
      generalize (pageBytes k).setWidth 32 - offsetInPage k uaddr = len at *
      have hwide : (len.setWidth 64 : BitVec 64).toNat = len.toNat := by
        rw [BitVec.toNat_setWidth, Nat.mod_eq_of_lt (by omega)]
      have hleft : (length.setWidth 64 - len.setWidth 64 : BitVec 64).toNat =
          length.toNat - len.toNat := by
        rw [BitVec.toNat_sub_of_le (by rw [BitVec.le_def]; omega), hword, hwide]
      have hrest := @setRest_splits k hk (page' :: rest)
        (roundDown (2 ^ k) uaddr.toNat + 2 ^ k) n
        (length.setWidth 64 - len.setWidth 64) (Nat.succ.inj hcount)
        (by omega) (by omega)
      have hcovers := hrest.covers
      have htotal := hrest.total
      have hlength := congrArg List.length hrest.pages
      rw [List.length_map] at hlength
      rw [hleft] at hcovers htotal
      refine ⟨?_, ?_, congrArg some hoff, hrest.later, ?_, ?_, ?_⟩
      · rw [hn, ← hcount, List.length_cons, hlength]
        rfl
      · rw [List.map_cons, hrest.pages]
      · refine List.forall_mem_cons.mpr ⟨?_, fun e he => ?_⟩
        · dsimp only
          omega
        · have hbounds := hrest.bounds e he
          have hzero := hrest.later e he
          omega
      · rw [pageRanges, hoff, hdown]
        have hstart : roundDown (2 ^ k) uaddr.toNat + 2 ^ k = uaddr.toNat + len.toNat := by
          omega
        have hsum : length.toNat = len.toNat + (length.toNat - len.toNat) := by omega
        rw [hstart] at hcovers ⊢
        rw [hsum]
        exact .cut (by omega) (by omega) hcovers
      · unfold tableTotal at htotal ⊢
        rw [List.map_cons, List.sum_cons, htotal]
        dsimp only
        omega

/-! ## The call -/

variable {env : SetupEnv} {n : Word} {uaddr : BitVec 64} {rw toUser : Bool}
  {pages : List Page}

/-- The array for the pages can be allocated, and all of them are obtained. -/
structure ObtainsAll (k : Nat) (env : SetupEnv) (n : Word) (uaddr : BitVec 64)
    (rw toUser : Bool) (pages : List Page) : Prop where
  array : env.kmallocPages = true
  got : (if toUser then env.getUserPages uaddr n rw else sglFillKernelPages k env uaddr n) =
    .ok pages
  all : pages.length = n.toNat

theorem sglMapUserPages_obtained (h : ObtainsAll k env n uaddr rw toUser pages)
    (length : BitVec 64) (s : DmaState) :
    sglMapUserPages k env n uaddr length rw toUser s = (.ok n, { s with
      sgl := setPages k uaddr length pages
      pins := if toUser then s.pins ++ pages else s.pins }) := by
  have hgot := h.got
  have hall := h.all
  unfold sglMapUserPages sglFillPages
  rw [if_pos h.array]
  cases toUser with
  | true =>
    simp only [if_true] at hgot ⊢
    simp only [hgot, hall, Nat.lt_irrefl, if_false]
  | false =>
    simp only [Bool.false_eq_true, if_false] at hgot ⊢
    simp only [hgot]

/-- For a buffer that is not empty, the entries that `sgl_map_user_pages()` makes of all
its pages cover it. -/
theorem sglMapUserPages_splits (hk : k < 32) {length : Word} (hlen : 0 < length.toNat)
    (h : ObtainsAll k env (nrPages k uaddr length) uaddr rw toUser pages) (s : DmaState) :
    ∃ s', sglMapUserPages k env (nrPages k uaddr length) uaddr (length.setWidth 64) rw
        toUser s = (.ok (nrPages k uaddr length), s') ∧
      Splits k uaddr length pages s'.sgl :=
  ⟨_, sglMapUserPages_obtained h _ s, setPages_splits hk hlen h.all⟩

end

/-- A kernel that has everything: the pages of a buffer are numbered by their address, and
those below 1 TB are mapped onto the bus where they are. -/
def plentyEnv (alloc : DmaAlloc 64) : SetupEnv where
  kmallocSgl := some fun _ => ⟨0, 0, 0⟩
  kmallocPages := true
  getUserPages uaddr n _ := .ok ((List.range n.toNat).map fun i => uaddr.toNat / 4096 + i)
  virtAddrValid _ := true
  virtToPage kaddr := kaddr.toNat / 4096
  pciMapSg table := table.map fun e =>
    ⟨BitVec.ofNat 64 (e.page % 2 ^ 28 * 4096 + e.offset.toNat), e.length⟩
  alloc := alloc
  most := by
    intro uaddr n rw pages h
    cases h
    exact Nat.le_of_eq (by rw [List.length_map, List.length_range])

/-- A pool that has nothing. -/
def emptyPool : DmaAlloc 64 where
  pool _ := none
  kmalloc _ := true

/-- 0x2020 bytes from the last 16 of a page on are in four pages. -/
theorem sglMapUserPages_splits_four :
    ∃ s', sglMapUserPages 12 (plentyEnv emptyPool) (nrPages 12 0x10ff0 0x2020) 0x10ff0 0x2020
        true true {} = (.ok (nrPages 12 0x10ff0 0x2020), s') ∧
      Splits 12 0x10ff0 0x2020 [0x10, 0x11, 0x12, 0x13] s'.sgl :=
  @sglMapUserPages_splits 12 (plentyEnv emptyPool) 0x10ff0 true true
    [0x10, 0x11, 0x12, 0x13] (by decide) 0x2020 (by decide) ⟨rfl, by decide, by decide⟩ {}

end Coht.Vmebridge
