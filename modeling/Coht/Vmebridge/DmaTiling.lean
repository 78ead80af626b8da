import Coht.Vmebridge.DmaLinks

/-!
# The descriptors tile the transfer

With the chain known to be the list of chunks, what is left is the arithmetic
of the loop. A block that would reach past the end of its entry is cut short
by the test `dma + len > dma_end`, and the sum on its left is taken in
`dma_addr_t`. Where that has 32 bits the sum can wrap, and then the block is
not cut: its descriptor transfers more than the entry holds.

`overrun` is how far the last block of an entry reaches past the entry's end
before it is cut, and `NoBusWrap` says that every entry has that much room
below `2 ^ w`. Under it the chunks of an entry tile the entry
(`chunks_cut`); without it the first block that should have been cut is too
long for any tiling (`chunks_not_tiles`). On a 64-bit `dma_addr_t` there is
always room.
-/

namespace Coht.Vmebridge

open Coht.Lib

variable {w : Nat}

/-! ## One block -/

def blockRoom (bshift v len : Nat) : Nat :=
  if bshift = 0 then len else 2 ^ bshift - v % 2 ^ bshift

theorem tsi148GetBshift_lt (desc : VmeDma) : tsi148GetBshift desc < 32 := by
  unfold tsi148GetBshift tsi148GetBshiftOf
  split <;> decide

theorem blockLen_toNat {bshift : Nat} (hb : bshift < 32) (vme len : Word) :
    (blockLen bshift vme len).toNat = blockRoom bshift vme.toNat len.toNat := by
  unfold blockLen blockRoom
  by_cases hzero : bshift = 0
  · rw [if_pos hzero, if_pos hzero]
  · rw [if_neg hzero, if_neg hzero]
    have hpos : 0 < 2 ^ bshift := Nat.two_pow_pos bshift
    have hlt : 2 ^ bshift < 2 ^ 32 := Nat.pow_lt_pow_right (by decide) hb
    have hsize : ((1#32 : Word) <<< bshift).toNat = 2 ^ bshift := by
      rw [BitVec.toNat_shiftLeft, Nat.shiftLeft_eq]
      show 1 * 2 ^ bshift % 2 ^ 32 = _
      rw [Nat.one_mul, Nat.mod_eq_of_lt hlt]
    have hmask : ((1#32 : Word) <<< bshift - 1).toNat = 2 ^ bshift - 1 := by
      rw [BitVec.toNat_sub, hsize]
      show (2 ^ 32 - 1 + 2 ^ bshift) % 2 ^ 32 = _
      omega
    have hrest : vme.toNat % 2 ^ bshift < 2 ^ bshift := Nat.mod_lt _ hpos
    dsimp only
    rw [BitVec.toNat_sub, hsize, toNat_and_low hmask]
    omega

theorem blockRoom_pos (bshift v : Nat) {len : Nat} (hlen : 0 < len) :
    0 < blockRoom bshift v len := by
  unfold blockRoom
  have hrest := Nat.mod_lt v (Nat.two_pow_pos bshift)
  split <;> omega

theorem chunkLen_toNat (hw : 32 ≤ w) {bshift m : Nat} (vme len : Word)
    {dma dmaEnd : BitVec w} (hm : m < 2 ^ 32)
    (hend : dma.toNat + m = dmaEnd.toNat) :
    (chunkLen bshift vme len dma dmaEnd).toNat =
      if m < (blockLen bshift vme len).toNat ∧
          dma.toNat + (blockLen bshift vme len).toNat < 2 ^ w then m
      else (blockLen bshift vme len).toNat := by
  unfold chunkLen
  dsimp only
  generalize blockLen bshift vme len = n
  have hn : n.toNat < 2 ^ 32 := n.isLt
  have hpow : 2 ^ 32 ≤ 2 ^ w := Nat.pow_le_pow_right (by decide) hw
  have hdma : dmaEnd.toNat < 2 ^ w := dmaEnd.isLt
  have hwide : (n.setWidth w).toNat = n.toNat := by
    rw [BitVec.toNat_setWidth, Nat.mod_eq_of_lt (by omega)]
  have hdiff : ((dmaEnd - dma).setWidth 32).toNat = m := by
    rw [BitVec.toNat_setWidth, BitVec.toNat_sub_of_le, ← hend,
      Nat.add_sub_cancel_left, Nat.mod_eq_of_lt hm]
    rw [BitVec.le_def]
    omega
  by_cases hwrap : dma.toNat + n.toNat < 2 ^ w
  · have hsum : (dma + n.setWidth w).toNat = dma.toNat + n.toNat := by
      rw [BitVec.toNat_add, hwide, Nat.mod_eq_of_lt hwrap]
    by_cases hcut : m < n.toNat
    · rw [if_pos (by rw [BitVec.lt_def]; omega), if_pos ⟨hcut, hwrap⟩, hdiff]
    · rw [if_neg (by rw [BitVec.lt_def]; omega),
        if_neg fun h => hcut h.1]
  · have hsum : (dma + n.setWidth w).toNat = dma.toNat + n.toNat - 2 ^ w := by
      rw [BitVec.toNat_add, hwide, Nat.mod_eq_sub_mod (by omega),
        Nat.mod_eq_of_lt (by omega)]
    rw [if_neg (by rw [BitVec.lt_def]; omega), if_neg fun h => hwrap h.2]

/-! ## The last block of an entry -/

/-- How far the last block of `m` bytes at `v` would reach past them. With
`novmeinc` every block starts at `v`. -/
def overrun (desc : VmeDma) (v m : Nat) : Nat :=
  let bsize := 2 ^ tsi148GetBshift desc
  if desc.novmeinc = 0 then padTo bsize (v + m)
  else padTo (bsize - v % bsize) m

theorem overrun_lt (desc : VmeDma) (v m : Nat) : overrun desc v m < 2 ^ 32 := by
  have hlt : 2 ^ tsi148GetBshift desc < 2 ^ 32 :=
    Nat.pow_lt_pow_right (by decide) (tsi148GetBshift_lt desc)
  have hpos := Nat.two_pow_pos (tsi148GetBshift desc)
  have hrest := Nat.mod_lt v hpos
  unfold overrun
  dsimp only
  split
  · exact Nat.lt_trans (padTo_lt hpos _) hlt
  · have := padTo_lt (b := 2 ^ tsi148GetBshift desc -
      v % 2 ^ tsi148GetBshift desc) (by omega) m
    omega

/-- Where the next block starts. -/
def vmeNext (desc : VmeDma) (v n : Nat) : Nat :=
  if desc.novmeinc = 0 then v + n else v

theorem overrun_of_le {desc : VmeDma} {v m : Nat} (hm : 0 < m)
    (hle : m ≤ blockRoom (tsi148GetBshift desc) v m) :
    overrun desc v m = blockRoom (tsi148GetBshift desc) v m - m := by
  unfold overrun blockRoom at *
  generalize tsi148GetBshift desc = k at *
  have hrest := Nat.mod_lt v (Nat.two_pow_pos k)
  by_cases hzero : k = 0
  · subst hzero
    simp [padTo, Nat.mod_one]
  · rw [if_neg hzero] at hle ⊢
    split
    · rw [← padTo_mod_add, padTo_of_le (by omega) (by omega)]
      omega
    · exact padTo_of_le hm hle

theorem overrun_step {desc : VmeDma} {v m : Nat}
    (hlt : blockRoom (tsi148GetBshift desc) v m < m) :
    overrun desc (vmeNext desc v (blockRoom (tsi148GetBshift desc) v m))
        (m - blockRoom (tsi148GetBshift desc) v m) =
      overrun desc v m := by
  unfold blockRoom at *
  split at hlt
  · exact absurd hlt (Nat.lt_irrefl m)
  · next hzero =>
    rw [if_neg hzero]
    unfold overrun vmeNext
    dsimp only
    split
    · congr 1
      omega
    · exact padTo_sub (Nat.le_of_lt hlt)

/-! ## The passes over one entry -/

structure Cursor (desc : VmeDma) (vmeEnd : Word) (dmaEnd : BitVec w)
    (vme : Word) (dma : BitVec w) (len : Word) (m : Nat) : Prop where
  pos : 0 < m
  small : m < 2 ^ 32
  moving : desc.novmeinc = 0 → vme.toNat + m = vmeEnd.toNat
  fixed : desc.novmeinc ≠ 0 → vme.toNat < vmeEnd.toNat
  bus : dma.toNat + m = dmaEnd.toNat
  -- Without blocks the first pass takes everything.
  whole : tsi148GetBshift desc = 0 → len.toNat = m

section Loop

variable {desc : VmeDma} {vmeEnd vme len : Word} {dmaEnd dma : BitVec w}
  {m fuel : Nat}

theorem Cursor.guard (h : Cursor desc vmeEnd dmaEnd vme dma len m) :
    vme < vmeEnd ∧ dma < dmaEnd := by
  have hpos := h.pos
  have hbus := h.bus
  rw [BitVec.lt_def, BitVec.lt_def]
  refine ⟨?_, by omega⟩
  by_cases hinc : desc.novmeinc = 0
  · have := h.moving hinc
    omega
  · exact h.fixed hinc

theorem Cursor.blockLen_eq (h : Cursor desc vmeEnd dmaEnd vme dma len m) :
    (blockLen (tsi148GetBshift desc) vme len).toNat =
      blockRoom (tsi148GetBshift desc) vme.toNat m := by
  rw [blockLen_toNat (tsi148GetBshift_lt desc)]
  unfold blockRoom
  split
  · next hzero => exact h.whole hzero
  · rfl

theorem Cursor.chunkLen_of_lt (hw : 32 ≤ w)
    (h : Cursor desc vmeEnd dmaEnd vme dma len m)
    (hlt : blockRoom (tsi148GetBshift desc) vme.toNat m < m) :
    (chunkLen (tsi148GetBshift desc) vme len dma dmaEnd).toNat =
      blockRoom (tsi148GetBshift desc) vme.toNat m := by
  rw [chunkLen_toNat hw vme len h.small h.bus, h.blockLen_eq, if_neg]
  omega

theorem Cursor.chunkLen_of_room (hw : 32 ≤ w)
    (h : Cursor desc vmeEnd dmaEnd vme dma len m)
    (hle : m ≤ blockRoom (tsi148GetBshift desc) vme.toNat m)
    (hroom : dmaEnd.toNat + overrun desc vme.toNat m < 2 ^ w) :
    (chunkLen (tsi148GetBshift desc) vme len dma dmaEnd).toNat = m := by
  have hbus := h.bus
  rw [overrun_of_le h.pos hle] at hroom
  rw [chunkLen_toNat hw vme len h.small h.bus, h.blockLen_eq]
  split <;> omega

theorem Cursor.chunkLen_of_wrap (hw : 32 ≤ w)
    (h : Cursor desc vmeEnd dmaEnd vme dma len m)
    (hle : m ≤ blockRoom (tsi148GetBshift desc) vme.toNat m)
    (hroom : ¬ dmaEnd.toNat + overrun desc vme.toNat m < 2 ^ w) :
    m < (chunkLen (tsi148GetBshift desc) vme len dma dmaEnd).toNat := by
  have hbus := h.bus
  have hend := dmaEnd.isLt
  rw [overrun_of_le h.pos hle] at hroom
  rw [chunkLen_toNat hw vme len h.small h.bus, h.blockLen_eq]
  split <;> omega

theorem vmeAfter_toNat {n : Word} (h : desc.novmeinc = 0 →
    vme.toNat + n.toNat < 2 ^ 32) :
    (desc.vmeAfter vme n).toNat = vmeNext desc vme.toNat n.toNat := by
  unfold VmeDma.vmeAfter vmeNext
  split
  · next hinc => rw [BitVec.toNat_add, Nat.mod_eq_of_lt (h hinc)]
  · rfl

theorem dmaAfter_toNat (hw : 32 ≤ w) {n : Word}
    (h : dma.toNat + n.toNat < 2 ^ w) :
    (dma + n.setWidth w).toNat = dma.toNat + n.toNat := by
  have hpow : 2 ^ 32 ≤ 2 ^ w := Nat.pow_le_pow_right (by decide) hw
  have hn : n.toNat < 2 ^ 32 := n.isLt
  rw [BitVec.toNat_add, BitVec.toNat_setWidth,
    Nat.mod_eq_of_lt (Nat.lt_of_lt_of_le hn hpow), Nat.mod_eq_of_lt h]

theorem Cursor.vmeAfter_eq (h : Cursor desc vmeEnd dmaEnd vme dma len m)
    {n : Word} (hn : n.toNat < m) :
    (desc.vmeAfter vme n).toNat = vmeNext desc vme.toNat n.toNat := by
  refine vmeAfter_toNat fun hinc => ?_
  have := h.moving hinc
  have := vmeEnd.isLt
  omega

theorem Cursor.after (hw : 32 ≤ w)
    (h : Cursor desc vmeEnd dmaEnd vme dma len m) {n : Word}
    (hn : n.toNat < m) (hblocks : tsi148GetBshift desc ≠ 0) :
    Cursor desc vmeEnd dmaEnd (desc.vmeAfter vme n) (dma + n.setWidth w) n
      (m - n.toNat) := by
  have hbus := h.bus
  have hend := dmaEnd.isLt
  have hsmall := h.small
  have hvme := h.vmeAfter_eq hn
  refine ⟨by omega, by omega, ?_, ?_, ?_, fun hzero => absurd hzero hblocks⟩
  · intro hinc
    have := h.moving hinc
    rw [hvme]
    unfold vmeNext
    rw [if_pos hinc]
    omega
  · intro hinc
    rw [hvme]
    unfold vmeNext
    rw [if_neg hinc]
    exact h.fixed hinc
  · rw [dmaAfter_toNat hw (by omega)]
    omega

theorem Cursor.step (hw : 32 ≤ w)
    (h : Cursor desc vmeEnd dmaEnd vme dma len m)
    (hlt : blockRoom (tsi148GetBshift desc) vme.toNat m < m) {n : Word}
    (hn : chunkLen (tsi148GetBshift desc) vme len dma dmaEnd = n) :
    n.toNat = blockRoom (tsi148GetBshift desc) vme.toNat m ∧
      Cursor desc vmeEnd dmaEnd (desc.vmeAfter vme n) (dma + n.setWidth w) n
        (m - n.toNat) ∧
      overrun desc (desc.vmeAfter vme n).toNat (m - n.toNat) =
        overrun desc vme.toNat m := by
  have hroom : n.toNat = blockRoom (tsi148GetBshift desc) vme.toNat m := by
    rw [← hn, h.chunkLen_of_lt hw hlt]
  have hblocks : tsi148GetBshift desc ≠ 0 := by
    intro hzero
    unfold blockRoom at hlt
    rw [if_pos hzero] at hlt
    exact Nat.lt_irrefl m hlt
  refine ⟨hroom, h.after hw (by omega) hblocks, ?_⟩
  rw [h.vmeAfter_eq (by omega), hroom]
  exact overrun_step hlt

theorem Cursor.chunks_succ (h : Cursor desc vmeEnd dmaEnd vme dma len m)
    (fuel : Nat) {n : Word}
    (hn : chunkLen (tsi148GetBshift desc) vme len dma dmaEnd = n) :
    chunks desc (tsi148GetBshift desc) vmeEnd dmaEnd (fuel + 1) vme dma len =
      (chunks desc (tsi148GetBshift desc) vmeEnd dmaEnd fuel
        (desc.vmeAfter vme n) (dma + n.setWidth w) n).map
          (⟨vme, dma, n⟩ :: ·) := by
  rw [chunks.eq_2, if_pos h.guard]
  dsimp only
  rw [hn]

theorem chunks_end {bshift : Nat} {cs : List (Chunk w)}
    (hend : dma = dmaEnd)
    (hcs : chunks desc bshift vmeEnd dmaEnd fuel vme dma len = some cs) :
    cs = [] := by
  cases fuel with
  | zero => cases hcs
  | succ fuel =>
    rw [chunks.eq_2, if_neg] at hcs
    · cases hcs
      rfl
    · rw [hend, BitVec.lt_def, BitVec.lt_def]
      omega

theorem Cursor.last (hw : 32 ≤ w)
    (h : Cursor desc vmeEnd dmaEnd vme dma len m)
    (hle : m ≤ blockRoom (tsi148GetBshift desc) vme.toNat m)
    (hroom : dmaEnd.toNat + overrun desc vme.toNat m < 2 ^ w) {n : Word}
    (hn : chunkLen (tsi148GetBshift desc) vme len dma dmaEnd = n) :
    n.toNat = m ∧ dma + n.setWidth w = dmaEnd := by
  have hm : n.toNat = m := by
    rw [← hn, h.chunkLen_of_room hw hle hroom]
  have hbus := h.bus
  have hend := dmaEnd.isLt
  refine ⟨hm, BitVec.eq_of_toNat_eq ?_⟩
  rw [dmaAfter_toNat hw (by omega), hm, hbus]

theorem chunks_isSome (hw : 32 ≤ w)
    (h : Cursor desc vmeEnd dmaEnd vme dma len m)
    (hroom : dmaEnd.toNat + overrun desc vme.toNat m < 2 ^ w)
    (hfuel : m < fuel) :
    ∃ cs, chunks desc (tsi148GetBshift desc) vmeEnd dmaEnd fuel vme dma len =
      some cs := by
  induction fuel generalizing vme dma len m with
  | zero => omega
  | succ fuel ih =>
    have hpos := h.pos
    generalize hn : chunkLen (tsi148GetBshift desc) vme len dma dmaEnd = n
    rw [h.chunks_succ fuel hn]
    rcases Nat.lt_or_ge (blockRoom (tsi148GetBshift desc) vme.toNat m) m with
      hlt | hle
    · obtain ⟨hlen, hnext, hover⟩ := h.step hw hlt hn
      have hblock := blockRoom_pos (tsi148GetBshift desc) vme.toNat hpos
      rw [← hover] at hroom
      obtain ⟨cs, hcs⟩ := ih hnext hroom (by omega)
      exact ⟨⟨vme, dma, n⟩ :: cs, by rw [hcs]; rfl⟩
    · obtain ⟨_, hend⟩ := h.last hw hle hroom hn
      obtain ⟨fuel, rfl⟩ : ∃ f, fuel = f + 1 := ⟨fuel - 1, by omega⟩
      refine ⟨[⟨vme, dma, n⟩], ?_⟩
      rw [chunks.eq_2, if_neg]
      · rfl
      · rw [hend, BitVec.lt_def, BitVec.lt_def]
        omega

structure Cut (desc : VmeDma) (v a m : Nat) (cs : List (Chunk w)) : Prop where
  bus : Tiles [⟨a, m⟩] (cs.map Chunk.busRange)
  vme : desc.novmeinc = 0 → Tiles [⟨v, m⟩] (cs.map Chunk.vmeRange)
  fixed : desc.novmeinc ≠ 0 → ∀ ch ∈ cs, ch.vme.toNat = v
  within : tsi148GetBshift desc ≠ 0 → ∀ ch ∈ cs,
    ch.vme.toNat % 2 ^ tsi148GetBshift desc + ch.len.toNat ≤
      2 ^ tsi148GetBshift desc

theorem Cut.cons {v a n : Nat} {ch : Chunk w} {cs : List (Chunk w)}
    (hbus : ch.busRange = ⟨a, n⟩) (hvme : ch.vmeRange = ⟨v, n⟩) (hn : 0 < n)
    (hlt : n < m)
    (hwithin : tsi148GetBshift desc ≠ 0 →
      v % 2 ^ tsi148GetBshift desc + n ≤ 2 ^ tsi148GetBshift desc)
    (h : Cut desc (vmeNext desc v n) (a + n) (m - n) cs) :
    Cut desc v a m (ch :: cs) := by
  obtain ⟨hv, hl⟩ : ch.vme.toNat = v ∧ ch.len.toNat = n := by
    simpa [Chunk.vmeRange] using hvme
  have hm : m = n + (m - n) := by omega
  refine ⟨?_, fun hinc => ?_, fun hinc => ?_, fun hblocks => ?_⟩
  · rw [List.map_cons, hbus, hm]
    exact .cut hn (by omega) h.bus
  · have hrest := h.vme hinc
    unfold vmeNext at hrest
    rw [if_pos hinc] at hrest
    rw [List.map_cons, hvme, hm]
    exact .cut hn (by omega) hrest
  · have hrest := h.fixed hinc
    unfold vmeNext at hrest
    rw [if_neg hinc] at hrest
    exact List.forall_mem_cons.mpr ⟨hv, hrest⟩
  · refine List.forall_mem_cons.mpr ⟨?_, h.within hblocks⟩
    rw [hv, hl]
    exact hwithin hblocks

theorem Cut.single {v a : Nat} {ch : Chunk w}
    (hbus : ch.busRange = ⟨a, m⟩) (hvme : ch.vmeRange = ⟨v, m⟩) (hm : 0 < m)
    (hwithin : tsi148GetBshift desc ≠ 0 →
      v % 2 ^ tsi148GetBshift desc + m ≤ 2 ^ tsi148GetBshift desc) :
    Cut desc v a m [ch] := by
  obtain ⟨hv, hl⟩ : ch.vme.toNat = v ∧ ch.len.toNat = m := by
    simpa [Chunk.vmeRange] using hvme
  refine ⟨?_, fun _ => ?_, fun _ => ?_, fun hblocks => ?_⟩
  · rw [List.map_singleton, hbus]
    exact .whole hm .nil
  · rw [List.map_singleton, hvme]
    exact .whole hm .nil
  · simpa using hv
  · rw [List.forall_mem_singleton, hv, hl]
    exact hwithin hblocks

theorem chunks_cut (hw : 32 ≤ w) {cs : List (Chunk w)}
    (h : Cursor desc vmeEnd dmaEnd vme dma len m)
    (hlow : dmaEnd.toNat ≤ 2 ^ 32)
    (hroom : dmaEnd.toNat + overrun desc vme.toNat m < 2 ^ w)
    (hcs : chunks desc (tsi148GetBshift desc) vmeEnd dmaEnd fuel vme dma len =
      some cs) :
    cs ≠ [] ∧ busEnd dma cs = dmaEnd ∧ Cut desc vme.toNat dma.toNat m cs := by
  induction fuel generalizing vme dma len m cs with
  | zero => cases hcs
  | succ fuel ih =>
    have hpos := h.pos
    have hbus := h.bus
    have hend := dmaEnd.isLt
    have hmod := Nat.mod_lt vme.toNat (Nat.two_pow_pos (tsi148GetBshift desc))
    generalize hn : chunkLen (tsi148GetBshift desc) vme len dma dmaEnd = n
    rw [h.chunks_succ fuel hn, Option.map_eq_some_iff] at hcs
    obtain ⟨cs, hcs, rfl⟩ := hcs
    have hrange : Chunk.busRange ⟨vme, dma, n⟩ = ⟨dma.toNat, n.toNat⟩ := by
      show (⟨(dma.setWidth 32).toNat, n.toNat⟩ : Seg) = _
      rw [BitVec.toNat_setWidth, Nat.mod_eq_of_lt (by omega)]
    refine ⟨List.cons_ne_nil _ _, ?_⟩
    rcases Nat.lt_or_ge (blockRoom (tsi148GetBshift desc) vme.toNat m) m with
      hlt | hle
    · obtain ⟨hlen, hnext, hover⟩ := h.step hw hlt hn
      have hblock := blockRoom_pos (tsi148GetBshift desc) vme.toNat hpos
      rw [← hover] at hroom
      obtain ⟨_, hdone, hcut⟩ := ih hnext hroom hcs
      rw [h.vmeAfter_eq (by omega), dmaAfter_toNat hw (by omega)] at hcut
      refine ⟨hdone, .cons hrange rfl (by omega) (by omega) ?_ hcut⟩
      intro hblocks
      unfold blockRoom at hlen
      rw [if_neg hblocks] at hlen
      omega
    · obtain ⟨hlen, hdone⟩ := h.last hw hle hroom hn
      obtain rfl := chunks_end hdone hcs
      rw [hlen] at hrange
      refine ⟨hdone, .single hrange (by rw [← hlen]; rfl) hpos ?_⟩
      intro hblocks
      unfold blockRoom at hle
      rw [if_neg hblocks] at hle
      omega

theorem chunks_not_tiles (hw : 32 ≤ w) {cs : List (Chunk w)} {x : Nat}
    {ss ps : List Seg} (h : Cursor desc vmeEnd dmaEnd vme dma len m)
    (hroom : ¬ dmaEnd.toNat + overrun desc vme.toNat m < 2 ^ w)
    (hcs : chunks desc (tsi148GetBshift desc) vmeEnd dmaEnd fuel vme dma len =
      some cs) :
    ¬ Tiles (⟨x, m⟩ :: ss) (cs.map Chunk.busRange ++ ps) := by
  induction fuel generalizing vme dma len m cs x with
  | zero => cases hcs
  | succ fuel ih =>
    intro ht
    generalize hn : chunkLen (tsi148GetBshift desc) vme len dma dmaEnd = n
    rw [h.chunks_succ fuel hn, Option.map_eq_some_iff] at hcs
    obtain ⟨cs, hcs, rfl⟩ := hcs
    rw [List.map_cons, List.cons_append] at ht
    rcases Nat.lt_or_ge (blockRoom (tsi148GetBshift desc) vme.toNat m) m with
      hlt | hle
    · obtain ⟨hlen, hnext, hover⟩ := h.step hw hlt hn
      rw [← hover] at hroom
      have hshort : n.toNat < m := by omega
      exact ih hnext hroom hcs (ht.rest_of_lt hshort)
    · have hlong := h.chunkLen_of_wrap hw hle hroom
      rw [hn] at hlong
      have hle' : n.toNat ≤ m := ht.len_le
      omega

end Loop

/-! ## The entries -/

/-- The length of the whole transfer. -/
def sgTotal : List (SgEntry w) → Nat
  | [] => 0
  | sg :: sgl => sg.dmaLen.toNat + sgTotal sgl

/-- Each entry and the block its end lies in are below the end of the bus
address space. -/
def NoBusWrap (desc : VmeDma) : Nat → List (SgEntry w) → Prop
  | _, [] => True
  | v, sg :: sgl =>
    sg.dmaAddress.toNat + sg.dmaLen.toNat + overrun desc v sg.dmaLen.toNat <
        2 ^ w ∧
      NoBusWrap desc (vmeNext desc v sg.dmaLen.toNat) sgl

structure ChainCut (desc : VmeDma) (v : Nat) (sgl : List (SgEntry w))
    (cs : List (Chunk w)) : Prop where
  bus : Tiles (sgl.map SgEntry.busRange) (cs.map Chunk.busRange)
  vme : desc.novmeinc = 0 → sgl ≠ [] →
    Tiles [⟨v, sgTotal sgl⟩] (cs.map Chunk.vmeRange)
  fixed : desc.novmeinc ≠ 0 → ∀ ch ∈ cs, ch.vme.toNat = v
  within : tsi148GetBshift desc ≠ 0 → ∀ ch ∈ cs,
    ch.vme.toNat % 2 ^ tsi148GetBshift desc + ch.len.toNat ≤
      2 ^ tsi148GetBshift desc

section Entries

variable {desc : VmeDma} {v : Word} {sg : SgEntry w} {sgl : List (SgEntry w)}
  {fuel : Nat}

theorem sgTotal_cons (sg : SgEntry w) (sgl : List (SgEntry w)) :
    sgTotal (sg :: sgl) = sg.dmaLen.toNat + sgTotal sgl := rfl

theorem sgTotal_pos (hne : sgl ≠ []) (hpos : ∀ sg ∈ sgl, 0 < sg.dmaLen.toNat) :
    0 < sgTotal sgl := by
  cases sgl with
  | nil => exact absurd rfl hne
  | cons sg sgl =>
    have := hpos sg List.mem_cons_self
    rw [sgTotal_cons]
    omega

theorem Cursor.start (hw : 32 ≤ w) (hpos : 0 < sg.dmaLen.toNat)
    (hvme : v.toNat + sg.dmaLen.toNat < 2 ^ 32)
    (hbus : sg.dmaAddress.toNat + sg.dmaLen.toNat < 2 ^ w) :
    Cursor desc (v + sg.dmaLen) (sg.dmaAddress + sg.dmaLen.setWidth w) v
      sg.dmaAddress sg.dmaLen sg.dmaLen.toNat := by
  have hend : (v + sg.dmaLen).toNat = v.toNat + sg.dmaLen.toNat := by
    rw [BitVec.toNat_add, Nat.mod_eq_of_lt hvme]
  refine ⟨hpos, sg.dmaLen.isLt, fun _ => hend.symm, fun _ => ?_,
    (dmaAfter_toNat hw hbus).symm, fun _ => rfl⟩
  omega

theorem vmeAfter_add_sgTotal_lt (desc : VmeDma)
    (hvme : v.toNat + sgTotal (sg :: sgl) < 2 ^ 32) :
    (desc.vmeAfter v sg.dmaLen).toNat =
        vmeNext desc v.toNat sg.dmaLen.toNat ∧
      (desc.vmeAfter v sg.dmaLen).toNat + sgTotal sgl < 2 ^ 32 := by
  rw [sgTotal_cons] at hvme
  have heq : (desc.vmeAfter v sg.dmaLen).toNat =
      vmeNext desc v.toNat sg.dmaLen.toNat :=
    vmeAfter_toNat fun _ => by omega
  refine ⟨heq, ?_⟩
  rw [heq]
  unfold vmeNext
  split <;> omega

theorem ChainCut.cons {v a m : Nat} {cs rest : List (Chunk w)}
    (hsg : sg.busRange = ⟨a, m⟩) (hpos : ∀ sg ∈ sgl, 0 < sg.dmaLen.toNat)
    (h : Cut desc v a m cs) (hrest : ChainCut desc (vmeNext desc v m) sgl rest) :
    ChainCut desc v (sg :: sgl) (cs ++ rest) := by
  obtain ⟨_, hm⟩ : sg.dmaAddress.toNat = a ∧ sg.dmaLen.toNat = m := by
    simpa [SgEntry.busRange] using hsg
  refine ⟨?_, fun hinc _ => ?_, fun hinc => ?_, fun hblocks => ?_⟩
  · rw [List.map_append, List.map_cons, hsg]
    exact h.bus.append hrest.bus
  · have hfirst := h.vme hinc
    have hnext : vmeNext desc v m = v + m := by
      unfold vmeNext
      rw [if_pos hinc]
    rw [List.map_append, sgTotal_cons, hm]
    by_cases hs : sgl = []
    · subst hs
      have hnil := hrest.bus
      generalize hps : rest.map Chunk.busRange = ps at hnil
      cases hnil
      obtain rfl := List.map_eq_nil_iff.mp hps
      rw [List.map_nil, List.append_nil]
      exact hfirst
    · have hmore := hrest.vme hinc hs
      rw [hnext] at hmore
      exact hfirst.join hmore (sgTotal_pos hs hpos)
  · have hmore := hrest.fixed hinc
    unfold vmeNext at hmore
    rw [if_neg hinc] at hmore
    exact List.forall_mem_append.mpr ⟨h.fixed hinc, hmore⟩
  · exact List.forall_mem_append.mpr ⟨h.within hblocks, hrest.within hblocks⟩

theorem chainChunks_of_noBusWrap (hw : 32 ≤ w) (hfuel : 2 ^ 32 ≤ fuel)
    (hpos : ∀ sg ∈ sgl, 0 < sg.dmaLen.toNat)
    (hlow : ∀ sg ∈ sgl, sg.dmaAddress.toNat + sg.dmaLen.toNat ≤ 2 ^ 32)
    (hvme : v.toNat + sgTotal sgl < 2 ^ 32)
    (hroom : NoBusWrap desc v.toNat sgl) :
    ∃ cs, ChainChunks desc fuel v sgl cs ∧ ChainCut desc v.toNat sgl cs := by
  induction sgl generalizing v with
  | nil =>
    refine ⟨[], .nil, .nil, ?_, ?_, ?_⟩
    · exact fun _ hne => absurd rfl hne
    · simp
    · simp
  | cons sg sgl ih =>
    obtain ⟨hfit, hroom⟩ := hroom
    obtain ⟨heq, hvme'⟩ := vmeAfter_add_sgTotal_lt desc hvme
    rw [sgTotal_cons] at hvme
    have hbus : sg.dmaAddress.toNat + sg.dmaLen.toNat < 2 ^ w := by omega
    have hcursor : Cursor desc _ _ v sg.dmaAddress sg.dmaLen _ :=
      .start hw (hpos sg List.mem_cons_self) (by omega) hbus
    rw [← dmaAfter_toNat hw hbus] at hfit
    have hsmall := hcursor.small
    obtain ⟨cs, hcs⟩ := chunks_isSome hw hcursor hfit
      (Nat.lt_of_lt_of_le hsmall hfuel)
    have hend := hlow sg List.mem_cons_self
    rw [← dmaAfter_toNat hw hbus] at hend
    obtain ⟨hne, hdone, hcut⟩ := chunks_cut hw hcursor hend hfit hcs
    rw [← heq] at hroom
    have hpos' := fun s hs => hpos s (List.mem_cons_of_mem sg hs)
    obtain ⟨rest, hchunks, hrest⟩ := ih hpos'
      (fun s hs => hlow s (List.mem_cons_of_mem sg hs)) hvme' hroom
    rw [heq] at hrest
    refine ⟨cs ++ rest, .cons hcs hne (fun _ => ?_) hchunks,
      .cons rfl hpos' hcut hrest⟩
    rw [hdone, BitVec.lt_def]
    omega

theorem entryChunks_entered (hw : 32 ≤ w) {cs : List (Chunk w)}
    (hcs : entryChunks desc fuel v sg = some cs) (hne : cs ≠ [])
    (hlow : sg.dmaAddress.toNat + sg.dmaLen.toNat ≤ 2 ^ 32) :
    sg.dmaAddress.toNat + sg.dmaLen.toNat < 2 ^ w := by
  have hpow : 2 ^ 32 ≤ 2 ^ w := Nat.pow_le_pow_right (by decide) hw
  have hlen := sg.dmaLen.isLt
  by_contra hwrap
  have hend : (sg.dmaAddress + sg.dmaLen.setWidth w).toNat = 0 := by
    rw [BitVec.toNat_add, BitVec.toNat_setWidth,
      Nat.mod_eq_of_lt (by omega : sg.dmaLen.toNat < 2 ^ w),
      show sg.dmaAddress.toNat + sg.dmaLen.toNat = 2 ^ w by omega,
      Nat.mod_self]
  unfold entryChunks at hcs
  cases fuel with
  | zero => cases hcs
  | succ fuel =>
    rw [chunks.eq_2, if_neg] at hcs
    · exact hne (Option.some.inj hcs).symm
    · rw [BitVec.lt_def, BitVec.lt_def]
      omega

theorem noBusWrap_of_tiles (hw : 32 ≤ w) {cs : List (Chunk w)}
    (h : ChainChunks desc fuel v sgl cs)
    (hpos : ∀ sg ∈ sgl, 0 < sg.dmaLen.toNat)
    (hlow : ∀ sg ∈ sgl, sg.dmaAddress.toNat + sg.dmaLen.toNat ≤ 2 ^ 32)
    (hvme : v.toNat + sgTotal sgl < 2 ^ 32)
    (ht : Tiles (sgl.map SgEntry.busRange) (cs.map Chunk.busRange)) :
    NoBusWrap desc v.toNat sgl := by
  induction h with
  | nil => trivial
  | @cons v sg sgl cs rest hcs hne _ _ ih =>
    obtain ⟨heq, hvme'⟩ := vmeAfter_add_sgTotal_lt desc hvme
    rw [sgTotal_cons] at hvme
    have hend := hlow sg List.mem_cons_self
    have hbus := entryChunks_entered hw hcs hne hend
    have hcursor : Cursor desc _ _ v sg.dmaAddress sg.dmaLen _ :=
      .start hw (hpos sg List.mem_cons_self) (by omega) hbus
    rw [List.map_append, List.map_cons] at ht
    have hfit : sg.dmaAddress.toNat + sg.dmaLen.toNat +
        overrun desc v.toNat sg.dmaLen.toNat < 2 ^ w := by
      by_contra hroom
      rw [← dmaAfter_toNat hw hbus] at hroom
      exact chunks_not_tiles hw hcursor hroom hcs ht
    refine ⟨hfit, ?_⟩
    rw [← dmaAfter_toNat hw hbus] at hfit hend
    obtain ⟨_, _, hcut⟩ := chunks_cut hw hcursor hend hfit hcs
    rw [← heq]
    exact ih (fun s hs => hpos s (List.mem_cons_of_mem sg hs))
      (fun s hs => hlow s (List.mem_cons_of_mem sg hs)) hvme'
      (hcut.bus.cancel ht)

theorem noBusWrap_of_wide (hw : 33 ≤ w) {v : Nat}
    (hlow : ∀ sg ∈ sgl, sg.dmaAddress.toNat + sg.dmaLen.toNat ≤ 2 ^ 32) :
    NoBusWrap desc v sgl := by
  have hpow : 2 ^ 33 ≤ 2 ^ w := Nat.pow_le_pow_right (by decide) hw
  induction sgl generalizing v with
  | nil => trivial
  | cons sg sgl ih =>
    have hend := hlow sg List.mem_cons_self
    have := overrun_lt desc v sg.dmaLen.toNat
    exact ⟨by omega, ih fun s hs => hlow s (List.mem_cons_of_mem sg hs)⟩

end Entries

/-! ## The chain in memory -/

/-- The block transfer modifiers, and those of multiplexed block transfers. -/
def VmeAddressModifier.isBlt : VmeAddressModifier → Bool
  | .a64Blt | .a32UserBlt | .a32SupBlt | .a40Blt | .a24UserBlt
  | .a24SupBlt => true
  | _ => false

def VmeAddressModifier.isMblt : VmeAddressModifier → Bool
  | .a64Mblt | .a32UserMblt | .a32SupMblt | .a24UserMblt | .a24SupMblt => true
  | _ => false

/-- The first and the last byte of the range are in one block of `b` bytes. -/
def WithinBlock (b : Nat) (s : Seg) : Prop :=
  s.start / b = (s.start + s.len - 1) / b

/-- The descriptors the bridge visits from the link registers on tile the
transfer. -/
structure ChainTiles (desc : VmeDma) (start : Nat) (sgl : List (SgEntry w))
    (c : DmaChain w) (visited : List Nat) : Prop where
  walk : c.pointers.Walk (c.dnlau, c.dnlal) visited
  once : ∀ va ∈ visited, c.filled.count va = 1
  distinct : visited.Nodup
  positive : ∀ va ∈ visited, 0 < (c.mem va).dcnt.toNat
  bus : Tiles (sgl.map SgEntry.busRange)
    (visited.map fun va => (c.mem va).busRange desc.dir)
  vme : desc.novmeinc = 0 → Tiles [⟨start, sgTotal sgl⟩]
    (visited.map fun va => (c.mem va).vmeRange desc.dir)
  blt : desc.novmeinc = 0 → desc.vmeAm.isBlt = true →
    ∀ va ∈ visited, WithinBlock 256 ((c.mem va).vmeRange desc.dir)
  mblt : desc.novmeinc = 0 → desc.vmeAm.isMblt = true →
    ∀ va ∈ visited, WithinBlock 2048 ((c.mem va).vmeRange desc.dir)
  fixed : desc.novmeinc ≠ 0 →
    ∀ va ∈ visited, ((c.mem va).vmeRange desc.dir).start = start

theorem tsi148GetBshiftOf_blt {am : VmeAddressModifier}
    (h : am.isBlt = true) : tsi148GetBshiftOf am = 8 := by
  cases am <;> first | rfl | cases h

theorem tsi148GetBshiftOf_mblt {am : VmeAddressModifier}
    (h : am.isMblt = true) : tsi148GetBshiftOf am = 11 := by
  cases am <;> first | rfl | cases h

section Memory

variable {alloc : DmaAlloc w} {desc : VmeDma} {v dsat ddat : Word}
  {sgl : List (SgEntry w)} {c c' : DmaChain w} {first : Word × Word}
  {steps : List (Nat × Chunk w)}

theorem Built.map_busRange (h : Built desc first c steps) :
    (steps.map Prod.fst).map (fun va => (c.mem va).busRange desc.dir) =
      (steps.map Prod.snd).map Chunk.busRange := by
  rw [List.map_map, List.map_map]
  exact List.map_congr_left fun p hp => h.bus p hp

theorem Built.map_vmeRange (h : Built desc first c steps) :
    (steps.map Prod.fst).map (fun va => (c.mem va).vmeRange desc.dir) =
      (steps.map Prod.snd).map Chunk.vmeRange := by
  rw [List.map_map, List.map_map]
  exact List.map_congr_left fun p hp => h.vme p hp

theorem Built.forall_vmeRange (h : Built desc first c steps) {P : Seg → Prop}
    (hP : ∀ ch ∈ steps.map Prod.snd, P ch.vmeRange) :
    ∀ va ∈ steps.map Prod.fst, P ((c.mem va).vmeRange desc.dir) := by
  intro va hva
  obtain ⟨p, hp, rfl⟩ := List.mem_map.mp hva
  rw [h.vme p hp]
  exact hP p.2 (List.mem_map_of_mem hp)

theorem Tsi148DmaDesc.busRange_len (dir : VmeDmaDir) (t : Tsi148DmaDesc) :
    (t.busRange dir).len = t.dcnt.toNat := by
  cases dir <;> rfl

theorem Chunk.withinBlock {ch : Chunk w} {k : Nat} (hpos : 0 < ch.len.toNat)
    (h : ch.vme.toNat % 2 ^ k + ch.len.toNat ≤ 2 ^ k) :
    WithinBlock (2 ^ k) ch.vmeRange := by
  have hblock := Nat.two_pow_pos k
  have hsplit := Nat.div_add_mod ch.vme.toNat (2 ^ k)
  show ch.vme.toNat / 2 ^ k = (ch.vme.toNat + ch.len.toNat - 1) / 2 ^ k
  have hlast : ch.vme.toNat + ch.len.toNat - 1 =
      2 ^ k * (ch.vme.toNat / 2 ^ k) +
        (ch.vme.toNat % 2 ^ k + ch.len.toNat - 1) := by
    omega
  rw [hlast, Nat.mul_add_div hblock,
    Nat.div_eq_of_lt (by omega : _ % _ + _ - 1 < _), Nat.add_zero]

theorem Built.chainTiles (hne : sgl ≠ [])
    (h : Built desc (c.dnlau, c.dnlal) c steps)
    (hcut : ChainCut desc v.toNat sgl (steps.map Prod.snd)) :
    ChainTiles desc v.toNat sgl c (steps.map Prod.fst) := by
  have hbus := hcut.bus
  rw [← h.map_busRange] at hbus
  have hpos : ∀ va ∈ steps.map Prod.fst, 0 < (c.mem va).dcnt.toNat := by
    intro va hva
    have := hbus.pos _ (List.mem_map_of_mem hva)
    rwa [Tsi148DmaDesc.busRange_len] at this
  have hchunk : ∀ ch ∈ steps.map Prod.snd, 0 < ch.len.toNat := fun ch hch =>
    hcut.bus.pos _ (List.mem_map_of_mem hch)
  have hwithin : ∀ k, tsi148GetBshift desc = k → k ≠ 0 →
      ∀ va ∈ steps.map Prod.fst,
        WithinBlock (2 ^ k) ((c.mem va).vmeRange desc.dir) := by
    rintro k rfl hk
    exact h.forall_vmeRange fun ch hch =>
      Chunk.withinBlock (hchunk ch hch) (hcut.within hk ch hch)
  refine
    { walk := h.walk
      once := ?_
      distinct := h.distinct
      positive := hpos
      bus := hbus
      vme := ?_
      blt := ?_
      mblt := ?_
      fixed := ?_ }
  · intro va hva
    rw [h.filled]
    rw [h.distinct.count, if_pos hva]
  · intro hinc
    rw [h.map_vmeRange]
    exact hcut.vme hinc hne
  · intro _ hblt
    exact hwithin 8 (tsi148GetBshiftOf_blt hblt) (by decide)
  · intro _ hmblt
    exact hwithin 11 (tsi148GetBshiftOf_mblt hmblt) (by decide)
  · intro hinc
    exact h.forall_vmeRange (P := fun s => s.start = v.toNat) fun ch hch =>
      hcut.fixed hinc ch hch

/-- No allocation fails: a failing `hwdesc_init()` is the only source of
-ENOMEM, and it ends the call. -/
def AllocationsSucceed (alloc : DmaAlloc w) (desc : VmeDma)
    (sgl : List (SgEntry w)) (dsat ddat : Word) (c : DmaChain w) : Prop :=
  ∀ fuel, (tsi148DmaSetupChain fuel alloc desc sgl dsat ddat c).1 ≠
    .error (.rc .enomem)

theorem chainTiles_of_noBusWrap (hw : 32 ≤ w)
    (hdir : getVmeaddr desc = .ok v) (hpool : PoolSound alloc c)
    (hmem : AllocationsSucceed alloc desc sgl dsat ddat c)
    (hne : sgl ≠ []) (hpos : ∀ sg ∈ sgl, 0 < sg.dmaLen.toNat)
    (hlow : ∀ sg ∈ sgl, sg.dmaAddress.toNat + sg.dmaLen.toNat ≤ 2 ^ 32)
    (hvme : v.toNat + sgTotal sgl < 2 ^ 32)
    (hroom : NoBusWrap desc v.toNat sgl) :
    ∃ fuel c' visited,
      tsi148DmaSetupChain fuel alloc desc sgl dsat ddat c = (.ok (), c') ∧
        ChainTiles desc v.toNat sgl c' visited := by
  obtain ⟨fuel, hfuel⟩ : ∃ f, 2 ^ 32 ≤ f := ⟨_, Nat.le_refl _⟩
  obtain ⟨cs, hchunks, hcut⟩ :=
    chainChunks_of_noBusWrap hw hfuel hpos hlow hvme hroom
  rcases tsi148DmaSetupChain_of_chunks dsat ddat hdir hpool hne
      hchunks with ⟨c', hfail⟩ | ⟨c', steps, hrun, rfl, hbuilt⟩
  · exact absurd (by rw [hfail]) (hmem fuel)
  · exact ⟨fuel, c', _, hrun, hbuilt.chainTiles hne hcut⟩

theorem noBusWrap_of_chainTiles (hw : 32 ≤ w)
    (hdir : getVmeaddr desc = .ok v) (hpool : PoolSound alloc c)
    (hne : sgl ≠ []) (hpos : ∀ sg ∈ sgl, 0 < sg.dmaLen.toNat)
    (hlow : ∀ sg ∈ sgl, sg.dmaAddress.toNat + sg.dmaLen.toNat ≤ 2 ^ 32)
    (hvme : v.toNat + sgTotal sgl < 2 ^ 32) {fuel : Nat} {visited : List Nat}
    (hrun : tsi148DmaSetupChain fuel alloc desc sgl dsat ddat c = (.ok (), c'))
    (h : ChainTiles desc v.toNat sgl c' visited) :
    NoBusWrap desc v.toNat sgl := by
  obtain ⟨steps, ⟨b, hpending⟩ | ⟨hbuilt, hchunks⟩⟩ :=
    tsi148DmaSetupChain_ok hdir hpool hne hrun
  · obtain ⟨ms, rfl, hms⟩ := hpending.segment.walk_split h.walk
    have hlast := hms.mem_of_node hpending.node
    have honce := h.once b.va (List.mem_append_right _ hlast)
    rw [hpending.filled, List.count_eq_zero_of_not_mem hpending.unfilled]
      at honce
    cases honce
  · obtain rfl := h.walk.unique hbuilt.walk
    have hbus := h.bus
    rw [hbuilt.map_busRange] at hbus
    exact noBusWrap_of_tiles hw hchunks hpos hlow hvme hbus

/-- Over every mapped list the chain tiles the transfer exactly when no block
that has to be cut wraps the bus address. -/
theorem tsi148DmaSetupChain_tiles_iff (hw : 32 ≤ w)
    (hdir : getVmeaddr desc = .ok v) (hpool : PoolSound alloc c)
    (hmem : AllocationsSucceed alloc desc sgl dsat ddat c)
    (hne : sgl ≠ []) (hpos : ∀ sg ∈ sgl, 0 < sg.dmaLen.toNat)
    (hlow : ∀ sg ∈ sgl, sg.dmaAddress.toNat + sg.dmaLen.toNat ≤ 2 ^ 32)
    (hvme : v.toNat + sgTotal sgl < 2 ^ 32) :
    (∃ fuel c' visited,
      tsi148DmaSetupChain fuel alloc desc sgl dsat ddat c = (.ok (), c') ∧
        ChainTiles desc v.toNat sgl c' visited) ↔
      NoBusWrap desc v.toNat sgl := by
  constructor
  · rintro ⟨fuel, c', visited, hrun, htiles⟩
    exact noBusWrap_of_chainTiles hw hdir hpool hne hpos hlow hvme hrun htiles
  · exact chainTiles_of_noBusWrap hw hdir hpool hmem hne hpos hlow hvme

end Memory

/-! ## Two transfers -/

/-- Sixteen blocks, 64 bytes apart, and all the heap there is. -/
def sixteenBlocks : DmaAlloc 32 where
  pool i :=
    if i < 16 then some ⟨0x1000 + 64 * i, BitVec.ofNat 32 (0x1000 + 64 * i)⟩
    else none
  kmalloc _ := true

theorem sixteenBlocks_pool {i : Nat} {b : HwDescEntry 32}
    (h : sixteenBlocks.pool i = some b) :
    b.va = 0x1000 + 64 * i ∧ b.phys.toNat = 0x1000 + 64 * i ∧ i < 16 := by
  simp only [sixteenBlocks] at h
  split at h
  · next hi =>
    cases h
    refine ⟨rfl, ?_, hi⟩
    rw [BitVec.toNat_ofNat]
    omega
  · cases h

theorem poolSound_of_row {w : Nat} {alloc : DmaAlloc w}
    (hrow : ∀ {i b}, alloc.pool i = some b →
      b.va = 0x1000 + 64 * i ∧ b.phys.toNat = 0x1000 + 64 * i ∧ i < 16) :
    PoolSound alloc {} where
  aligned i b h := by
    have := hrow h
    omega
  low i b h := by
    have := hrow h
    omega
  apart i j b b' hij h h' := by
    have := hrow h
    have := hrow h'
    refine ⟨by omega, fun heq => ?_⟩
    have := congrArg BitVec.toNat heq
    omega
  fresh _ _ _ _ _ he := absurd he List.not_mem_nil

theorem sixteenBlocks_sound : PoolSound sixteenBlocks {} :=
  poolSound_of_row sixteenBlocks_pool

/-- A block transfer to VME address `vmeAddr`. -/
def bltTo (vmeAddr : Word) : VmeDma :=
  { dir := .toDevice, dst := { am := .a32UserBlt, addrl := vmeAddr } }

/-- 32 bytes across a block boundary take two descriptors. -/
theorem tsi148DmaSetupChain_tiles_two :
    ∃ fuel c' visited,
      tsi148DmaSetupChain fuel sixteenBlocks (bltTo 0xF0) [⟨0x2000, 0x20⟩] 0 0
          {} = (.ok (), c') ∧
        ChainTiles (bltTo 0xF0) 0xF0 [⟨0x2000, 0x20⟩] c' visited :=
  (tsi148DmaSetupChain_tiles_iff (v := 0xF0) (Nat.le_refl 32) rfl
    sixteenBlocks_sound
    (by
      rintro (_ | _ | _ | fuel)
      · nofun
      · nofun
      · nofun
      · nofun)
    (List.cons_ne_nil _ _)
    (by decide) (by decide) (by decide)).mpr ⟨by decide, trivial⟩

/-- 255 bytes that end one byte below 4 GiB: the block of 256 that is to be
cut wraps, its descriptor transfers a byte more than the entry has, and the
chain does not tile the transfer. -/
theorem tsi148DmaSetupChain_overruns :
    PoolSound sixteenBlocks {} ∧
      (∀ sg ∈ [(⟨0xFFFFFF00, 0xFF⟩ : SgEntry 32)],
        0 < sg.dmaLen.toNat ∧
          sg.dmaAddress.toNat + sg.dmaLen.toNat < 2 ^ 32) ∧
      (∃ c', tsi148DmaSetupChain 2 sixteenBlocks (bltTo 0)
          [⟨0xFFFFFF00, 0xFF⟩] 0 0 {} = (.ok (), c') ∧
        (c'.mem 0x1000).dsal = 0xFFFFFF00 ∧ (c'.mem 0x1000).dcnt = 0x100) ∧
      ¬ ∃ fuel c' visited,
        tsi148DmaSetupChain fuel sixteenBlocks (bltTo 0)
            [⟨0xFFFFFF00, 0xFF⟩] 0 0 {} = (.ok (), c') ∧
          ChainTiles (bltTo 0) 0 [⟨0xFFFFFF00, 0xFF⟩] c' visited := by
  refine ⟨sixteenBlocks_sound, by decide, ⟨_, rfl, rfl, rfl⟩, ?_⟩
  rintro ⟨fuel, c', visited, hrun, htiles⟩
  have hroom : NoBusWrap (bltTo 0) 0 [(⟨0xFFFFFF00, 0xFF⟩ : SgEntry 32)] :=
    noBusWrap_of_chainTiles (v := 0) (Nat.le_refl 32) rfl sixteenBlocks_sound
      (List.cons_ne_nil _ _) (by decide) (by decide) (by decide) hrun htiles
  exact absurd hroom.1 (by decide)

end Coht.Vmebridge
