import Coht.Vmebridge.DmaCleanup
import Coht.Vmebridge.DmaTiling

/-!
# Accepted transfers (`vme_dma.c`, `tsi148.c`)

When `vme_dma_setup()` returns 0 the chain should transfer the whole buffer. The loop of
`tsi148_dma_link_add()` compares the addresses it has reached with the ends of the entry,
and an end that is 2^32 or past it is 0 or wraps: the loop is not entered (`Enters`), no
code says so, and the descriptor that was allocated for the entry stays in the chain as
the pool had it. The same happens when `pci_map_sg()` has mapped nothing. Entries that
are entered are transferred whole (`chunks_total`).
-/

namespace Coht.Vmebridge

open Coht.Lib

variable {w : Nat}

def chunkTotal (cs : List (Chunk w)) : Nat := (cs.map fun ch => ch.len.toNat).sum

theorem chunkTotal_append (cs ds : List (Chunk w)) :
    chunkTotal (cs ++ ds) = chunkTotal cs + chunkTotal ds := by
  unfold chunkTotal
  rw [List.map_append, List.sum_append]

/-! ## The entries -/

def Enters (desc : VmeDma) : Word → List (SgEntry w) → Prop
  | _, [] => True
  | v, sg :: sgl =>
    0 < sg.dmaLen.toNat ∧ v.toNat + sg.dmaLen.toNat < 2 ^ 32 ∧
      Enters desc (desc.vmeAfter v sg.dmaLen) sgl

section Entries

variable {desc : VmeDma} {vmeEnd vme len v : Word} {dmaEnd dma : BitVec w} {m fuel : Nat}
  {sg : SgEntry w} {sgl : List (SgEntry w)}

theorem chunks_total (hw : 32 ≤ w) {cs : List (Chunk w)}
    (h : Cursor desc vmeEnd dmaEnd vme dma len m)
    (hroom : dmaEnd.toNat + overrun desc vme.toNat m < 2 ^ w)
    (hcs : chunks desc (tsi148GetBshift desc) vmeEnd dmaEnd fuel vme dma len = some cs) :
    cs ≠ [] ∧ busEnd dma cs = dmaEnd ∧ chunkTotal cs = m := by
  induction fuel generalizing vme dma len m cs with
  | zero => cases hcs
  | succ fuel ih =>
    generalize hn : chunkLen (tsi148GetBshift desc) vme len dma dmaEnd = n
    rw [h.chunks_succ fuel hn, Option.map_eq_some_iff] at hcs
    obtain ⟨cs, hcs, rfl⟩ := hcs
    refine ⟨List.cons_ne_nil _ _, ?_⟩
    rcases Nat.lt_or_ge (blockRoom (tsi148GetBshift desc) vme.toNat m) m with hlt | hle
    · obtain ⟨hlen, hnext, hover⟩ := h.step hw hlt hn
      rw [← hover] at hroom
      obtain ⟨_, hdone, htotal⟩ := ih hnext hroom hcs
      refine ⟨hdone, ?_⟩
      unfold chunkTotal at htotal ⊢
      rw [List.map_cons, List.sum_cons, htotal]
      dsimp only
      omega
    · obtain ⟨hlen, hdone⟩ := h.last hw hle hroom hn
      obtain rfl := chunks_end hdone hcs
      refine ⟨hdone, ?_⟩
      unfold chunkTotal
      rw [List.map_singleton, List.sum_singleton]
      exact hlen

theorem entry_room (hw : 53 ≤ w) (hbus : sg.dmaAddress.toNat + sg.dmaLen.toNat ≤ 2 ^ 52)
    (v : Nat) : (sg.dmaAddress + sg.dmaLen.setWidth w).toNat +
      overrun desc v sg.dmaLen.toNat < 2 ^ w := by
  have hpow : 2 ^ 53 ≤ 2 ^ w := Nat.pow_le_pow_right (by decide) hw
  have hover := overrun_lt desc v sg.dmaLen.toNat
  rw [dmaAfter_toNat (by omega) (by omega)]
  omega

theorem entryChunks_enters {cs : List (Chunk w)}
    (hcs : entryChunks desc fuel v sg = some cs) (hne : cs ≠ []) :
    0 < sg.dmaLen.toNat ∧ v.toNat + sg.dmaLen.toNat < 2 ^ 32 := by
  have hv := v.isLt
  have hlen := sg.dmaLen.isLt
  unfold entryChunks at hcs
  cases fuel with
  | zero => cases hcs
  | succ fuel =>
    rw [chunks.eq_2] at hcs
    split at hcs
    · next hguard =>
      have hlt := hguard.1
      rw [BitVec.lt_def, BitVec.toNat_add] at hlt
      omega
    · exact absurd (Option.some.inj hcs).symm hne

theorem ChainChunks.enters (hw : 53 ≤ w) {cs : List (Chunk w)}
    (hbus : ∀ sg ∈ sgl, sg.dmaAddress.toNat + sg.dmaLen.toNat ≤ 2 ^ 52)
    (h : ChainChunks desc fuel v sgl cs) : Enters desc v sgl ∧ chunkTotal cs = sgTotal sgl := by
  have hpow : 2 ^ 53 ≤ 2 ^ w := Nat.pow_le_pow_right (by decide) hw
  induction h with
  | nil => exact ⟨trivial, rfl⟩
  | @cons v sg sgl cs rest hcs hne _ _ ih =>
    have hfirst := hbus sg List.mem_cons_self
    obtain ⟨hpos, hlow⟩ := entryChunks_enters hcs hne
    have hcursor : Cursor desc _ _ v sg.dmaAddress sg.dmaLen _ :=
      .start (by omega) hpos hlow (by omega)
    obtain ⟨-, -, htotal⟩ := chunks_total (by omega) hcursor (entry_room hw hfirst _) hcs
    obtain ⟨henters, hrest⟩ := ih fun sg hsg => hbus sg (List.mem_cons_of_mem _ hsg)
    refine ⟨⟨hpos, hlow, henters⟩, ?_⟩
    rw [chunkTotal_append, htotal, hrest, sgTotal_cons]

theorem Enters.chunks (hw : 53 ≤ w) (hfuel : 2 ^ 32 ≤ fuel)
    (hbus : ∀ sg ∈ sgl, sg.dmaAddress.toNat + sg.dmaLen.toNat ≤ 2 ^ 52)
    (h : Enters desc v sgl) : ∃ cs, ChainChunks desc fuel v sgl cs := by
  have hpow : 2 ^ 53 ≤ 2 ^ w := Nat.pow_le_pow_right (by decide) hw
  induction sgl generalizing v with
  | nil => exact ⟨[], .nil⟩
  | cons sg sgl ih =>
    obtain ⟨hpos, hlow, hrest⟩ := h
    have hfirst := hbus sg List.mem_cons_self
    have hcursor : Cursor desc _ _ v sg.dmaAddress sg.dmaLen _ :=
      .start (by omega) hpos hlow (by omega)
    have hroom := @entry_room w desc sg hw hfirst v.toNat
    obtain ⟨cs, hcs⟩ := chunks_isSome (by omega) hcursor hroom
      (Nat.lt_of_lt_of_le hcursor.small hfuel)
    obtain ⟨hne, hdone, -⟩ := chunks_total (by omega) hcursor hroom hcs
    obtain ⟨rest, hchunks⟩ := ih (fun sg hsg => hbus sg (List.mem_cons_of_mem _ hsg)) hrest
    refine ⟨cs ++ rest, .cons hcs hne (fun _ => ?_) hchunks⟩
    rw [hdone, BitVec.lt_def]
    exact Nat.lt_irrefl _

end Entries

/-! ## The chain -/

/-- The bridge visits descriptors that were filled, and they transfer `n` bytes. -/
def Transfers (n : Nat) (c : DmaChain w) : Prop :=
  ∃ visited, c.pointers.Walk (c.dnlau, c.dnlal) visited ∧ (∀ va ∈ visited, va ∈ c.filled) ∧
    (visited.map fun va => (c.mem va).dcnt.toNat).sum = n

section Chain

variable {alloc : DmaAlloc w} {desc : VmeDma} {v dsat ddat : Word} {sgl : List (SgEntry w)}
  {c c' : DmaChain w} {fuel n : Nat}

theorem Building.not_transfers {steps : List (Nat × Chunk w)} {b : HwDescEntry w}
    (h : Building alloc desc (c.dnlau, c.dnlal) c steps b) : ¬ Transfers n c := by
  intro ⟨visited, hwalk, hfilled, _⟩
  obtain ⟨ms, rfl, hms⟩ := h.segment.walk_split hwalk
  have hlast := hms.mem_of_node h.node
  have hmem := hfilled b.va (List.mem_append_right _ hlast)
  rw [h.filled] at hmem
  exact h.unfilled hmem

theorem Built.transfers_iff {steps : List (Nat × Chunk w)}
    (h : Built desc (c.dnlau, c.dnlal) c steps) :
    Transfers n c ↔ chunkTotal (steps.map Prod.snd) = n := by
  have htotal : ((steps.map Prod.fst).map fun va => (c.mem va).dcnt.toNat).sum =
      chunkTotal (steps.map Prod.snd) := by
    unfold chunkTotal
    rw [List.map_map, List.map_map]
    congr 1
    refine List.map_congr_left fun p hp => ?_
    have hbus := congrArg Seg.len (h.bus p hp)
    rwa [Tsi148DmaDesc.busRange_len] at hbus
  constructor
  · intro ⟨visited, hwalk, _, hsum⟩
    obtain rfl := hwalk.unique h.walk
    rw [← htotal, hsum]
  · intro hn
    refine ⟨_, h.walk, fun va hva => ?_, htotal.trans hn⟩
    rw [h.filled]
    exact hva

theorem tsi148DmaSetupChain_nil (hdir : getVmeaddr desc = .ok v) (hpool : PoolSound alloc c)
    (hrun : tsi148DmaSetupChain fuel alloc desc [] dsat ddat c = (.ok (), c')) :
    ∃ b, Building alloc desc (c'.dnlau, c'.dnlal) c' [] b := by
  unfold tsi148DmaSetupChain at hrun
  rcases hwdescInit_cases alloc { c with filled := [] } with ⟨c₀, hfail⟩ | ⟨b, hb, hok⟩
  · rw [hfail] at hrun
    cases hrun
  · rw [hok] at hrun
    dsimp only at hrun
    rw [hdir] at hrun
    obtain ⟨-, rfl⟩ := Prod.mk.inj hrun
    exact ⟨b, (Building.start hpool hb).program (linkTo b.phys)⟩

theorem tsi148DmaSetupChain_transfers_iff (hw : 53 ≤ w) (hdir : getVmeaddr desc = .ok v)
    (hpool : PoolSound alloc c)
    (hbus : ∀ sg ∈ sgl, sg.dmaAddress.toNat + sg.dmaLen.toNat ≤ 2 ^ 52)
    (hrun : tsi148DmaSetupChain fuel alloc desc sgl dsat ddat c = (.ok (), c')) :
    Transfers n c' ↔ sgl ≠ [] ∧ Enters desc v sgl ∧ sgTotal sgl = n := by
  by_cases hne : sgl = []
  · subst hne
    obtain ⟨b, hpending⟩ := tsi148DmaSetupChain_nil hdir hpool hrun
    exact iff_of_false hpending.not_transfers fun h => h.1 rfl
  · constructor
    · intro htransfers
      obtain ⟨steps, ⟨b, hpending⟩ | ⟨hbuilt, hchunks⟩⟩ :=
        tsi148DmaSetupChain_ok hdir hpool hne hrun
      · exact absurd htransfers hpending.not_transfers
      · obtain ⟨henters, htotal⟩ := hchunks.enters hw hbus
        exact ⟨hne, henters, htotal.symm.trans (hbuilt.transfers_iff.mp htransfers)⟩
    · intro ⟨_, henters, hn⟩
      -- With more fuel the call does the same, and there is enough for every entry.
      have hmore : tsi148DmaSetupChain (fuel + 2 ^ 32) alloc desc sgl dsat ddat c =
          (.ok (), c') := by
        rw [tsi148DmaSetupChain_fuel (by rw [hrun]; nofun), hrun]
      obtain ⟨cs, hchunks⟩ := henters.chunks hw (Nat.le_add_left _ fuel) hbus
      obtain ⟨-, htotal⟩ := hchunks.enters hw hbus
      rcases tsi148DmaSetupChain_of_chunks dsat ddat hdir hpool hne hchunks with
        ⟨c₁, hfail⟩ | ⟨c₁, steps, hok, rfl, hbuilt⟩
      · rw [hmore] at hfail
        cases hfail
      · rw [hmore] at hok
        obtain ⟨-, rfl⟩ := Prod.mk.inj hok
        exact hbuilt.transfers_iff.mpr (htotal.trans hn)

end Chain

/-! ## The call -/

/-- The VME address of the transfer. -/
def VmeDma.vmeAddr (desc : VmeDma) : Word :=
  if desc.dir = .toDevice then desc.dst.addrl else desc.src.addrl

theorem enters_moving {desc : VmeDma} (hinc : desc.novmeinc = 0) {v : Word}
    {sgl : List (SgEntry w)} :
    Enters desc v sgl ↔
      (∀ sg ∈ sgl, 0 < sg.dmaLen.toNat) ∧ v.toNat + sgTotal sgl < 2 ^ 32 := by
  induction sgl generalizing v with
  | nil => exact ⟨fun _ => ⟨fun _ h => absurd h List.not_mem_nil, v.isLt⟩, fun _ => trivial⟩
  | cons sg sgl ih =>
    have hnext : ∀ h : v.toNat + sg.dmaLen.toNat < 2 ^ 32,
        (desc.vmeAfter v sg.dmaLen).toNat = v.toNat + sg.dmaLen.toNat := by
      intro h
      unfold VmeDma.vmeAfter
      rw [if_pos hinc, BitVec.toNat_add, Nat.mod_eq_of_lt h]
    rw [sgTotal_cons, List.forall_mem_cons]
    constructor
    · intro ⟨hpos, hlow, hrest⟩
      obtain ⟨hbytes, htotal⟩ := ih.mp hrest
      rw [hnext hlow] at htotal
      exact ⟨⟨hpos, hbytes⟩, by omega⟩
    · intro ⟨⟨hpos, hbytes⟩, htotal⟩
      have hlow : v.toNat + sg.dmaLen.toNat < 2 ^ 32 := by omega
      refine ⟨hpos, hlow, ih.mpr ⟨hbytes, ?_⟩⟩
      rw [hnext hlow]
      omega

theorem enters_fixed {desc : VmeDma} (hinc : desc.novmeinc ≠ 0) {v : Word}
    {sgl : List (SgEntry w)} :
    Enters desc v sgl ↔
      ∀ sg ∈ sgl, 0 < sg.dmaLen.toNat ∧ v.toNat + sg.dmaLen.toNat < 2 ^ 32 := by
  have hnext : ∀ n, desc.vmeAfter v n = v := fun n => if_neg hinc
  induction sgl with
  | nil => exact ⟨fun _ _ h => absurd h List.not_mem_nil, fun _ => trivial⟩
  | cons sg sgl ih =>
    rw [List.forall_mem_cons]
    unfold Enters
    rw [hnext, and_assoc]
    exact and_congr_right fun _ => and_congr_right fun _ => ih

/-- What the table holds when it is mapped: the pages of the buffer, or what the heap
had. -/
def bufferTable (k : Nat) (env : SetupEnv) (desc : VmeDmaDesc) (toUser : Bool) :
    List SgPage :=
  match (sglFillPages k env (nrPages k desc.uaddr desc.length) desc.uaddr
      (desc.dir == .fromDevice) toUser {}).1 with
  | .ok pages => setPages k desc.uaddr (desc.length.setWidth 64) pages
  | .error _ => (DmaState.table k env desc {}).sgl

/-- What is mapped onto the bus reaches the whole buffer, and the VME addresses end below
2^32: those of the buffer, or those of each entry where the address does not move. -/
structure Reaches (desc : VmeDmaDesc) (sgl : List (SgEntry w)) : Prop where
  mapped : sgl ≠ []
  bytes : ∀ sg ∈ sgl, 0 < sg.dmaLen.toNat
  total : sgTotal sgl = desc.length.toNat
  below : if desc.novmeinc = 0 then desc.vmeAddr.toNat + desc.length.toNat < 2 ^ 32
    else ∀ sg ∈ sgl, desc.vmeAddr.toNat + sg.dmaLen.toNat < 2 ^ 32

theorem reaches_iff {desc : VmeDmaDesc} {sgl : List (SgEntry w)} : Reaches desc sgl ↔
    sgl ≠ [] ∧ Enters desc.toVmeDma desc.vmeAddr sgl ∧ sgTotal sgl = desc.length.toNat := by
  by_cases hinc : desc.novmeinc = 0
  · rw [enters_moving hinc]
    constructor
    · intro h
      have hbelow := h.below
      rw [if_pos hinc, ← h.total] at hbelow
      exact ⟨h.mapped, ⟨h.bytes, hbelow⟩, h.total⟩
    · intro ⟨hne, ⟨hbytes, hbelow⟩, htotal⟩
      refine ⟨hne, hbytes, htotal, ?_⟩
      rw [if_pos hinc, ← htotal]
      exact hbelow
  · rw [enters_fixed hinc]
    constructor
    · intro h
      have hbelow := h.below
      rw [if_neg hinc] at hbelow
      exact ⟨h.mapped, fun sg hsg => ⟨h.bytes sg hsg, hbelow sg hsg⟩, h.total⟩
    · intro ⟨hne, henters, htotal⟩
      refine ⟨hne, fun sg hsg => (henters sg hsg).1, htotal, ?_⟩
      rw [if_neg hinc]
      exact fun sg hsg => (henters sg hsg).2

section Call

variable {k fuel : Nat} {env : SetupEnv} {desc : VmeDmaDesc} {toUser : Bool}
  {s s' : DmaState} {pages : List Page}

theorem sglFillPages_frame (n : Word) (uaddr : BitVec 64) (rw : Bool) :
    (sglFillPages k env n uaddr rw toUser s).1 =
        (sglFillPages k env n uaddr rw toUser {}).1 ∧
      (sglFillPages k env n uaddr rw toUser s).2.sgl = s.sgl ∧
      (sglFillPages k env n uaddr rw toUser s).2.chain = s.chain := by
  unfold sglFillPages
  cases toUser with
  | false => exact ⟨rfl, rfl, rfl⟩
  | true =>
    rw [if_pos rfl, if_pos rfl]
    cases env.getUserPages uaddr n rw with
    | error e => exact ⟨rfl, rfl, rfl⟩
    | ok pages =>
      dsimp only
      split <;> exact ⟨rfl, rfl, rfl⟩

theorem sglMapUserPages_table (harray : env.kmallocPages = true) :
    ∃ s₁, sglMapUserPages k env (nrPages k desc.uaddr desc.length) desc.uaddr
        (desc.length.setWidth 64) (desc.dir == .fromDevice) toUser (s.table k env desc) =
          (.ok (nrPages k desc.uaddr desc.length), s₁) ∧
      s₁.sgl = bufferTable k env desc toUser ∧ s₁.chain = s.chain := by
  obtain ⟨hpages, hsgl, hchain⟩ := @sglFillPages_frame k env toUser (s.table k env desc)
    (nrPages k desc.uaddr desc.length) desc.uaddr (desc.dir == .fromDevice)
  unfold sglMapUserPages bufferTable
  rw [if_pos harray, ← hpages]
  generalize sglFillPages k env (nrPages k desc.uaddr desc.length) desc.uaddr
    (desc.dir == .fromDevice) toUser (s.table k env desc) = r at *
  rcases r with ⟨e | pages, s₁⟩
  · exact ⟨_, rfl, hsgl, hchain⟩
  · exact ⟨_, rfl, rfl, hchain⟩

theorem vmeDmaSetup_ok (hk : k < 32) (hlen : 0 < desc.length.toNat)
    (h : vmeDmaSetup k fuel env desc toUser s = (.ok (), s')) :
    getVmeaddr desc.toVmeDma = .ok desc.vmeAddr ∧ ∃ dsat ddat,
      tsi148DmaSetupChain fuel env.alloc desc.toVmeDma
        (env.pciMapSg (bufferTable k env desc toUser)) dsat ddat s.chain =
          (.ok (), s'.chain) := by
  by_cases hasks : AsksForPages env desc
  · obtain ⟨s₁, hpages, hsgl, hchain⟩ :=
      @sglMapUserPages_table k env desc toUser s hasks.array
    by_cases hconf : Configures desc
    · rw [vmeDmaSetup_asked hk hlen hasks hpages] at h
      obtain ⟨dsat, ddat, dctl, heq⟩ := @tsi148DmaSetup_configured fuel env desc
        { s₁ with sgMapped := env.pciMapSg s₁.sgl } hconf
      rw [heq] at h
      dsimp only at h
      rw [hsgl, hchain] at h
      generalize hr : tsi148DmaSetupChain fuel env.alloc desc.toVmeDma
        (env.pciMapSg (bufferTable k env desc toUser)) dsat ddat s.chain = r at h
      rcases r with ⟨(e | e | e) | _, c⟩
      · cases h
      · cases h
      · cases h
      · obtain ⟨-, rfl⟩ := Prod.mk.inj h
        refine ⟨?_, dsat, ddat, hr⟩
        obtain ⟨_, _, _, hsrc, -⟩ := hconf
        unfold tsi148DmaSetupSrc at hsrc
        unfold getVmeaddr VmeDma.vmeAddr
        cases hdir : desc.dir with
        | toDevice => rfl
        | fromDevice => rfl
        | other value =>
          rw [hdir] at hsrc
          cases hsrc
    · obtain ⟨e, heq⟩ :=
        @vmeDmaSetup_refused k fuel env desc toUser s hk hlen hasks hconf _ hpages
      rw [heq] at h
      cases h
  · obtain ⟨e, sgl, n, -, heq⟩ := @vmeDmaSetup_early k fuel env desc toUser s hasks
    rw [heq] at h
    cases h

/-- Of all the pages the mapping reaches the whole buffer, if it keeps the bytes of what
it maps. -/
theorem ObtainsPages.total (hk : k < 32) (hlen : 0 < desc.length.toNat)
    (hmap : ∀ table, env.pciMapSg table ≠ [] →
      sgTotal (env.pciMapSg table) = tableTotal table)
    (h : ObtainsPages k env desc toUser)
    (hne : env.pciMapSg (bufferTable k env desc toUser) ≠ []) :
    sgTotal (env.pciMapSg (bufferTable k env desc toUser)) = desc.length.toNat := by
  obtain ⟨pages, hall⟩ := h
  have htable : bufferTable k env desc toUser =
      setPages k desc.uaddr (desc.length.setWidth 64) pages := by
    obtain ⟨s₁, hpages, hsgl, -⟩ := @sglMapUserPages_table k env desc toUser {} hall.array
    rw [sglMapUserPages_obtained hall] at hpages
    obtain ⟨-, rfl⟩ := Prod.mk.inj hpages
    exact hsgl.symm
  rw [hmap _ hne, htable]
  exact (setPages_splits hk hlen hall.all).total

/-- A transfer that is accepted is set up whole if and only if what is mapped reaches the
whole buffer, and its VME addresses end below 2^32. -/
theorem vmeDmaSetup_transfers_iff (hk : k < 32) (hlen : 0 < desc.length.toNat)
    (hpool : PoolSound env.alloc s.chain)
    (hbus : ∀ table, ∀ sg ∈ env.pciMapSg table,
      sg.dmaAddress.toNat + sg.dmaLen.toNat ≤ 2 ^ 52)
    (h : vmeDmaSetup k fuel env desc toUser s = (.ok (), s')) :
    Transfers desc.length.toNat s'.chain ↔
      Reaches desc (env.pciMapSg (bufferTable k env desc toUser)) := by
  obtain ⟨hdir, dsat, ddat, hrun⟩ := vmeDmaSetup_ok hk hlen h
  rw [reaches_iff]
  exact tsi148DmaSetupChain_transfers_iff (by decide) hdir hpool (hbus _) hrun

end Call

/-! ## Two transfers -/

theorem wideBlocks_pool {i : Nat} {b : HwDescEntry 64} (h : wideBlocks.pool i = some b) :
    b.va = 0x1000 + 64 * i ∧ b.phys.toNat = 0x1000 + 64 * i ∧ i < 16 := by
  simp only [wideBlocks] at h
  split at h
  · next hi =>
    cases h
    refine ⟨rfl, ?_, hi⟩
    rw [BitVec.toNat_ofNat]
    omega
  · cases h

theorem wideBlocks_sound : PoolSound wideBlocks {} :=
  poolSound_of_row wideBlocks_pool

theorem plentyEnv_low (alloc : DmaAlloc 64) (table : List SgPage) :
    ∀ sg ∈ (plentyEnv alloc).pciMapSg table,
      sg.dmaAddress.toNat + sg.dmaLen.toNat ≤ 2 ^ 52 := by
  intro sg hsg
  obtain ⟨e, -, rfl⟩ := List.mem_map.mp hsg
  have hlen := e.length.isLt
  have hoff := e.offset.isLt
  have hpage := Nat.mod_lt e.page (Nat.two_pow_pos 28)
  show (BitVec.ofNat 64 (e.page % 2 ^ 28 * 4096 + e.offset.toNat)).toNat + e.length.toNat ≤ _
  rw [BitVec.toNat_ofNat]
  omega

/-- 256 bytes in A32 space are transferred. -/
theorem vmeDmaSetup_transfers_iff_write :
    (vmeDmaSetup 12 8 (plentyEnv wideBlocks) writeDma true {}).1 = .ok () ∧
      Transfers writeDma.length.toNat
        (vmeDmaSetup 12 8 (plentyEnv wideBlocks) writeDma true {}).2.chain :=
  ⟨rfl, (vmeDmaSetup_transfers_iff (by decide) (by decide) wideBlocks_sound
    (plentyEnv_low wideBlocks) (Prod.ext rfl rfl)).mpr
    ⟨by decide, by decide, by decide, by decide⟩⟩

def lastDma : VmeDmaDesc :=
  { writeDma with dst := { am := .a32UserDataSct, addrl := 0xffffff00 } }

/-- The VME range ends at 2^32: the call returns 0, and the chain is one descriptor that
was never filled. -/
theorem vmeDmaSetup_not_transfers : ¬ ∀ (fuel : Nat) (env : SetupEnv) (desc : VmeDmaDesc)
    (s' : DmaState), 0 < desc.length.toNat → PoolSound env.alloc {} →
      (∀ table, ∀ sg ∈ env.pciMapSg table,
        sg.dmaAddress.toNat + sg.dmaLen.toNat ≤ 2 ^ 52) →
      ObtainsPages 12 env desc true →
      vmeDmaSetup 12 fuel env desc true {} = (.ok (), s') →
        Transfers desc.length.toNat s'.chain := by
  intro h
  have htransfers := h 8 (plentyEnv wideBlocks) lastDma _ (by decide) wideBlocks_sound
    (plentyEnv_low wideBlocks) ⟨[0x10], rfl, by decide, by decide⟩ rfl
  obtain ⟨hdir, dsat, ddat, hrun⟩ := @vmeDmaSetup_ok 12 8 (plentyEnv wideBlocks) lastDma true
    {} _ (by decide) (by decide) rfl
  obtain ⟨-, ⟨-, hlow, -⟩, -⟩ := (tsi148DmaSetupChain_transfers_iff (by decide) hdir
    wideBlocks_sound (plentyEnv_low wideBlocks _) hrun).mp htransfers
  exact absurd hlow (by decide)

end Coht.Vmebridge
