import Coht.Vmebridge.DmaChain

/-!
# The chain in memory is the list of chunks

The loop of `tsi148_dma_link_add()` does two things at once: it cuts the
transfer into chunks, which is arithmetic on the loop variables, and it writes
the chunks into descriptors that it allocates and links on the way. `chunks`
is the first alone. This module shows that the second adds nothing to it:
whatever chunks the arithmetic yields, in bounds or not, are what the bridge
meets when it follows the links, in that order and once each.

Between two passes of the loop the chain is `Building`: everything up to the
descriptor in hand is linked and filled, and the one in hand is neither. The
invariant crosses from one scatter-gather entry to the next with the
descriptor. A pass that allocates keeps it (`Building.grow`); one that does
not turns it into a `Built` chain (`Building.finish`).
-/

namespace Coht.Vmebridge

open Coht.Lib

variable {w : Nat}

structure Chunk (w : Nat) where
  vme : Word
  dma : BitVec w
  len : Word
  deriving DecidableEq, Repr

def Chunk.busRange (ch : Chunk w) : Seg :=
  ⟨(ch.dma.setWidth 32).toNat, ch.len.toNat⟩

def Chunk.vmeRange (ch : Chunk w) : Seg := ⟨ch.vme.toNat, ch.len.toNat⟩

def chunks (desc : VmeDma) (bshift : Nat) (vmeEnd : Word) (dmaEnd : BitVec w) :
    Nat → Word → BitVec w → Word → Option (List (Chunk w))
  | 0, _, _, _ => none
  | fuel + 1, vme, dma, len =>
    if vme < vmeEnd ∧ dma < dmaEnd then
      let len := chunkLen bshift vme len dma dmaEnd
      (chunks desc bshift vmeEnd dmaEnd fuel (desc.vmeAfter vme len)
        (dma + len.setWidth w) len).map (⟨vme, dma, len⟩ :: ·)
    else
      some []

def busEnd : BitVec w → List (Chunk w) → BitVec w
  | dma, [] => dma
  | dma, ch :: cs => busEnd (dma + ch.len.setWidth w) cs

/-! ## The parts of a pass -/

def DmaChain.took (c : DmaChain w) (b : HwDescEntry w) : DmaChain w :=
  { c with
    hwDescList := c.hwDescList ++ [b]
    live := c.live ++ [b]
    poolCalls := c.poolCalls + 1
    kmallocCalls := c.kmallocCalls + 1 }

theorem hwdescInit_cases (alloc : DmaAlloc w) (c : DmaChain w) :
    (∃ c', hwdescInit alloc c = (.error .enomem, c')) ∨
      ∃ b, alloc.pool c.poolCalls = some b ∧
        hwdescInit alloc c = (.ok b, c.took b) := by
  cases hp : alloc.pool c.poolCalls with
  | none =>
    simp only [hwdescInit, pciPoolAlloc, hp]
    exact .inl ⟨_, rfl⟩
  | some b =>
    cases hk : alloc.kmalloc c.kmallocCalls with
    | false =>
      simp only [hwdescInit, pciPoolAlloc, hp, hk]
      exact .inl ⟨_, rfl⟩
    | true =>
      simp only [hwdescInit, pciPoolAlloc, hp, hk]
      exact .inr ⟨b, rfl, rfl⟩

theorem tsi148FillDmaDesc_ok {desc : VmeDma} {v : Word}
    (hdir : getVmeaddr desc = .ok v) (tsi : Tsi148DmaDesc) (ch : Chunk w)
    (dsat ddat : Word) :
    ∃ t, tsi148FillDmaDesc desc tsi ch.vme ch.dma ch.len dsat ddat =
        (.ok (), t) ∧
      t.busRange desc.dir = ch.busRange ∧ t.vmeRange desc.dir = ch.vmeRange ∧
      t.dnlal = dnlalLla := by
  unfold getVmeaddr at hdir
  unfold tsi148FillDmaDesc Tsi148DmaDesc.busRange Tsi148DmaDesc.vmeRange
    Chunk.busRange Chunk.vmeRange
  split at hdir
  · next hd =>
    rw [hd]
    exact ⟨_, rfl, by simp [join], by simp [join], rfl⟩
  · next hd =>
    rw [hd]
    exact ⟨_, rfl, by simp [join], by simp [join], rfl⟩
  · cases hdir

theorem DmaChain.fill_eq {desc : VmeDma} {v : Word}
    (hdir : getVmeaddr desc = .ok v) (c : DmaChain w) (va : Nat)
    (ch : Chunk w) (dsat ddat : Word) :
    ∃ t, c.fill desc va ch.vme ch.dma ch.len dsat ddat =
        { c with mem := Function.update c.mem va t,
                 filled := c.filled ++ [va] } ∧
      t.busRange desc.dir = ch.busRange ∧ t.vmeRange desc.dir = ch.vmeRange ∧
      t.dnlal = dnlalLla := by
  obtain ⟨t, hfill, ht⟩ :=
    tsi148FillDmaDesc_ok hdir (c.mem va) ch dsat ddat
  refine ⟨t, ?_, ht⟩
  unfold DmaChain.fill
  rw [hfill]

/-! ## Links -/

theorem linkTo_resolves {phys : BitVec w} (halign : phys.toNat % 8 = 0)
    (hlow : phys.toNat < 2 ^ 32) :
    join (linkTo phys).1 ((linkTo phys).2 &&& dnlalM) = phys.toNat := by
  have hmask : (7#32).toNat = 2 ^ 3 - 1 := rfl
  have hw : (phys.setWidth 32).toNat = phys.toNat := by
    rw [BitVec.toNat_setWidth, Nat.mod_eq_of_lt hlow]
  have honce : (phys.setWidth 32 &&& dnlalM).toNat = phys.toNat := by
    unfold dnlalM
    rw [toNat_and_high hmask, hw]
    omega
  have htwice :
      ((phys.setWidth 32 &&& dnlalM) &&& dnlalM).toNat = phys.toNat := by
    unfold dnlalM at honce ⊢
    rw [toNat_and_high hmask, honce]
    omega
  have hzero : (0#32).toNat = 0 := rfl
  show (0#32).toNat * 2 ^ 32 +
    ((phys.setWidth 32 &&& dnlalM) &&& dnlalM).toNat = _
  rw [htwice, hzero]
  omega

theorem linkTo_not_last (phys : BitVec w) :
    (linkTo phys).2 &&& dnlalLla = 0 := by
  show (phys.setWidth 32 &&& ~~~7#32) &&& 1#32 = 0#32
  rw [BitVec.and_assoc]
  have hbits : ~~~7#32 &&& 1#32 = 0#32 := by decide
  rw [hbits, BitVec.and_zero]

theorem pointers_node_took {c : DmaChain w} (b : HwDescEntry w)
    {l : Word × Word} {va : Nat} (h : c.pointers.node l = some va) :
    (c.took b).pointers.node l = some va := by
  simp only [DmaChain.pointers, DmaChain.took, Option.map_eq_some_iff] at h ⊢
  obtain ⟨e, he, hva⟩ := h
  refine ⟨e, ?_, hva⟩
  rw [List.find?_append, he]
  rfl

theorem pointers_node_new {c : DmaChain w} {b : HwDescEntry w}
    (halign : b.phys.toNat % 8 = 0) (hlow : b.phys.toNat < 2 ^ 32)
    (hnew : ∀ e ∈ c.hwDescList, b.phys ≠ e.phys) :
    (c.took b).pointers.node (linkTo b.phys) = some b.va := by
  simp only [DmaChain.pointers, DmaChain.took, linkTo_resolves halign hlow,
    Option.map_eq_some_iff]
  refine ⟨b, ?_, rfl⟩
  have hnone : (c.hwDescList.find? fun e =>
      decide (e.phys.toNat = b.phys.toNat)) = none := by
    rw [List.find?_eq_none]
    intro e he heq
    exact hnew e he (BitVec.eq_of_toNat_eq (of_decide_eq_true heq).symm)
  rw [List.find?_append, hnone]
  simp

theorem pointers_next_of_mem {c c' : DmaChain w} {va : Nat}
    (h : c'.mem va = c.mem va) : c'.pointers.next va = c.pointers.next va := by
  simp only [DmaChain.pointers, h]

/-! ## The allocator -/

/-- What `pci_pool_alloc()` promises for `dma_desc_pool`: blocks aligned as
the pool was created, below 4 GiB as the default coherent mask of the device
has it, and apart from each other and from those the channel holds. -/
structure PoolSound (alloc : DmaAlloc w) (c : DmaChain w) : Prop where
  aligned : ∀ i b, alloc.pool i = some b → b.phys.toNat % 8 = 0
  low : ∀ i b, alloc.pool i = some b → b.phys.toNat < 2 ^ 32
  apart : ∀ i j b b', i < j → alloc.pool i = some b → alloc.pool j = some b' →
    b'.va ≠ b.va ∧ b'.phys ≠ b.phys
  fresh : ∀ i b, c.poolCalls ≤ i → alloc.pool i = some b →
    ∀ e ∈ c.hwDescList, b.va ≠ e.va ∧ b.phys ≠ e.phys

theorem PoolSound.took {alloc : DmaAlloc w} {c : DmaChain w}
    {b : HwDescEntry w} (h : PoolSound alloc c)
    (hb : alloc.pool c.poolCalls = some b) : PoolSound alloc (c.took b) where
  aligned := h.aligned
  low := h.low
  apart := h.apart
  fresh := by
    intro i b' hi hb' e he
    have hi' : c.poolCalls + 1 ≤ i := hi
    have he' : e ∈ c.hwDescList ++ [b] := he
    rcases List.mem_append.mp he' with he' | he'
    · exact h.fresh i b' (by omega) hb' e he'
    · obtain rfl := List.mem_singleton.mp he'
      exact h.apart c.poolCalls i e b' (by omega) hb hb'

theorem PoolSound.congr {alloc : DmaAlloc w} {c c' : DmaChain w}
    (h : PoolSound alloc c) (hcalls : c'.poolCalls = c.poolCalls)
    (hlist : c'.hwDescList = c.hwDescList) : PoolSound alloc c' where
  aligned := h.aligned
  low := h.low
  apart := h.apart
  fresh := by
    rw [hcalls, hlist]
    exact h.fresh

/-! ## The invariant -/

/-- The chunks `done` are in the descriptors they are paired with, linked from
`first` on up to `curr`, which is allocated and not yet filled. -/
structure Building (alloc : DmaAlloc w) (desc : VmeDma) (first : Word × Word)
    (c : DmaChain w) (done : List (Nat × Chunk w)) (curr : HwDescEntry w) :
    Prop where
  segment : c.pointers.Segment first (done.map Prod.fst) (linkTo curr.phys)
  node : c.pointers.node (linkTo curr.phys) = some curr.va
  listed : ∀ p ∈ done, ∃ b ∈ c.hwDescList, b.va = p.1
  pending : curr ∈ c.hwDescList
  unfilled : curr.va ∉ done.map Prod.fst
  distinct : (done.map Prod.fst).Nodup
  bus : ∀ p ∈ done, (c.mem p.1).busRange desc.dir = p.2.busRange
  vme : ∀ p ∈ done, (c.mem p.1).vmeRange desc.dir = p.2.vmeRange
  filled : c.filled = done.map Prod.fst
  pool : PoolSound alloc c

structure Built (desc : VmeDma) (first : Word × Word) (c : DmaChain w)
    (done : List (Nat × Chunk w)) : Prop where
  walk : c.pointers.Walk first (done.map Prod.fst)
  distinct : (done.map Prod.fst).Nodup
  bus : ∀ p ∈ done, (c.mem p.1).busRange desc.dir = p.2.busRange
  vme : ∀ p ∈ done, (c.mem p.1).vmeRange desc.dir = p.2.vmeRange
  filled : c.filled = done.map Prod.fst

section Pass

variable {alloc : DmaAlloc w} {desc : VmeDma} {first : Word × Word}
  {c : DmaChain w} {done : List (Nat × Chunk w)} {curr : HwDescEntry w}

theorem Building.forall_snoc (h : Building alloc desc first c done curr)
    {P : Tsi148DmaDesc → Chunk w → Prop} {ch : Chunk w} {t : Tsi148DmaDesc}
    (hdone : ∀ p ∈ done, P (c.mem p.1) p.2) (ht : P t ch) :
    ∀ p ∈ done ++ [(curr.va, ch)],
      P (Function.update c.mem curr.va t p.1) p.2 := by
  intro p hp
  rcases List.mem_append.mp hp with hp | hp
  · have hne : p.1 ≠ curr.va := by
      intro heq
      exact h.unfilled (heq ▸ List.mem_map_of_mem hp)
    rw [Function.update_of_ne hne]
    exact hdone p hp
  · obtain rfl := List.mem_singleton.mp hp
    rw [Function.update_self]
    exact ht

theorem Building.distinct_snoc (h : Building alloc desc first c done curr)
    (ch : Chunk w) :
    ((done ++ [(curr.va, ch)]).map Prod.fst).Nodup := by
  rw [List.map_append, List.nodup_append]
  refine ⟨h.distinct, by simp, ?_⟩
  intro va hva va' hva' heq
  obtain rfl : va' = curr.va := by simpa using hva'
  exact h.unfilled (heq ▸ hva)

theorem Building.segment_write (h : Building alloc desc first c done curr)
    {c' : DmaChain w} {t : Tsi148DmaDesc}
    (hmem : c'.mem = Function.update c.mem curr.va t)
    (hnode : ∀ l va, c.pointers.node l = some va →
      c'.pointers.node l = some va) :
    c'.pointers.Segment first (done.map Prod.fst) (linkTo curr.phys) := by
  refine h.segment.congr hnode ?_
  intro va hva
  have hne : va ≠ curr.va := by
    rintro rfl
    exact h.unfilled hva
  refine pointers_next_of_mem ?_
  rw [hmem, Function.update_of_ne hne]

theorem Building.grow {v : Word} (hdir : getVmeaddr desc = .ok v)
    (h : Building alloc desc first c done curr) {b : HwDescEntry w}
    (hb : alloc.pool c.poolCalls = some b) (ch : Chunk w) (dsat ddat : Word) :
    Building alloc desc first
      (((c.fill desc curr.va ch.vme ch.dma ch.len dsat ddat).took b).chain
        curr.va b.phys)
      (done ++ [(curr.va, ch)]) b := by
  obtain ⟨t, hfill, hbus, hvme, _⟩ := c.fill_eq hdir curr.va ch dsat ddat
  have hfresh := h.pool.fresh c.poolCalls b (Nat.le_refl _) hb
  generalize hc' : ((c.fill desc curr.va ch.vme ch.dma ch.len dsat ddat).took
    b).chain curr.va b.phys = c'
  have hmem : c'.mem = Function.update c.mem curr.va
      { t with dnlau := (linkTo b.phys).1, dnlal := (linkTo b.phys).2 } := by
    rw [← hc', hfill]
    simp [DmaChain.chain, DmaChain.took]
  have hlist : c'.hwDescList = c.hwDescList ++ [b] := by
    rw [← hc', hfill]
    rfl
  have hpointers : c'.pointers.node = (c.took b).pointers.node := by
    simp only [DmaChain.pointers, hlist, DmaChain.took]
  have hnode : ∀ l va, c.pointers.node l = some va →
      c'.pointers.node l = some va := by
    intro l va hl
    rw [hpointers]
    exact pointers_node_took b hl
  have hnext : c'.pointers.next curr.va = some (linkTo b.phys) := by
    simp only [DmaChain.pointers, hmem, Function.update_self,
      linkTo_not_last, if_true]
  have hnot : ∀ e ∈ c.hwDescList, b.va ≠ e.va := fun e he => (hfresh e he).1
  refine
    { segment := ?_
      node := ?_
      listed := ?_
      pending := ?_
      unfilled := ?_
      distinct := h.distinct_snoc ch
      bus := ?_
      vme := ?_
      filled := ?_
      pool := (h.pool.took hb).congr ?_ ?_ }
  · rw [List.map_append]
    exact (h.segment_write hmem hnode).snoc (hnode _ _ h.node) hnext
  · rw [hpointers]
    exact pointers_node_new (h.pool.aligned _ b hb) (h.pool.low _ b hb)
      fun e he => (hfresh e he).2
  · intro p hp
    rw [hlist]
    rcases List.mem_append.mp hp with hp | hp
    · obtain ⟨e, he, hva⟩ := h.listed p hp
      exact ⟨e, List.mem_append_left _ he, hva⟩
    · obtain rfl := List.mem_singleton.mp hp
      exact ⟨curr, List.mem_append_left _ h.pending, rfl⟩
  · rw [hlist]
    exact List.mem_append_right _ (List.mem_singleton.mpr rfl)
  · intro hmem'
    obtain ⟨p, hp, hva⟩ := List.mem_map.mp hmem'
    rcases List.mem_append.mp hp with hp | hp
    · obtain ⟨e, he, heva⟩ := h.listed p hp
      exact hnot e he (hva.symm.trans heva.symm)
    · obtain rfl := List.mem_singleton.mp hp
      exact hnot curr h.pending hva.symm
  · rw [hmem]
    exact h.forall_snoc (P := fun t ch => t.busRange desc.dir = ch.busRange)
      h.bus hbus
  · rw [hmem]
    exact h.forall_snoc (P := fun t ch => t.vmeRange desc.dir = ch.vmeRange)
      h.vme hvme
  · have hlog : c'.filled = c.filled ++ [curr.va] := by
      rw [← hc', hfill]
      rfl
    rw [hlog, h.filled, List.map_append]
    rfl
  · rw [← hc', hfill]
    rfl
  · exact hlist

theorem Building.finish {v : Word} (hdir : getVmeaddr desc = .ok v)
    (h : Building alloc desc first c done curr) (ch : Chunk w)
    (dsat ddat : Word) :
    Built desc first (c.fill desc curr.va ch.vme ch.dma ch.len dsat ddat)
      (done ++ [(curr.va, ch)]) := by
  obtain ⟨t, hfill, hbus, hvme, hlla⟩ := c.fill_eq hdir curr.va ch dsat ddat
  generalize c.fill desc curr.va ch.vme ch.dma ch.len dsat ddat = c' at hfill ⊢
  have hmem : c'.mem = Function.update c.mem curr.va t := by rw [hfill]
  have hnode : c'.pointers.node = c.pointers.node := by rw [hfill]; rfl
  refine
    { walk := ?_
      distinct := h.distinct_snoc ch
      bus := ?_
      vme := ?_
      filled := ?_ }
  · have hlast : c'.pointers.next curr.va = none := by
      simp only [DmaChain.pointers, hmem, Function.update_self, hlla]
      rfl
    have hcurr : c'.pointers.node (linkTo curr.phys) = some curr.va := by
      rw [hnode]
      exact h.node
    rw [List.map_append]
    refine (h.segment_write hmem fun l va hl => ?_).walk (.last hcurr hlast)
    rwa [hnode]
  · rw [hmem]
    exact h.forall_snoc (P := fun t ch => t.busRange desc.dir = ch.busRange)
      h.bus hbus
  · rw [hmem]
    exact h.forall_snoc (P := fun t ch => t.vmeRange desc.dir = ch.vmeRange)
      h.vme hvme
  · rw [hfill, List.map_append]
    show c.filled ++ [curr.va] = _
    rw [h.filled]
    rfl

end Pass

/-! ## The loop -/

/-- How the loop ends, started with `done` in the chain, against the chunks
the arithmetic yields. With no chunk at all it hands back the `next` it was
given; otherwise it leaves a descriptor in hand exactly when there is more to
come, or when it stopped short of the end of the entry. -/
inductive LinkOutcome (alloc : DmaAlloc w) (desc : VmeDma) (args : LinkArgs w)
    (first : Word × Word) (done : List (Nat × Chunk w)) (dma : BitVec w)
    (next : Option Nat) (c : DmaChain w) :
    Option (List (Chunk w)) → Except DmaStop (Option Nat) × DmaChain w → Prop
  | nomem {cs : Option (List (Chunk w))} {c' : DmaChain w} :
      LinkOutcome alloc desc args first done dma next c cs
        (.error (.rc .enomem), c')
  | hang {c' : DmaChain w} :
      LinkOutcome alloc desc args first done dma next c none (.error .hang, c')
  | skip :
      LinkOutcome alloc desc args first done dma next c (some []) (.ok next, c)
  | grown {steps : List (Nat × Chunk w)} {c' : DmaChain w}
      {b : HwDescEntry w} :
      steps ≠ [] →
      args.more = true ∨ busEnd dma (steps.map Prod.snd) < args.dmaEnd →
      Building alloc desc first c' (done ++ steps) b →
      LinkOutcome alloc desc args first done dma next c
        (some (steps.map Prod.snd)) (.ok (some b.va), c')
  | built {steps : List (Nat × Chunk w)} {c' : DmaChain w} {q : Option Nat} :
      steps ≠ [] →
      ¬ (args.more = true ∨ busEnd dma (steps.map Prod.snd) < args.dmaEnd) →
      Built desc first c' (done ++ steps) →
      LinkOutcome alloc desc args first done dma next c
        (some (steps.map Prod.snd)) (.ok q, c')

theorem DmaChain.fill_poolCalls (desc : VmeDma) (va : Nat) (vme : Word)
    (dma : BitVec w) (len dsat ddat : Word) (c : DmaChain w) :
    (c.fill desc va vme dma len dsat ddat).poolCalls = c.poolCalls := by
  unfold DmaChain.fill
  split <;> rfl

theorem LinkOutcome.cons {alloc : DmaAlloc w} {desc : VmeDma}
    {args : LinkArgs w} {first : Word × Word} {done : List (Nat × Chunk w)}
    {dma : BitVec w} {next : Option Nat} {c c₁ : DmaChain w} {va : Nat}
    {b : HwDescEntry w} {ch : Chunk w} {cs : Option (List (Chunk w))}
    {r : Except DmaStop (Option Nat) × DmaChain w}
    (hb : Building alloc desc first c₁ (done ++ [(va, ch)]) b)
    (hmore : args.more = true ∨ dma + ch.len.setWidth w < args.dmaEnd)
    (h : LinkOutcome alloc desc args first (done ++ [(va, ch)])
      (dma + ch.len.setWidth w) (some b.va) c₁ cs r) :
    LinkOutcome alloc desc args first done dma next c (cs.map (ch :: ·)) r := by
  cases h with
  | nomem => exact .nomem
  | hang => exact .hang
  | skip => exact .grown (List.cons_ne_nil (va, ch) []) hmore hb
  | @grown steps _ _ _ hend hbuild =>
    rw [List.append_assoc] at hbuild
    exact .grown (List.cons_ne_nil (va, ch) steps) hend hbuild
  | @built steps _ _ _ hend hbuilt =>
    rw [List.append_assoc] at hbuilt
    exact .built (List.cons_ne_nil (va, ch) steps) hend hbuilt

theorem linkAddLoop_outcome {alloc : DmaAlloc w} {desc : VmeDma}
    {args : LinkArgs w} {first : Word × Word} {v : Word}
    (hdir : getVmeaddr desc = .ok v) (fuel : Nat) (next : Option Nat)
    (vme : Word) (dma : BitVec w) (len : Word) {c : DmaChain w}
    {done : List (Nat × Chunk w)} {curr : HwDescEntry w}
    (h : Building alloc desc first c done curr) :
    LinkOutcome alloc desc args first done dma next c
      (chunks desc args.bshift args.vmeEnd args.dmaEnd fuel vme dma len)
      (linkAddLoop alloc desc args fuel (some curr.va) next vme dma len c) := by
  induction fuel generalizing next vme dma len c done curr with
  | zero => exact .hang
  | succ fuel ih =>
    unfold chunks linkAddLoop
    by_cases hguard : vme < args.vmeEnd ∧ dma < args.dmaEnd
    · rw [if_pos hguard, if_pos hguard]
      dsimp only
      generalize chunkLen args.bshift vme len dma args.dmaEnd = n
      by_cases hmore : args.more = true ∨ dma + n.setWidth w < args.dmaEnd
      · rw [if_pos hmore]
        rcases hwdescInit_cases alloc
            (c.fill desc curr.va vme dma n args.dsat args.ddat) with
          ⟨c', hfail⟩ | ⟨b, hb, hok⟩
        · rw [hfail]
          exact .nomem
        · rw [hok]
          rw [DmaChain.fill_poolCalls] at hb
          have hgrow := h.grow hdir hb ⟨vme, dma, n⟩ args.dsat args.ddat
          exact .cons hgrow hmore (ih _ _ _ _ hgrow)
      · rw [if_neg hmore]
        have hfinish := h.finish hdir ⟨vme, dma, n⟩ args.dsat args.ddat
        have hend : ¬ dma + n.setWidth w < args.dmaEnd := fun hlt =>
          hmore (.inr hlt)
        -- The entry is used up, so the next test of the loop ends it.
        cases fuel with
        | zero => exact .hang
        | succ fuel =>
          unfold chunks linkAddLoop
          rw [if_neg (fun hg => hend hg.2), if_neg (fun hg => hend hg.2)]
          have hcons : [(curr.va, (⟨vme, dma, n⟩ : Chunk w))] ≠ [] :=
            List.cons_ne_nil _ _
          exact .built hcons hmore hfinish
    · rw [if_neg hguard, if_neg hguard]
      exact .skip

/-! ## The entries -/

def entryChunks (desc : VmeDma) (fuel : Nat) (vmeAddr : Word)
    (sg : SgEntry w) : Option (List (Chunk w)) :=
  chunks desc (tsi148GetBshift desc) (vmeAddr + sg.dmaLen)
    (sg.dmaAddress + sg.dmaLen.setWidth w) fuel vmeAddr sg.dmaAddress sg.dmaLen

/-- `cs` are the chunks of the entries one after the other: each entry has
some, and the last one is used up. -/
inductive ChainChunks (desc : VmeDma) (fuel : Nat) :
    Word → List (SgEntry w) → List (Chunk w) → Prop
  | nil {v : Word} : ChainChunks desc fuel v [] []
  | cons {v : Word} {sg : SgEntry w} {sgl : List (SgEntry w)}
      {cs rest : List (Chunk w)} :
      entryChunks desc fuel v sg = some cs → cs ≠ [] →
      (sgl = [] → ¬ busEnd sg.dmaAddress cs <
        sg.dmaAddress + sg.dmaLen.setWidth w) →
      ChainChunks desc fuel (desc.vmeAfter v sg.dmaLen) sgl rest →
      ChainChunks desc fuel v (sg :: sgl) (cs ++ rest)

section Setup

variable {alloc : DmaAlloc w} {desc : VmeDma} {first : Word × Word}
  {v vmeAddr : Word} {c c' : DmaChain w} {done : List (Nat × Chunk w)}
  {curr : HwDescEntry w} {sgl : List (SgEntry w)}

theorem tsi148DmaLinkAdd_outcome (hdir : getVmeaddr desc = .ok v)
    (fuel numpages i : Nat) (dsat ddat vmeAddr : Word) (sg : SgEntry w)
    (h : Building alloc desc first c done curr) :
    LinkOutcome alloc desc (linkArgs vmeAddr sg.dmaAddress sg.dmaLen numpages i
        (tsi148GetBshift desc) dsat ddat)
      first done sg.dmaAddress none c (entryChunks desc fuel vmeAddr sg)
      (tsi148DmaLinkAdd alloc desc fuel (some curr.va) vmeAddr sg.dmaAddress
        sg.dmaLen numpages i (tsi148GetBshift desc) dsat ddat c) :=
  linkAddLoop_outcome hdir fuel none vmeAddr sg.dmaAddress sg.dmaLen h

theorem linkArgs_more_iff {numpages i : Nat} (vmeAddr : Word) (sg : SgEntry w)
    (bshift : Nat) (dsat ddat : Word)
    (hpages : numpages = i + (sg :: sgl).length) :
    (linkArgs vmeAddr sg.dmaAddress sg.dmaLen numpages i bshift dsat
      ddat).more = true ↔ sgl ≠ [] := by
  rw [List.length_cons] at hpages
  rw [← List.length_pos_iff]
  unfold linkArgs
  rw [decide_eq_true_iff]
  omega

theorem setupChainLoop_of_chunks {fuel numpages i : Nat} (dsat ddat : Word)
    {cs : List (Chunk w)} (hdir : getVmeaddr desc = .ok v)
    (h : ChainChunks desc fuel vmeAddr sgl cs) (hne : sgl ≠ [])
    (hpages : numpages = i + sgl.length)
    (hb : Building alloc desc first c done curr) :
    (∃ c', setupChainLoop alloc desc fuel numpages dsat ddat sgl i
        (some curr.va) vmeAddr c = (.error (.rc .enomem), c')) ∨
      ∃ c' steps, setupChainLoop alloc desc fuel numpages dsat ddat sgl i
          (some curr.va) vmeAddr c = (.ok (), c') ∧
        steps.map Prod.snd = cs ∧ Built desc first c' (done ++ steps) := by
  induction h generalizing i c done curr with
  | nil => exact absurd rfl hne
  | @cons vmeAddr sg sgl cs rest hcs hcs' hlast hrest ih =>
    have hmore := linkArgs_more_iff vmeAddr sg (tsi148GetBshift desc) dsat
      ddat hpages
    have hout := tsi148DmaLinkAdd_outcome hdir fuel numpages i dsat ddat
      vmeAddr sg hb
    rw [hcs] at hout
    unfold setupChainLoop
    generalize tsi148DmaLinkAdd alloc desc fuel (some curr.va) vmeAddr
      sg.dmaAddress sg.dmaLen numpages i (tsi148GetBshift desc) dsat ddat c
      = r at hout ⊢
    cases hout with
    | nomem => exact .inl ⟨_, rfl⟩
    | skip => exact absurd rfl hcs'
    | @grown steps c₁ b _ hend hbuild =>
      have hne' : sgl ≠ [] := by
        intro hs
        rcases hend with hm | hshort
        · exact hmore.mp hm hs
        · exact hlast hs hshort
      have hpages' : numpages = i + 1 + sgl.length := by
        rw [List.length_cons] at hpages
        omega
      rcases ih hne' hpages' hbuild with
        ⟨c', hfail⟩ | ⟨c', steps', hrun, hsteps, hbuilt⟩
      · exact .inl ⟨c', hfail⟩
      · refine .inr ⟨c', steps ++ steps', hrun, ?_, ?_⟩
        · rw [List.map_append, hsteps]
        · rw [← List.append_assoc]
          exact hbuilt
    | @built steps c₁ q _ hend hbuilt =>
      have hs : sgl = [] := by
        by_contra hs
        exact hend (.inl (hmore.mpr hs))
      subst hs
      cases hrest
      exact .inr ⟨c₁, steps, rfl, by rw [List.append_nil], hbuilt⟩

theorem setupChainLoop_ok {fuel numpages i : Nat} {dsat ddat : Word}
    (hdir : getVmeaddr desc = .ok v) (hpages : numpages = i + sgl.length)
    (hb : Building alloc desc first c done curr) (hne : sgl ≠ [])
    (hrun : setupChainLoop alloc desc fuel numpages dsat ddat sgl i
      (some curr.va) vmeAddr c = (.ok (), c')) :
    ∃ steps, (∃ b, Building alloc desc first c' (done ++ steps) b) ∨
      (Built desc first c' (done ++ steps) ∧
        ChainChunks desc fuel vmeAddr sgl (steps.map Prod.snd)) := by
  induction sgl generalizing i vmeAddr c done curr with
  | nil => exact absurd rfl hne
  | cons sg sgl ih =>
    have hmore := linkArgs_more_iff vmeAddr sg (tsi148GetBshift desc) dsat
      ddat hpages
    have hout := tsi148DmaLinkAdd_outcome hdir fuel numpages i dsat ddat
      vmeAddr sg hb
    unfold setupChainLoop at hrun
    generalize hcs : entryChunks desc fuel vmeAddr sg = cs at hout
    generalize tsi148DmaLinkAdd alloc desc fuel (some curr.va) vmeAddr
      sg.dmaAddress sg.dmaLen numpages i (tsi148GetBshift desc) dsat ddat c
      = r at hout hrun
    cases hout with
    | nomem => cases hrun
    | hang => cases hrun
    | skip =>
      cases sgl with
      | nil =>
        cases hrun
        refine ⟨[], .inl ⟨curr, ?_⟩⟩
        rw [List.append_nil]
        exact hb
      | cons => cases hrun
    | @grown steps c₁ b hsteps hend hbuild =>
      by_cases hs : sgl = []
      · subst hs
        cases hrun
        exact ⟨steps, .inl ⟨b, hbuild⟩⟩
      · have hpages' : numpages = i + 1 + sgl.length := by
          rw [List.length_cons] at hpages
          omega
        obtain ⟨steps', hres⟩ := ih hpages' hbuild hs hrun
        refine ⟨steps ++ steps', ?_⟩
        rw [← List.append_assoc, List.map_append]
        rcases hres with hpending | ⟨hbuilt, hchunks⟩
        · exact .inl hpending
        · have hcons : steps.map Prod.snd ≠ [] := by simpa using hsteps
          exact .inr ⟨hbuilt, .cons hcs hcons (fun h => absurd h hs) hchunks⟩
    | @built steps c₁ q hsteps hend hbuilt =>
      have hs : sgl = [] := by
        by_contra hs
        exact hend (.inl (hmore.mpr hs))
      subst hs
      cases hrun
      have hcons : steps.map Prod.snd ≠ [] := by simpa using hsteps
      have hchunks := ChainChunks.cons hcs hcons
        (fun _ h => hend (.inr h)) .nil
      rw [List.append_nil] at hchunks
      exact ⟨steps, .inr ⟨hbuilt, hchunks⟩⟩

theorem Building.start (h : PoolSound alloc c) {b : HwDescEntry w}
    (hb : alloc.pool c.poolCalls = some b) :
    Building alloc desc (linkTo b.phys)
      (DmaChain.took { c with filled := [] } b) [] b where
  segment := rfl
  node := pointers_node_new (h.aligned _ b hb) (h.low _ b hb) fun e he =>
    (h.fresh c.poolCalls b (Nat.le_refl _) hb e he).2
  listed := fun _ hp => absurd hp List.not_mem_nil
  pending := List.mem_append_right _ (List.mem_singleton.mpr rfl)
  unfilled := List.not_mem_nil
  distinct := List.nodup_nil
  bus := fun _ hp => absurd hp List.not_mem_nil
  vme := fun _ hp => absurd hp List.not_mem_nil
  filled := rfl
  pool := PoolSound.took (h.congr rfl rfl) hb

theorem Building.program (h : Building alloc desc first c done curr)
    (l : Word × Word) :
    Building alloc desc first { c with dnlau := l.1, dnlal := l.2 } done curr :=
  ⟨h.segment, h.node, h.listed, h.pending, h.unfilled, h.distinct, h.bus,
    h.vme, h.filled, h.pool.congr rfl rfl⟩

theorem Built.program (h : Built desc first c done) (l : Word × Word) :
    Built desc first { c with dnlau := l.1, dnlal := l.2 } done :=
  ⟨h.walk, h.distinct, h.bus, h.vme, h.filled⟩

theorem tsi148DmaSetupChain_of_chunks {fuel : Nat} (dsat ddat : Word)
    {cs : List (Chunk w)} (hdir : getVmeaddr desc = .ok v)
    (hpool : PoolSound alloc c) (hne : sgl ≠ [])
    (h : ChainChunks desc fuel v sgl cs) :
    (∃ c', tsi148DmaSetupChain fuel alloc desc sgl dsat ddat c =
        (.error (.rc .enomem), c')) ∨
      ∃ c' steps, tsi148DmaSetupChain fuel alloc desc sgl dsat ddat c =
          (.ok (), c') ∧
        steps.map Prod.snd = cs ∧
        Built desc (c'.dnlau, c'.dnlal) c' steps := by
  unfold tsi148DmaSetupChain
  rcases hwdescInit_cases alloc { c with filled := [] } with
    ⟨c', hfail⟩ | ⟨b, hb, hok⟩
  · rw [hfail]
    exact .inl ⟨c', rfl⟩
  · rw [hok]
    dsimp only
    rw [hdir]
    have hstart : Building alloc desc (linkTo b.phys) _ [] b :=
      .start hpool hb
    rcases setupChainLoop_of_chunks dsat ddat hdir h hne
        (Nat.zero_add _).symm hstart with
      ⟨c', hfail⟩ | ⟨c', steps, hrun, hsteps, hbuilt⟩
    · refine .inl ⟨tsi148DmaFreeChain c', ?_⟩
      dsimp only
      rw [hfail]
    · rw [List.nil_append] at hbuilt
      have hbuilt := hbuilt.program (linkTo b.phys)
      generalize hc : ({ c' with dnlau := (linkTo b.phys).1,
                                 dnlal := (linkTo b.phys).2 } : DmaChain w) =
        c₁ at hbuilt
      refine .inr ⟨c₁, steps, ?_, hsteps, ?_⟩
      · dsimp only
        rw [hrun, ← hc]
      · subst hc
        exact hbuilt

theorem tsi148DmaSetupChain_ok {fuel : Nat} {dsat ddat : Word}
    (hdir : getVmeaddr desc = .ok v) (hpool : PoolSound alloc c)
    (hne : sgl ≠ [])
    (hrun : tsi148DmaSetupChain fuel alloc desc sgl dsat ddat c = (.ok (), c')) :
    ∃ steps, (∃ b, Building alloc desc (c'.dnlau, c'.dnlal) c' steps b) ∨
      (Built desc (c'.dnlau, c'.dnlal) c' steps ∧
        ChainChunks desc fuel v sgl (steps.map Prod.snd)) := by
  unfold tsi148DmaSetupChain at hrun
  rcases hwdescInit_cases alloc { c with filled := [] } with
    ⟨c₀, hfail⟩ | ⟨b, hb, hok⟩
  · rw [hfail] at hrun
    cases hrun
  · rw [hok] at hrun
    dsimp only at hrun
    rw [hdir] at hrun
    dsimp only at hrun
    split at hrun
    · cases hrun
    · cases hrun
    · next c₁ hloop =>
      cases hrun
      have hstart : Building alloc desc (linkTo b.phys) _ [] b :=
        .start hpool hb
      obtain ⟨steps, hres⟩ :=
        setupChainLoop_ok hdir (Nat.zero_add _).symm hstart hne hloop
      refine ⟨steps, ?_⟩
      rcases hres with ⟨b', hpending⟩ | ⟨hbuilt, hchunks⟩
      · exact .inl ⟨b', hpending.program (linkTo b.phys)⟩
      · exact .inr ⟨hbuilt.program (linkTo b.phys), hchunks⟩

end Setup

end Coht.Vmebridge
