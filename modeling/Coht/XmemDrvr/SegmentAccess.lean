import Coht.XmemDrvr.Segments
import Coht.Lib.Word
import Mathlib.Algebra.GroupWithZero.Nat

/-!
# Which part of the SDRAM a request reaches

The driver knows where a segment is and how long, but compares no request with
its length: `InSegment` holds of every access if the request itself is inside.
Both methods begin at the offset of the request and go no further than its
size, and neither writes for a node that may not.

The DMA method takes the module from the request and all else from the
client's selection; the statement is about requests in which they agree.
-/

namespace Coht.XmemDrvr

open Coht.Lib

/-- The thresholds that calls of `XmemDrvrSET_DMA_THRESHOLD` lead to. -/
def Threshold (t : U32) : Prop :=
  ∃ lavs : List U32, t = lavs.foldl setDmaThreshold XmemDrvrDEFAULT_DMA_THRESHOLD

theorem Threshold.le {t : U32} (h : Threshold t) : t.toNat ≤ PAGESIZE := by
  obtain ⟨lavs, rfl⟩ := h
  suffices hall : ∀ old : U32, old.toNat ≤ PAGESIZE →
      (lavs.foldl setDmaThreshold old).toNat ≤ PAGESIZE from
    hall _ (by decide)
  induction lavs with
  | nil => exact fun _ h => h
  | cons lav lavs ih =>
    intro old hold
    refine ih _ ?_
    unfold setDmaThreshold
    split
    · next hlt => exact Nat.le_of_lt hlt
    · exact hold

/-- Each byte of an access is in the segment `sgx` on the module `sel`, and if
it is written, the node of the module is one of those of the segment. -/
structure InSegment (wa : XmemDrvrWorkingArea) (sel sgx : Nat) (t : Touch) :
    Prop where
  module : t.module = sel
  bytes : ∀ k < t.len,
    (wa.segTable.descriptors sgx).address.toNat ≤
      (t.start + BitVec.ofNat 32 k).toNat ∧
    (t.start + BitVec.ofNat 32 k).toNat <
      (wa.segTable.descriptors sgx).address.toNat +
        (wa.segTable.descriptors sgx).size.toNat
  permitted : t.dir = .write → (wa.segTable.descriptors sgx).nodes.getLsbD
    ((wa.moduleContexts sel).nodeId - 1) = true

/-- The bytes of the request, for the segment `sgx`: `d` is how far into the
request the access begins. -/
structure OfRequest (wa : XmemDrvrWorkingArea) (siod : XmemDrvrSegIoDesc)
    (iod : XmemDrvrIoDir) (sel sgx : Nat) (t : Touch) : Prop where
  module : t.module = sel
  dir : t.dir = iod
  place : ∃ d, d + t.len ≤ siod.size.toNat ∧ t.start =
    (wa.segTable.descriptors sgx).address + siod.offset + BitVec.ofNat 32 d
  permitted : iod = .write → wrPermSeg wa.segTable siod.id
    (wa.moduleContexts sel).nodeId = true

section

variable {wa : XmemDrvrWorkingArea} {siod : XmemDrvrSegIoDesc}
  {iod : XmemDrvrIoDir} {sel sgx : Nat} {t : Touch}

theorem wrPermSeg_iff {tab : XmemDrvrSegTable} {segid : U32} {node : Nat}
    (hsgx : getSeg tab segid = some sgx) (hnode : 0 < node ∧ node ≤ 32) :
    wrPermSeg tab segid node = true ↔
      (tab.descriptors sgx).nodes.getLsbD (node - 1) = true := by
  unfold wrPermSeg
  rw [hsgx]
  dsimp only
  rw [show (node + 31) % 32 = node - 1 by omega, BitVec.and_comm,
    decide_eq_true_iff]
  exact (not_congr and_one_shiftLeft_eq_zero).trans
    (Iff.of_eq (Bool.not_eq_false _))

theorem OfRequest.inSegment (h : OfRequest wa siod iod sel sgx t)
    (hsgx : getSeg wa.segTable siod.id = some sgx)
    (hnode : 0 < (wa.moduleContexts sel).nodeId ∧
      (wa.moduleContexts sel).nodeId ≤ 32)
    (hin : siod.offset.toNat + siod.size.toNat ≤
      (wa.segTable.descriptors sgx).size.toNat)
    (hfits : (wa.segTable.descriptors sgx).address.toNat +
      (wa.segTable.descriptors sgx).size.toNat ≤ 2 ^ 32) :
    InSegment wa sel sgx t := by
  obtain ⟨d, hd, hstart⟩ := h.place
  refine ⟨h.module, fun k hk => ?_, fun hw => ?_⟩
  · have hsum : (t.start + BitVec.ofNat 32 k).toNat =
        (wa.segTable.descriptors sgx).address.toNat + siod.offset.toNat + d + k := by
      rw [hstart]
      simp only [BitVec.toNat_add, BitVec.toNat_ofNat]
      omega
    omega
  · exact (wrPermSeg_iff hsgx hnode).mp (h.permitted (h.dir.symm.trans hw))

end

/-! ## What the steps access -/

section Steps

variable {env : Nat → PageEnv} {cenv : CopyEnv} {siod sio : XmemDrvrSegIoDesc}
  {iod : XmemDrvrIoDir} {sel sgx : Nat} {s : Drvr} {e : PageEnv} {mapped : Bool}
  {t : Touch}

structure SameSetup (wa wa' : XmemDrvrWorkingArea) : Prop where
  modules : wa'.modules = wa.modules
  dmaThreshold : wa'.dmaThreshold = wa.dmaThreshold
  segTable : wa'.segTable = wa.segTable
  nodeId : ∀ m, (wa'.moduleContexts m).nodeId = (wa.moduleContexts m).nodeId

theorem SameSetup.refl (wa : XmemDrvrWorkingArea) : SameSetup wa wa :=
  ⟨rfl, rfl, rfl, fun _ => rfl⟩

theorem context_field {β : Type} {g : XmemDrvrModuleContext → β}
    {f : XmemDrvrModuleContext → XmemDrvrModuleContext} {m m' : Nat}
    (hf : ∀ mcon, g (f mcon) = g mcon) :
    g ((s.context m f).wa.moduleContexts m') = g (s.wa.moduleContexts m') := by
  unfold Drvr.context
  dsimp only
  by_cases hm : m' = m
  · subst hm
    rw [Function.update_self, hf]
  · rw [Function.update_of_ne hm]

theorem SameSetup.context {wa : XmemDrvrWorkingArea}
    {f : XmemDrvrModuleContext → XmemDrvrModuleContext} {m : Nat}
    (h : SameSetup wa s.wa) (hf : ∀ mcon, (f mcon).nodeId = mcon.nodeId) :
    SameSetup wa (s.context m f).wa :=
  ⟨h.modules, h.dmaThreshold, h.segTable,
    fun m' => (context_field hf).trans (h.nodeId m')⟩

theorem setDmaOp_dmaOp {m : Nat} {op : XmemDmaOp} :
    ((s.setDmaOp m op).wa.moduleContexts m).dmaOp = op := by
  unfold Drvr.setDmaOp Drvr.context
  dsimp only
  rw [Function.update_self]

theorem transfer_wa : (transfer e mapped t s).2.wa = s.wa := by
  cases mapped
  all_goals
    unfold transfer
    split
    · dsimp only
      split <;> rfl
    · rfl

theorem transfer_touches : (transfer e mapped t s).2.touches = s.touches ∨
    (transfer e mapped t s).2.touches = t :: s.touches := by
  cases mapped
  all_goals
    unfold transfer
    split
    · dsimp only
      split <;> exact .inr rfl
    · exact .inl rfl

theorem pageChecks_ok {wa : XmemDrvrWorkingArea}
    (h : pageChecks wa sio mapped = .ok sgx) : getSeg wa.segTable sio.id = some sgx := by
  unfold pageChecks at h
  split at h
  · cases h
  split at h
  · cases h
  split at h
  · cases h
  split at h
  · cases h
  · next hseg =>
    cases h
    exact hseg

structure PageTouch (wa : XmemDrvrWorkingArea) (sio : XmemDrvrSegIoDesc)
    (iod : XmemDrvrIoDir) (op : XmemDmaOp) (sgx : Nat) (t : Touch) : Prop where
  seg : getSeg wa.segTable sio.id = some sgx
  permitted : iod = .write → wrPermSeg wa.segTable sio.id
    (wa.moduleContexts (sio.module - 1).toNat).nodeId = true
  touch : t = ⟨(sio.module - 1).toNat, iod,
    (wa.segTable.descriptors sgx).address + sio.offset, op.len.toNat⟩

theorem pageCopy_mapped :
    (pageCopy env sio iod true s).2.wa = s.wa ∧
    ((pageCopy env sio iod true s).2.touches = s.touches ∨
      ∃ sgx t, PageTouch s.wa sio iod
        (s.wa.moduleContexts (sio.module - 1).toNat).dmaOp sgx t ∧
        (pageCopy env sio iod true s).2.touches = t :: s.touches) := by
  unfold pageCopy
  dsimp only
  split
  · exact ⟨rfl, .inl rfl⟩
  · next sgx hchecks =>
    rw [if_pos rfl]
    unfold pageDma
    dsimp only
    split
    · exact ⟨rfl, .inl rfl⟩
    split
    · exact ⟨rfl, .inl rfl⟩
    · next hperm =>
      refine ⟨transfer_wa, transfer_touches.imp_right fun htouches =>
        ⟨sgx, _, ⟨pageChecks_ok hchecks, fun hw => ?_, rfl⟩, htouches⟩⟩
      by_contra hnot
      exact hperm ⟨hw, Bool.eq_false_iff.mpr hnot⟩

theorem copyChain_touches {wa : XmemDrvrWorkingArea} {chain : List (U32 × U32)}
    {d : Nat} (hwa : SameSetup wa s.wa) (hmod : (siod.module - 1).toNat = sel)
    (hsgx : getSeg wa.segTable siod.id = some sgx)
    (hsize : d + (chain.map fun c => c.2.toNat).sum ≤ siod.size.toNat)
    (hid : sio.id = siod.id) (hm : sio.module = siod.module)
    (hoff : sio.offset = siod.offset + BitVec.ofNat 32 d)
    (hall : ∀ t ∈ s.touches, OfRequest wa siod iod sel sgx t) :
    SameSetup wa (copyChain env sel iod chain sio s).2.wa ∧
    ∀ t ∈ (copyChain env sel iod chain sio s).2.touches,
      OfRequest wa siod iod sel sgx t := by
  induction chain generalizing d sio s with
  | nil => exact ⟨hwa, hall⟩
  | cons c chain ih =>
    obtain ⟨address, count⟩ := c
    rw [List.map_cons, List.sum_cons] at hsize
    dsimp only at hsize
    have hset : SameSetup wa
        (s.setDmaOp sel { dma := address, len := count }).wa :=
      hwa.context fun _ => rfl
    obtain ⟨hpwa, htouches⟩ := @pageCopy_mapped env sio iod
      (s.setDmaOp sel { dma := address, len := count })
    have hpage : ∀ t ∈ (pageCopy env sio iod true
        (s.setDmaOp sel { dma := address, len := count })).2.touches,
        OfRequest wa siod iod sel sgx t := by
      obtain heq | ⟨sgx', t, ht, heq⟩ := htouches <;> rw [heq]
      · exact hall
      · intro t' ht'
        obtain rfl | hold := List.mem_cons.mp ht'
        · have hseg := ht.seg
          rw [hset.segTable, hid, hsgx] at hseg
          cases hseg
          obtain rfl := ht.touch
          refine ⟨by rw [hm]; exact hmod, rfl, ⟨d, ?_, ?_⟩, fun hw => ?_⟩
          · rw [hm, hmod, setDmaOp_dmaOp]
            dsimp only
            omega
          · rw [hset.segTable, hoff, BitVec.add_assoc]
          · have hperm := ht.permitted hw
            rwa [hset.segTable, hset.nodeId, hid, hm, hmod] at hperm
        · exact hall t' hold
    rw [copyChain]
    split
    · next err s' hcopy =>
      rw [hcopy] at hpwa hpage
      exact ⟨hpwa ▸ hset, hpage⟩
    · next s' hcopy =>
      rw [hcopy] at hpwa hpage
      refine ih (d := d + count.toNat) (hpwa ▸ hset) (by omega) hid hm ?_
        hpage
      have hcount : BitVec.ofNat 32 (d + count.toNat) =
          BitVec.ofNat 32 d + count := by
        apply BitVec.eq_of_toNat_eq
        rw [BitVec.toNat_add, BitVec.toNat_ofNat, BitVec.toNat_ofNat,
          Nat.mod_add_mod]
      rw [hoff, BitVec.add_assoc, hcount]

theorem longCopy_touches {wa : XmemDrvrWorkingArea}
    (hperm : iod = .write → wrPermSeg wa.segTable siod.id
      (wa.moduleContexts sel).nodeId = true)
    (hall : ∀ t ∈ s.touches, OfRequest wa siod iod sel sgx t) :
    ∀ t ∈ (longCopy sel iod ((wa.segTable.descriptors sgx).address + siod.offset)
      siod.size s).touches, OfRequest wa siod iod sel sgx t := by
  unfold longCopy
  split
  · exact hall
  · intro t ht
    obtain rfl | hold := List.mem_cons.mp ht
    · refine ⟨rfl, rfl, ⟨0, ?_, (BitVec.add_zero _).symm⟩, hperm⟩
      dsimp only
      omega
    · exact hall t hold

theorem copyData_touches {wa : XmemDrvrWorkingArea} (hwa : SameSetup wa s.wa)
    (hmod : siod.size < wa.dmaThreshold ∨ (siod.module - 1).toNat = sel)
    (hchain : ∀ chain, cenv.chain = some chain →
      (chain.map fun c => c.2.toNat).sum = siod.size.toNat)
    (hsgx : getSeg wa.segTable siod.id = some sgx)
    (hall : ∀ t ∈ s.touches, OfRequest wa siod iod sel sgx t) :
    SameSetup wa (copyData env cenv siod iod sel sgx s).2.wa ∧
    ∀ t ∈ (copyData env cenv siod iod sel sgx s).2.touches,
      OfRequest wa siod iod sel sgx t := by
  unfold copyData
  split
  · next hdma =>
    rw [hwa.dmaThreshold] at hdma
    have hsel : (siod.module - 1).toNat = sel :=
      hmod.resolve_left (BitVec.not_lt.mpr hdma)
    split
    · exact ⟨hwa, hall⟩
    · next chain hc =>
      dsimp only
      generalize hlock : (if chain.isEmpty = true then s else
        s.acquire .pages) = s'
      have hwa' : s'.wa = s.wa := by
        subst hlock
        split <;> rfl
      have htouches : s'.touches = s.touches := by
        subst hlock
        split <;> rfl
      rw [← hwa'] at hwa
      rw [← htouches] at hall
      split
      · exact ⟨hwa, hall⟩
      · exact copyChain_touches (d := 0) hwa hsel hsgx
          (Nat.le_of_eq ((Nat.zero_add _).trans (hchain chain hc))) rfl rfl
          (BitVec.add_zero _).symm hall
  · dsimp only
    split
    · exact ⟨hwa, hall⟩
    · next hperm =>
      rw [hwa.segTable]
      refine ⟨?_, longCopy_touches (fun hw => ?_) hall⟩
      · unfold longCopy
        split <;> exact hwa
      · rw [hwa.segTable, hwa.nodeId] at hperm
        by_contra hnot
        exact hperm ⟨hw, Bool.eq_false_iff.mpr hnot⟩

/-- The bytes of the request, in a segment that is in use. -/
def Requested (wa : XmemDrvrWorkingArea) (siod : XmemDrvrSegIoDesc)
    (iod : XmemDrvrIoDir) (sel : Nat) (t : Touch) : Prop :=
  siod.id ≠ 0 ∧ ∃ sgx, getSeg wa.segTable siod.id = some sgx ∧
    OfRequest wa siod iod sel sgx t

theorem segmentCopy_touches {wa : XmemDrvrWorkingArea} (hwa : SameSetup wa s.wa)
    (hmod : siod.size < wa.dmaThreshold ∨ (siod.module - 1).toNat = sel)
    (hchain : ∀ chain, cenv.chain = some chain →
      (chain.map fun c => c.2.toNat).sum = siod.size.toNat)
    (hnone : s.touches = []) :
    ∀ t ∈ (segmentCopy env cenv siod iod sel s).2.touches,
      Requested wa siod iod sel t := by
  have hbusy : SameSetup wa (s.busy sel (-1)).wa := hwa.context fun _ => rfl
  have hempty : ∀ t ∈ s.touches, Requested wa siod iod sel t := by
    rw [hnone]
    exact fun t ht => by cases ht
  unfold segmentCopy
  dsimp only
  split
  · exact hempty
  split
  · exact hempty
  · next hid =>
    split
    · exact hempty
    · next sgx hsgx =>
      rw [hbusy.segTable] at hsgx
      intro t ht
      refine ⟨hid, sgx, hsgx, ?_⟩
      refine (copyData_touches (s := s.busy sel (-1)) hbusy hmod hchain hsgx
        (fun t ht => ?_)).2 t ht
      rw [show (s.busy sel (-1)).touches = [] from hnone] at ht
      cases ht

/-- A request that names no segment in use, or one that the node of the module
may not write. -/
def Refused (wa : XmemDrvrWorkingArea) (siod : XmemDrvrSegIoDesc)
    (iod : XmemDrvrIoDir) (sel : Nat) : Prop :=
  siod.id = 0 ∨ getSeg wa.segTable siod.id = none ∨
    iod = .write ∧ wrPermSeg wa.segTable siod.id
      (wa.moduleContexts sel).nodeId = false

theorem Requested.not_refused {wa : XmemDrvrWorkingArea}
    (h : Requested wa siod iod sel t) : ¬ Refused wa siod iod sel := by
  obtain ⟨hid, sgx, hsgx, hof⟩ := h
  rintro (hzero | hnone | ⟨hw, hperm⟩)
  · exact hid hzero
  · rw [hnone] at hsgx
    cases hsgx
  · rw [hof.permitted hw] at hperm
    cases hperm

theorem pageCopy_denied (hmod : (sio.module - 1).toNat = sel)
    (hw : iod = .write) (hperm : wrPermSeg s.wa.segTable sio.id
      (s.wa.moduleContexts sel).nodeId = false) :
    (pageCopy env sio iod true s).1 ≠ none := by
  unfold pageCopy
  dsimp only
  split
  · exact fun h => by cases h
  · rw [if_pos rfl]
    unfold pageDma
    dsimp only
    split
    · exact fun h => by cases h
    · rw [hmod, if_pos ⟨hw, hperm⟩]
      exact fun h => by cases h

theorem copyChain_denied {wa : XmemDrvrWorkingArea} {c : U32 × U32}
    {chain : List (U32 × U32)} (hwa : SameSetup wa s.wa)
    (hmod : (sio.module - 1).toNat = sel) (hw : iod = .write)
    (hperm : wrPermSeg wa.segTable sio.id (wa.moduleContexts sel).nodeId = false) :
    (copyChain env sel iod (c :: chain) sio s).1 ≠ none := by
  have hset : SameSetup wa (s.setDmaOp sel { dma := c.1, len := c.2 }).wa :=
    hwa.context fun _ => rfl
  have hpage : (pageCopy env sio iod true
      (s.setDmaOp sel { dma := c.1, len := c.2 })).1 ≠ none :=
    pageCopy_denied hmod hw (by rw [hset.segTable, hset.nodeId]; exact hperm)
  rw [copyChain]
  split
  · exact fun h => by cases h
  · next hcopy =>
    rw [hcopy] at hpage
    exact absurd rfl hpage

theorem copyData_denied {wa : XmemDrvrWorkingArea} (hwa : SameSetup wa s.wa)
    (hmod : siod.size < wa.dmaThreshold ∨ (siod.module - 1).toNat = sel)
    (hw : iod = .write) (hperm : wrPermSeg wa.segTable siod.id
      (wa.moduleContexts sel).nodeId = false) :
    (copyData env cenv siod iod sel sgx s).1 ≠ none := by
  unfold copyData
  split
  · next hdma =>
    rw [hwa.dmaThreshold] at hdma
    have hsel : (siod.module - 1).toNat = sel :=
      hmod.resolve_left (BitVec.not_lt.mpr hdma)
    split
    · exact fun h => by cases h
    · next chain _ =>
      dsimp only
      split
      · exact fun h => by cases h
      · next hlen =>
        match chain, hlen with
        | c :: chain, _ =>
          exact copyChain_denied (s := s.acquire .pages) hwa hsel hw hperm
        | [], hlen => exact absurd (.inl rfl) hlen
  · dsimp only
    rw [hwa.segTable, hwa.nodeId, if_pos ⟨hw, hperm⟩]
    exact fun h => by cases h

theorem segmentCopy_refused {wa : XmemDrvrWorkingArea} (hwa : SameSetup wa s.wa)
    (hmod : siod.size < wa.dmaThreshold ∨ (siod.module - 1).toNat = sel)
    (h : Refused wa siod iod sel) :
    (segmentCopy env cenv siod iod sel s).1 ≠ none := by
  have hbusy : SameSetup wa (s.busy sel (-1)).wa := hwa.context fun _ => rfl
  unfold segmentCopy
  dsimp only
  split
  · exact fun h => by cases h
  split
  · exact fun h => by cases h
  · next hid =>
    split
    · exact fun h => by cases h
    · next sgx hsgx =>
      rw [hbusy.segTable] at hsgx
      obtain hzero | hnone | ⟨hw, hperm⟩ := h
      · exact absurd hzero hid
      · rw [hnone] at hsgx
        cases hsgx
      · have hdenied : (copyData env cenv siod iod sel sgx
            (s.busy sel (-1))).1 ≠ none :=
          copyData_denied hbusy hmod hw hperm
        generalize copyData env cenv siod iod sel sgx (s.busy sel (-1)) = r
          at hdenied ⊢
        dsimp only
        rw [if_neg fun h => hdenied h.1]
        exact hdenied

/-- A part of the state that neither the books, the accesses nor `mcon->DmaOp`
are in. -/
structure Apart {β : Type} (f : Drvr → β) : Prop where
  acquire : ∀ s r, f (s.acquire r) = f s
  release : ∀ s r, f (s.release r) = f s
  touch : ∀ s t, f (s.touch t) = f s
  setDmaOp : ∀ s m op, f (s.setDmaOp m op) = f s

theorem transfer_apart {β : Type} {f : Drvr → β} (hf : Apart f) :
    f (transfer e mapped t s).2 = f s := by
  have hstart : f ((s.acquire .timer).touch t) = f s :=
    (hf.touch ..).trans (hf.acquire ..)
  cases mapped
  all_goals
    unfold transfer
    split
    · dsimp only
      split
      · exact hstart
      all_goals simp only [hf.release, hstart, if_true, Bool.false_eq_true,
        if_false]
    · rfl

theorem pageCopy_apart {β : Type} {f : Drvr → β} (hf : Apart f) :
    f (pageCopy env sio iod mapped s).2 = f { s with copies := s.copies + 1 } := by
  have hdma : ∀ e mapped sram (s : Drvr),
      f (pageDma e sio iod mapped sram s).2 = f s := by
    intro e mapped sram s
    unfold pageDma
    dsimp only
    split
    · rfl
    split
    · rfl
    · exact transfer_apart hf
  unfold pageCopy
  dsimp only
  split
  · rfl
  · rw [hdma]
    split
    · rfl
    · unfold pageMap
      dsimp only
      split
      · exact hf.setDmaOp ..
      · exact (hf.acquire ..).trans (hf.setDmaOp ..)

theorem copyChain_apart {β : Type} {f : Drvr → β} (hf : Apart f)
    (hcopies : ∀ (s : Drvr) n, f { s with copies := n } = f s)
    {chain : List (U32 × U32)} :
    f (copyChain env sel iod chain sio s).2 = f s := by
  induction chain generalizing sio s with
  | nil => rfl
  | cons c chain ih =>
    have hpage : f (pageCopy env sio iod true
        (s.setDmaOp sel { dma := c.1, len := c.2 })).2 = f s :=
      (pageCopy_apart hf).trans ((hcopies ..).trans (hf.setDmaOp ..))
    rw [copyChain]
    split
    · next hcopy =>
      rw [hcopy] at hpage
      exact hpage
    · next hcopy =>
      rw [hcopy] at hpage
      rw [ih]
      exact hpage

theorem copyData_apart {β : Type} {f : Drvr → β} (hf : Apart f)
    (hcopies : ∀ (s : Drvr) n, f { s with copies := n } = f s) :
    f (copyData env cenv siod iod sel sgx s).2 = f s := by
  unfold copyData
  split
  · split
    · rfl
    · next chain _ =>
      dsimp only
      have hlock : f (if chain.isEmpty = true then s else s.acquire .pages) =
          f s := by
        split
        · rfl
        · exact hf.acquire ..
      split
      · exact hlock
      · exact (hf.release ..).trans
          ((copyChain_apart hf hcopies).trans hlock)
  · dsimp only
    split
    · rfl
    · unfold longCopy
      split
      · rfl
      · exact hf.touch ..

theorem apart_staged : Apart Drvr.staged :=
  ⟨fun _ _ => rfl, fun _ _ => rfl, fun _ _ => rfl, fun _ _ _ => rfl⟩

theorem segmentCopy_staged :
    (segmentCopy env cenv siod iod sel s).2.staged = s.staged := by
  unfold segmentCopy
  dsimp only
  split
  · rfl
  split
  · rfl
  split
  · rfl
  · exact (copyData_apart apart_staged fun _ _ => rfl :
      Drvr.staged (copyData ..).2 = Drvr.staged (s.busy sel (-1)))

theorem Requested.of_kernel {wa : XmemDrvrWorkingArea} {a : U32}
    (h : Requested wa { siod with userArray := a } iod sel t) :
    Requested wa siod iod sel t := by
  obtain ⟨hid, sgx, hsgx, hof⟩ := h
  exact ⟨hid, sgx, hsgx, hof.module, hof.dir, hof.place, hof.permitted⟩

theorem throughTempbuf_touches {wa : XmemDrvrWorkingArea}
    (hwa : SameSetup wa s.wa) (hnone : s.touches = [])
    (hchain : ∀ chain, cenv.chain = some chain →
      (chain.map fun c => c.2.toNat).sum = siod.size.toNat)
    (hmod : siod.size < wa.dmaThreshold ∨ (siod.module - 1).toNat = sel) :
    ∀ t ∈ (throughTempbuf env cenv siod iod sel s).2.touches,
      Requested wa siod iod sel t := by
  have hempty : ∀ t ∈ s.touches, Requested wa siod iod sel t := by
    rw [hnone]
    exact fun t ht => by cases ht
  unfold throughTempbuf
  dsimp only
  split
  · have hkern : ∀ t ∈ (segmentCopy env cenv { siod with
        userArray := ((s.stage siod.size.toNat).wa.moduleContexts sel).tempbuf }
        iod sel (s.stage siod.size.toNat)).2.touches, Requested wa siod iod sel t :=
      fun t ht => by
        have hwa' : SameSetup wa (s.stage siod.size.toNat).wa := hwa
        have hnone' : (s.stage siod.size.toNat).touches = [] := hnone
        refine Requested.of_kernel (segmentCopy_touches hwa' ?_ ?_ hnone' t ht)
        · exact hmod
        · exact hchain
    split <;> exact hkern
  · exact hempty

theorem throughTempbuf_staged (hnone : s.staged = []) :
    (throughTempbuf env cenv siod iod sel s).2.staged = [siod.size.toNat] := by
  have hstage : (s.stage siod.size.toNat).staged = [siod.size.toNat] :=
    congrArg (siod.size.toNat :: ·) hnone
  unfold throughTempbuf
  dsimp only
  split
  · split <;> exact segmentCopy_staged.trans hstage
  · exact hstage

theorem throughTempbuf_refused {wa : XmemDrvrWorkingArea}
    (hwa : SameSetup wa s.wa)
    (hmod : siod.size < wa.dmaThreshold ∨ (siod.module - 1).toNat = sel)
    (h : Refused wa siod iod sel) :
    (throughTempbuf env cenv siod iod sel s).1 ≠ none := by
  unfold throughTempbuf
  dsimp only
  split
  · have hkern : (segmentCopy env cenv { siod with
        userArray := ((s.stage siod.size.toNat).wa.moduleContexts sel).tempbuf }
        iod sel (s.stage siod.size.toNat)).1 ≠ none :=
      segmentCopy_refused hwa hmod h
    split
    · exact fun h => by cases h
    · exact hkern
  · exact fun h => by cases h

end Steps

/-- What an ioctl accesses are bytes of the request, inside the segment if the
request is; what it stages fits; and a request that has to be refused is. -/
theorem segment_access (env : Nat → PageEnv) (cenv : CopyEnv)
    (siod : XmemDrvrSegIoDesc) (iod : XmemDrvrIoDir) (sel : Nat) (s : Drvr)
    (hs : s.touches = [] ∧ s.staged = []) (hthr : Threshold s.wa.dmaThreshold)
    (hnode : 0 < (s.wa.moduleContexts sel).nodeId ∧
      (s.wa.moduleContexts sel).nodeId ≤ 32)
    (hchain : ∀ chain, cenv.chain = some chain →
      (chain.map fun c => c.2.toNat).sum = siod.size.toNat)
    (hmod : siod.size < s.wa.dmaThreshold ∨ (siod.module - 1).toNat = sel) :
    (∀ t ∈ (ioctlSegment env cenv siod iod sel s).2.touches,
      Requested s.wa siod iod sel t ∧
      ∀ sgx, getSeg s.wa.segTable siod.id = some sgx →
        siod.offset.toNat + siod.size.toNat ≤
          (s.wa.segTable.descriptors sgx).size.toNat →
        (s.wa.segTable.descriptors sgx).address.toNat +
          (s.wa.segTable.descriptors sgx).size.toNat ≤ 2 ^ 32 →
        InSegment s.wa sel sgx t) ∧
    (∀ k ∈ (ioctlSegment env cenv siod iod sel s).2.staged, k ≤ PAGESIZE) ∧
    (Refused s.wa siod iod sel →
      (ioctlSegment env cenv siod iod sel s).1 ≠ none ∧
      (ioctlSegment env cenv siod iod sel s).2.touches = []) := by
  have htouches : ∀ t ∈ (ioctlSegment env cenv siod iod sel s).2.touches,
      Requested s.wa siod iod sel t := by
    have hempty : ∀ t ∈ s.touches, Requested s.wa siod iod sel t := by
      rw [hs.1]
      exact fun t ht => by cases ht
    unfold ioctlSegment
    split
    · exact hempty
    split
    · exact segmentCopy_touches (.refl s.wa) hmod hchain hs.1
    · exact throughTempbuf_touches ((SameSetup.refl s.wa).context fun _ => rfl)
        hs.1 hchain hmod
  refine ⟨fun t ht => ⟨htouches t ht, fun sgx hsgx hin hfits => ?_⟩, ?_, ?_⟩
  · obtain ⟨-, sgx', hsgx', hof⟩ := htouches t ht
    rw [hsgx] at hsgx'
    cases hsgx'
    exact hof.inSegment hsgx hnode hin hfits
  · unfold ioctlSegment
    split
    · rw [hs.2]
      exact fun k hk => by cases hk
    split
    · rw [segmentCopy_staged, hs.2]
      exact fun k hk => by cases hk
    · next hlt =>
      intro k hk
      have hstaged : (throughTempbuf env cenv siod iod sel
          (s.tempbuf sel (-1))).2.staged = [siod.size.toNat] :=
        throughTempbuf_staged hs.2
      have hk' : k ∈ [siod.size.toNat] := hstaged ▸ hk
      obtain rfl := List.mem_singleton.mp hk'
      have hsize : siod.size.toNat < s.wa.dmaThreshold.toNat :=
        BitVec.not_le.mp hlt
      exact Nat.le_trans (Nat.le_of_lt hsize) hthr.le
  · intro hrefused
    refine ⟨?_, List.eq_nil_iff_forall_not_mem.mpr fun t ht =>
      (htouches t ht).not_refused hrefused⟩
    unfold ioctlSegment
    split
    · exact fun h => by cases h
    split
    · exact segmentCopy_refused (.refl s.wa) hmod hrefused
    · exact throughTempbuf_refused ((SameSetup.refl s.wa).context fun _ => rfl)
        hmod hrefused

/-- One module, and one segment of four bytes at its beginning, which node 1
may write. -/
def oneSegment : Drvr where
  wa :=
    { modules := 1
      dmaThreshold := XmemDrvrDEFAULT_DMA_THRESHOLD
      segTable := { used := 1, descriptors := fun _ => ⟨4, 0, 1⟩ }
      moduleContexts := fun _ => ⟨1, 1, 1, ⟨0, 0⟩, 1⟩ }

def quietPages (_ : Nat) : PageEnv := ⟨1, true, .signalled⟩

def quietCopy : CopyEnv := ⟨some [(1, 4)], true, true⟩

/-- A word of segment 1, from an offset. -/
def wordAt (offset : U32) : XmemDrvrSegIoDesc := ⟨1, 1, offset, 4, 1, 0⟩

theorem segment_access_word :
    (ioctlSegment quietPages quietCopy (wordAt 0) .write 0 oneSegment).2.touches =
      [⟨0, .write, 0, 4⟩] ∧
    ∀ t ∈ (ioctlSegment quietPages quietCopy (wordAt 0) .write 0
      oneSegment).2.touches, InSegment oneSegment.wa 0 0 t := by
  have h := segment_access quietPages quietCopy (wordAt 0) .write 0 oneSegment
    ⟨rfl, rfl⟩ ⟨[], rfl⟩ ⟨by decide, by decide⟩
    (fun chain hc => by cases hc; decide) (.inl (by decide))
  exact ⟨by decide, fun t ht =>
    (h.1 t ht).2 0 (by decide) (by decide) (by decide)⟩

/-- A request behind the end of the segment is carried out. -/
theorem not_segment_access : ¬ ∀ (env : Nat → PageEnv) (cenv : CopyEnv)
    (siod : XmemDrvrSegIoDesc) (iod : XmemDrvrIoDir) (sel : Nat) (s : Drvr),
    s.touches = [] → Threshold s.wa.dmaThreshold →
    ∀ t ∈ (ioctlSegment env cenv siod iod sel s).2.touches,
      ∃ sgx, getSeg s.wa.segTable siod.id = some sgx ∧
        InSegment s.wa sel sgx t := by
  intro h
  obtain ⟨sgx, hsgx, hin⟩ := h quietPages quietCopy (wordAt 4) .write 0 oneSegment
    rfl ⟨[], rfl⟩ ⟨0, .write, 4, 4⟩ (by decide)
  have hbyte : 4 < 4 := (hin.bytes 0 (by decide)).2
  exact Nat.lt_irrefl 4 hbyte

end Coht.XmemDrvr
