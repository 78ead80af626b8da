import Coht.XmemDrvr.SegmentAccess

/-!
# What a copy leaves behind

Each call gives back both semaphores on every path. The rest depends on where
it stops. With the mapping of its caller `PageCopy()` leaves its timer behind
when the wait is interrupted; with its own it leaves the mapping behind as
well, and it does so whenever it stops after the mapping is made. A chain
that is too long is left locked.

`Call.clean` is the condition that none of this happens. It goes by what the
kernel and the hardware answer and by the state before the call.
-/

namespace Coht.XmemDrvr

open Coht.Lib

/-! ## The pages that are left behind -/

/-- There is a mapping, and the node of the module may do what is asked. -/
def pageAllowed (wa : XmemDrvrWorkingArea) (siod : XmemDrvrSegIoDesc)
    (iod : XmemDrvrIoDir) (dma : U32) : Bool :=
  decide (dma ≠ 0) && (decide (iod = .read) || wrPermSeg wa.segTable siod.id
    (wa.moduleContexts (siod.module - 1).toNat).nodeId)

/-- A page copy gets as far as to ask for a timer. -/
def pageStarts (wa : XmemDrvrWorkingArea) (siod : XmemDrvrSegIoDesc)
    (iod : XmemDrvrIoDir) (mapped : Bool) (dma : U32) : Bool :=
  (pageChecks wa siod mapped).isOk && pageAllowed wa siod iod dma

/-- The transfer comes to its end. -/
def PageEnv.ends (e : PageEnv) : Bool :=
  e.timer && (decide (e.wait = .signalled) || decide (e.wait = .timedOut true))

def PageEnv.broken (e : PageEnv) : Bool :=
  e.timer && decide (e.wait = .interrupted)

/-- The address that a page of the chain is copied from or to: that of the
module of the request. -/
def chainDma (wa : XmemDrvrWorkingArea) (siod : XmemDrvrSegIoDesc) (sel : Nat)
    (c : U32 × U32) : U32 :=
  if (siod.module - 1).toNat = sel then c.1
  else (wa.moduleContexts (siod.module - 1).toNat).dmaOp.dma

/-- The wait for one of the pages is interrupted; the first one has the
number `k`. -/
def breaks (env : Nat → PageEnv) (wa : XmemDrvrWorkingArea)
    (siod : XmemDrvrSegIoDesc) (iod : XmemDrvrIoDir) (sel : Nat) :
    List (U32 × U32) → Nat → Bool
  | [], _ => false
  | c :: chain, k =>
    pageStarts wa siod iod true (chainDma wa siod sel c) &&
      ((env k).broken || (env k).ends && breaks env wa siod iod sel chain (k + 1))

/-- One of the copies stops after its mapping is made. -/
def strands (env : Nat → PageEnv) (wa : XmemDrvrWorkingArea) :
    List (XmemDrvrSegIoDesc × XmemDrvrIoDir) → Nat → Bool
  | [], _ => false
  | (sio, iod) :: rest, k =>
    (pageChecks wa sio false).isOk && decide ((env k).map ≠ 0) &&
      !(pageAllowed wa sio iod (env k).map && (env k).ends &&
        !strands env wa rest (k + 1))

inductive Call
  | segmentCopy (cenv : CopyEnv) (siod : XmemDrvrSegIoDesc)
      (iod : XmemDrvrIoDir) (sel : Nat)
  | ioctlSegment (cenv : CopyEnv) (siod : XmemDrvrSegIoDesc)
      (iod : XmemDrvrIoDir) (sel : Nat)
  | flushSegments (sel : Nat) (mask : U32)

def Call.run (env : Nat → PageEnv) (s : Drvr) : Call → Option Errno × Drvr
  | .segmentCopy cenv siod iod sel =>
    XmemDrvr.segmentCopy env cenv siod iod sel s
  | .ioctlSegment cenv siod iod sel =>
    XmemDrvr.ioctlSegment env cenv siod iod sel s
  | .flushSegments sel mask => XmemDrvr.flushSegments env sel mask s

/-- The chain is not too long, and no wait for one of its pages is
interrupted. -/
def chainClean (env : Nat → PageEnv) (wa : XmemDrvrWorkingArea)
    (siod : XmemDrvrSegIoDesc) (iod : XmemDrvrIoDir) (sel : Nat) :
    Option (List (U32 × U32)) → Nat → Bool
  | none, _ => true
  | some chain, k => decide (chain.length ≤ XmemDrvrMAX_DMA_CHAIN) &&
      !breaks env wa siod iod sel chain k

/-- The request gets no further than to the CPU, or its chain is clean. -/
def copyClean (env : Nat → PageEnv) (cenv : CopyEnv) (siod : XmemDrvrSegIoDesc)
    (iod : XmemDrvrIoDir) (sel : Nat) (s : Drvr) : Bool :=
  if siod.userArray = 0 ∨ siod.id = 0 ∨ getSeg s.wa.segTable siod.id = none ∨
      siod.size < s.wa.dmaThreshold then true
  else chainClean env s.wa siod iod sel cenv.chain s.copies

def Call.clean (env : Nat → PageEnv) (s : Drvr) : Call → Bool
  | .segmentCopy cenv siod iod sel | .ioctlSegment cenv siod iod sel =>
    copyClean env cenv siod iod sel s
  | .flushSegments sel mask =>
    !strands env s.wa (flushPlan s.wa sel mask) s.copies

/-- Both semaphores of each module. -/
def sems (s : Drvr) (m : Nat) : Int × Int :=
  ((s.wa.moduleContexts m).busySemaphore,
    (s.wa.moduleContexts m).tempbufSemaphore)

/-- A call that began with empty books has given everything back. -/
structure Restored (s s' : Drvr) : Prop where
  sems : sems s' = sems s
  books : s'.books.Balanced

/-! ## One page -/

section Page

variable {env : Nat → PageEnv} {wa : XmemDrvrWorkingArea}
  {sio : XmemDrvrSegIoDesc} {iod : XmemDrvrIoDir} {mapped : Bool} {s : Drvr}
  {e : PageEnv} {t : Touch} {sram : U32}

theorem transfer_ends : (transfer e mapped t s).1 = none ↔ e.ends = true := by
  obtain ⟨map, timer, wait⟩ := e
  cases timer
  · exact ⟨(fun h => by cases h), (fun h => by cases h)⟩
  · obtain _ | _ | _ | _ := wait
    · exact ⟨(fun h => by cases h), (fun h => by cases h)⟩
    · exact ⟨fun _ => rfl, fun _ => rfl⟩
    · exact ⟨(fun h => by cases h), (fun h => by cases h)⟩
    · exact ⟨fun _ => rfl, fun _ => rfl⟩

theorem transfer_books_mapped : (transfer e true t s).2.books =
    if e.broken then s.books.acquire .timer else s.books := by
  have hback : (s.books.acquire .timer).release .timer = s.books :=
    Ledger.release_acquire
  obtain ⟨map, timer, wait⟩ := e
  cases timer
  · rfl
  · obtain _ | _ | _ | _ := wait
    · rfl
    · exact hback
    · exact hback
    · exact hback

theorem transfer_books_own : (transfer e false t s).2.books =
    if e.ends then s.books.release .mapping
    else if e.broken then s.books.acquire .timer else s.books := by
  have hback : (s.books.acquire .timer).release .timer = s.books :=
    Ledger.release_acquire
  obtain ⟨map, timer, wait⟩ := e
  cases timer
  · rfl
  · obtain _ | _ | _ | _ := wait
    · rfl
    · exact congrArg (Ledger.release .mapping) hback
    · exact hback
    · exact congrArg (Ledger.release .mapping) hback

theorem pageChecks_same (hwa : SameSetup wa s.wa) :
    pageChecks s.wa sio mapped = pageChecks wa sio mapped := by
  unfold pageChecks
  rw [hwa.modules, hwa.segTable]

theorem pageAllowed_same {dma : U32} (hwa : SameSetup wa s.wa) :
    pageAllowed s.wa sio iod dma = pageAllowed wa sio iod dma := by
  unfold pageAllowed
  rw [hwa.segTable, hwa.nodeId]

theorem pageStarts_same {dma : U32} (hwa : SameSetup wa s.wa) :
    pageStarts s.wa sio iod mapped dma = pageStarts wa sio iod mapped dma := by
  unfold pageStarts
  rw [pageChecks_same hwa, pageAllowed_same hwa]

theorem pageDma_allowed (h : pageAllowed s.wa sio iod
    (s.wa.moduleContexts (sio.module - 1).toNat).dmaOp.dma = true) :
    ∃ t, pageDma e sio iod mapped sram s = transfer e mapped t s := by
  unfold pageAllowed at h
  rw [Bool.and_eq_true, decide_eq_true_iff, Bool.or_eq_true,
    decide_eq_true_iff] at h
  have hperm : ¬ (iod = .write ∧ wrPermSeg s.wa.segTable sio.id
      (s.wa.moduleContexts (sio.module - 1).toNat).nodeId = false) := by
    rintro ⟨rfl, hperm⟩
    rw [hperm] at h
    obtain ⟨-, hread | hfalse⟩ := h
    · cases hread
    · cases hfalse
  unfold pageDma
  dsimp only
  rw [if_neg h.1, if_neg hperm]
  exact ⟨_, rfl⟩

theorem pageDma_refused (h : pageAllowed s.wa sio iod
    (s.wa.moduleContexts (sio.module - 1).toNat).dmaOp.dma = false) :
    (pageDma e sio iod mapped sram s).1 ≠ none ∧
      (pageDma e sio iod mapped sram s).2 = s := by
  unfold pageDma
  dsimp only
  split
  · exact ⟨(fun h => by cases h), rfl⟩
  split
  · exact ⟨(fun h => by cases h), rfl⟩
  · next hdma hperm =>
    exfalso
    unfold pageAllowed at h
    rw [decide_eq_true hdma, Bool.true_and, Bool.or_eq_false_iff,
      decide_eq_false_iff_not] at h
    cases iod with
    | read => exact h.1 rfl
    | write => exact hperm ⟨rfl, h.2⟩

theorem PageEnv.not_broken (h : e.ends = true) : e.broken = false := by
  obtain ⟨map, timer, wait⟩ := e
  cases timer
  · cases h
  · obtain _ | _ | _ | _ := wait
    · cases h
    all_goals rfl

theorem pageCopy_books_mapped {dma : U32}
    (hdma : (s.wa.moduleContexts (sio.module - 1).toNat).dmaOp.dma = dma) :
    ((pageCopy env sio iod true s).1 = none ↔
      (pageStarts s.wa sio iod true dma && (env s.copies).ends) = true) ∧
    (pageCopy env sio iod true s).2.books =
      (if pageStarts s.wa sio iod true dma && (env s.copies).broken then
        s.books.acquire .timer else s.books) := by
  subst hdma
  unfold pageCopy pageStarts
  dsimp only
  cases hchecks : pageChecks s.wa sio true with
  | error err =>
    exact ⟨⟨(fun h => by cases h), (fun h => by cases h)⟩, rfl⟩
  | ok sgx =>
    dsimp only
    rw [if_pos rfl]
    cases hallowed : pageAllowed s.wa sio iod
        (s.wa.moduleContexts (sio.module - 1).toNat).dmaOp.dma with
    | true =>
      obtain ⟨t, ht⟩ := @pageDma_allowed sio iod true
        { s with copies := s.copies + 1 } (env s.copies)
        ((s.wa.segTable.descriptors sgx).address + sio.offset) hallowed
      rw [ht, transfer_books_mapped, transfer_ends]
      exact ⟨Iff.rfl, rfl⟩
    | false =>
      obtain ⟨herr, hsame⟩ := @pageDma_refused sio iod true
        { s with copies := s.copies + 1 } (env s.copies)
        ((s.wa.segTable.descriptors sgx).address + sio.offset) hallowed
      rw [hsame]
      exact ⟨⟨fun h => absurd h herr, (fun h => by cases h)⟩, rfl⟩

theorem pageCopy_copies :
    (pageCopy env sio iod mapped s).2.copies = s.copies + 1 :=
  pageCopy_apart (f := Drvr.copies)
    ⟨fun _ _ => rfl, fun _ _ => rfl, fun _ _ => rfl, fun _ _ _ => rfl⟩

theorem pageCopy_setup (hwa : SameSetup wa s.wa) :
    SameSetup wa (pageCopy env sio iod mapped s).2.wa := by
  have hapart : Apart fun s : Drvr => SameSetup wa s.wa := by
    refine ⟨fun _ _ => rfl, fun _ _ => rfl, fun _ _ => rfl, fun s m op =>
      propext ⟨fun h => ?_, fun h => h.context fun _ => rfl⟩⟩
    have hnode : ∀ m', ((s.setDmaOp m op).wa.moduleContexts m').nodeId =
        (s.wa.moduleContexts m').nodeId := fun m' =>
      context_field (g := XmemDrvrModuleContext.nodeId) fun _ => rfl
    exact ⟨h.modules, h.dmaThreshold, h.segTable, fun m' =>
      (hnode m').symm.trans (h.nodeId m')⟩
  exact (Iff.of_eq (pageCopy_apart hapart)).mpr hwa

theorem setDmaOp_other {m m' : Nat} {op : XmemDmaOp} (h : m' ≠ m) :
    (s.setDmaOp m op).wa.moduleContexts m' = s.wa.moduleContexts m' :=
  Function.update_of_ne h ..

theorem pageStarts_desc {siod : XmemDrvrSegIoDesc} {dma : U32}
    (hid : sio.id = siod.id) (hm : sio.module = siod.module) :
    pageStarts wa sio iod true dma = pageStarts wa siod iod true dma := by
  unfold pageStarts pageAllowed pageChecks
  simp only [hid, hm, Bool.true_eq_false, and_false]

theorem copyChain_books {sel : Nat} {siod : XmemDrvrSegIoDesc}
    {chain : List (U32 × U32)} (hwa : SameSetup wa s.wa)
    (hstale : ∀ m ≠ sel, s.wa.moduleContexts m = wa.moduleContexts m)
    (hid : sio.id = siod.id) (hm : sio.module = siod.module) :
    (copyChain env sel iod chain sio s).2.books =
      if breaks env wa siod iod sel chain s.copies then s.books.acquire .timer
      else s.books := by
  induction chain generalizing sio s with
  | nil => rfl
  | cons c chain ih =>
    let s₁ := s.setDmaOp sel { dma := c.1, len := c.2 }
    have hwa₁ : SameSetup wa s₁.wa := hwa.context fun _ => rfl
    have hstale₁ : ∀ m ≠ sel, s₁.wa.moduleContexts m = wa.moduleContexts m :=
      fun m hne => (setDmaOp_other hne).trans (hstale m hne)
    have hdma : (s₁.wa.moduleContexts (sio.module - 1).toNat).dmaOp.dma =
        chainDma wa siod sel c := by
      unfold chainDma
      rw [hm]
      by_cases hsel : (siod.module - 1).toNat = sel
      · rw [if_pos hsel, hsel, setDmaOp_dmaOp]
      · rw [if_neg hsel, hstale₁ _ hsel]
    obtain ⟨hnone, hbooks⟩ := @pageCopy_books_mapped env sio iod s₁ _ hdma
    have hwa₂ := (@pageCopy_mapped env sio iod s₁).1
    have hcopies := @pageCopy_copies env sio iod true s₁
    rw [pageStarts_same hwa₁, pageStarts_desc hid hm] at hnone hbooks
    rw [copyChain, breaks]
    split
    · next err s₂ hcopy =>
      rw [hcopy] at hnone hbooks
      have hends : (pageStarts wa siod iod true (chainDma wa siod sel c) &&
          (env s.copies).ends) = false :=
        Bool.eq_false_iff.mpr fun h => by
          have hsome := hnone.mpr h
          cases hsome
      rw [Bool.and_or_distrib_left, ← Bool.and_assoc, hends, Bool.false_and,
        Bool.or_false]
      exact hbooks
    · next s₂ hcopy =>
      rw [hcopy] at hnone hbooks hwa₂ hcopies
      dsimp only at hbooks hwa₂ hcopies
      obtain ⟨hstarts, hends⟩ := Bool.and_eq_true_iff.mp (hnone.mp rfl)
      have hbroken := PageEnv.not_broken hends
      have hkeep : s₂.books = s.books := by
        rw [hbooks, hbroken, Bool.and_false, if_neg (by decide)]
        rfl
      have hih := @ih { sio with offset := sio.offset + c.2 } s₂
        (hwa₂ ▸ hwa₁) (hwa₂ ▸ hstale₁) hid hm
      rw [hkeep, hcopies] at hih
      have hends' : (env s.copies).ends = true := hends
      have hbroken' : (env s.copies).broken = false := hbroken
      rw [hstarts, hends', hbroken', Bool.true_and, Bool.false_or,
        Bool.true_and]
      exact hih

theorem pageMap_dma {m : Nat} :
    ((pageMap e m sio s).wa.moduleContexts m).dmaOp.dma = e.map := by
  unfold pageMap
  dsimp only
  split <;> exact congrArg XmemDmaOp.dma setDmaOp_dmaOp

theorem pageMap_setup {m : Nat} (hwa : SameSetup wa s.wa) :
    SameSetup wa (pageMap e m sio s).wa := by
  have hset : SameSetup wa
      (s.setDmaOp m { dma := e.map, len := sio.size }).wa :=
    hwa.context fun _ => rfl
  unfold pageMap
  dsimp only
  split <;> exact hset

theorem pageMap_books {m : Nat} : (pageMap e m sio s).books =
    if e.map = 0 then s.books else s.books.acquire .mapping := by
  unfold pageMap
  dsimp only
  split <;> rfl

theorem pageCopy_books_own :
    ((pageCopy env sio iod false s).1 = none ↔
      ((pageChecks s.wa sio false).isOk && pageAllowed s.wa sio iod
        (env s.copies).map && (env s.copies).ends) = true) ∧
    (if (pageChecks s.wa sio false).isOk && decide ((env s.copies).map ≠ 0) &&
        !(pageAllowed s.wa sio iod (env s.copies).map && (env s.copies).ends) then
      (pageCopy env sio iod false s).2.books.held .mapping ≠ 0
    else (pageCopy env sio iod false s).2.books = s.books) := by
  unfold pageCopy
  dsimp only
  cases hchecks : pageChecks s.wa sio false with
  | error err =>
    exact ⟨⟨(fun h => by cases h), (fun h => by cases h)⟩, rfl⟩
  | ok sgx =>
    dsimp only
    rw [if_neg (by decide)]
    generalize hs₁ : pageMap (env s.copies) (sio.module - 1).toNat sio
      { s with copies := s.copies + 1 } = s₁
    have hdma : (s₁.wa.moduleContexts (sio.module - 1).toNat).dmaOp.dma =
        (env s.copies).map := hs₁ ▸ pageMap_dma
    have hwa₁ : SameSetup s.wa s₁.wa := hs₁ ▸ pageMap_setup (.refl s.wa)
    have hbooks : s₁.books = if (env s.copies).map = 0 then s.books else
        s.books.acquire .mapping := hs₁ ▸ pageMap_books
    have hheld : (s.books.acquire .mapping).held Held.mapping ≠ 0 := by
      rw [Ledger.acquire_held, if_pos rfl]
      exact Nat.succ_ne_zero _
    have hsame := @pageAllowed_same s.wa sio iod s₁ (env s.copies).map hwa₁
    cases hallowed : pageAllowed s.wa sio iod (env s.copies).map with
    | true =>
      have hmap : (env s.copies).map ≠ 0 := by
        intro hzero
        rw [hzero] at hallowed
        cases hallowed
      obtain ⟨t, ht⟩ := @pageDma_allowed sio iod false s₁ (env s.copies)
        ((s.wa.segTable.descriptors sgx).address + sio.offset)
        (by rw [hdma, hsame]; exact hallowed)
      rw [ht, transfer_ends, transfer_books_own, hbooks, if_neg hmap,
        Ledger.release_acquire, decide_eq_true hmap]
      refine ⟨Iff.rfl, ?_⟩
      cases (env s.copies).ends
      · cases (env s.copies).broken
        · exact hheld
        · exact hheld
      · rfl
    | false =>
      obtain ⟨herr, hs₂⟩ := @pageDma_refused sio iod false s₁ (env s.copies)
        ((s.wa.segTable.descriptors sgx).address + sio.offset)
        (by rw [hdma, hsame]; exact hallowed)
      rw [hs₂, hbooks]
      refine ⟨⟨fun h => absurd h herr, (fun h => by cases h)⟩, ?_⟩
      by_cases hmap : (env s.copies).map = 0
      · rw [if_pos hmap, hmap]
        rfl
      · rw [if_neg hmap, decide_eq_true hmap]
        exact hheld

theorem copyEach_books {plan : List (XmemDrvrSegIoDesc × XmemDrvrIoDir)}
    (hwa : SameSetup wa s.wa) :
    if strands env wa plan s.copies then
      (copyEach env plan s).2.books.held .mapping ≠ 0
    else (copyEach env plan s).2.books = s.books := by
  induction plan generalizing s with
  | nil => rfl
  | cons c plan ih =>
    obtain ⟨sio, iod⟩ := c
    obtain ⟨hnone, hbooks⟩ := @pageCopy_books_own env sio iod s
    have hwa₂ := @pageCopy_setup env wa sio iod false s hwa
    have hcopies := @pageCopy_copies env sio iod false s
    rw [pageChecks_same hwa, pageAllowed_same hwa] at hnone hbooks
    rw [copyEach, strands]
    generalize pageCopy env sio iod false s = r at hnone hbooks hwa₂ hcopies ⊢
    obtain ⟨_ | err, s₂⟩ := r
    · have hall := hnone.mp rfl
      rw [Bool.and_assoc] at hall
      obtain ⟨hchecks, hends⟩ := Bool.and_eq_true_iff.mp hall
      rw [hends, Bool.not_true, Bool.and_false, if_neg (by decide)] at hbooks
      have hmap : decide ((env s.copies).map ≠ 0) = true :=
        (Bool.and_eq_true_iff.mp (Bool.and_eq_true_iff.mp hends).1).1
      have hih := ih hwa₂
      dsimp only at hih hbooks hcopies ⊢
      rw [hcopies, hbooks] at hih
      rw [hchecks, hmap, hends, Bool.true_and, Bool.true_and, Bool.true_and,
        Bool.not_not]
      exact hih
    · have hstop : ((pageChecks wa sio false).isOk && (pageAllowed wa sio iod
          (env s.copies).map && (env s.copies).ends)) = false :=
        Bool.eq_false_iff.mpr fun h => by
          have hsome := hnone.mpr (by rw [Bool.and_assoc]; exact h)
          cases hsome
      cases hchecks : (pageChecks wa sio false).isOk
      · rw [hchecks] at hbooks
        exact hbooks
      · rw [hchecks, Bool.true_and] at hstop
        rw [hchecks, hstop] at hbooks
        rw [hstop]
        exact hbooks

end Page

/-! ## Whole calls -/

section Calls

variable {env : Nat → PageEnv} {cenv : CopyEnv} {siod : XmemDrvrSegIoDesc}
  {iod : XmemDrvrIoDir} {sel sgx : Nat} {mask : U32} {s : Drvr}

theorem sems_setDmaOp {m : Nat} {op : XmemDmaOp} :
    sems (s.setDmaOp m op) = sems s := by
  funext m'
  exact context_field (g := fun mcon : XmemDrvrModuleContext =>
    (mcon.busySemaphore, mcon.tempbufSemaphore)) fun _ => rfl

theorem apart_sems : Apart sems :=
  ⟨fun _ _ => rfl, fun _ _ => rfl, fun _ _ => rfl, fun _ _ _ => sems_setDmaOp⟩

theorem sems_busy {m : Nat} {d : Int} : sems (s.busy m d) =
    Function.update (sems s) m ((sems s m).1 + d, (sems s m).2) := by
  funext m'
  unfold sems Drvr.busy Drvr.context
  dsimp only
  by_cases hm : m' = m
  · subst hm
    rw [Function.update_self, Function.update_self]
  · rw [Function.update_of_ne hm, Function.update_of_ne hm]

theorem sems_tempbuf {m : Nat} {d : Int} : sems (s.tempbuf m d) =
    Function.update (sems s) m ((sems s m).1, (sems s m).2 + d) := by
  funext m'
  unfold sems Drvr.tempbuf Drvr.context
  dsimp only
  by_cases hm : m' = m
  · subst hm
    rw [Function.update_self, Function.update_self]
  · rw [Function.update_of_ne hm, Function.update_of_ne hm]

theorem sems_busy_back {s' : Drvr} (h : sems s' = sems (s.busy sel (-1))) :
    sems (s'.busy sel 1) = sems s := by
  rw [sems_busy, h, sems_busy, Function.update_self, Function.update_idem,
    Int.neg_add_cancel_right]
  exact Function.update_eq_self ..

theorem sems_tempbuf_back {s' : Drvr} (h : sems s' = sems (s.tempbuf sel (-1))) :
    sems (s'.tempbuf sel 1) = sems s := by
  rw [sems_tempbuf, h, sems_tempbuf, Function.update_self, Function.update_idem,
    Int.neg_add_cancel_right]
  exact Function.update_eq_self ..

theorem copyEach_apart {β : Type} {f : Drvr → β} (hf : Apart f)
    (hcopies : ∀ (s : Drvr) n, f { s with copies := n } = f s)
    {plan : List (XmemDrvrSegIoDesc × XmemDrvrIoDir)} :
    f (copyEach env plan s).2 = f s := by
  induction plan generalizing s with
  | nil => rfl
  | cons c plan ih =>
    have hpage : f (pageCopy env c.1 c.2 false s).2 = f s :=
      (pageCopy_apart hf).trans (hcopies ..)
    rw [copyEach]
    generalize pageCopy env c.1 c.2 false s = r at hpage ⊢
    obtain ⟨_ | err, s₂⟩ := r
    · exact ih.trans hpage
    · exact hpage

theorem segmentCopy_sems : sems (segmentCopy env cenv siod iod sel s).2 =
    sems s := by
  unfold segmentCopy
  dsimp only
  split
  · exact sems_busy_back rfl
  split
  · exact sems_busy_back rfl
  split
  · exact sems_busy_back rfl
  · exact sems_busy_back (copyData_apart apart_sems fun _ _ => rfl)

theorem ioctlSegment_sems : sems (ioctlSegment env cenv siod iod sel s).2 =
    sems s := by
  unfold ioctlSegment
  split
  · rfl
  split
  · exact segmentCopy_sems
  · refine sems_tempbuf_back ?_
    unfold throughTempbuf
    dsimp only
    split
    · split <;> exact segmentCopy_sems
    · rfl

theorem flushSegments_sems : sems (flushSegments env sel mask s).2 = sems s := by
  have hback : ∀ plan, sems (((copyEach env plan
      ((s.tempbuf sel (-1)).busy sel (-1))).2.busy sel 1).tempbuf sel 1) =
      sems s := fun plan => sems_tempbuf_back (sems_busy_back
    (copyEach_apart apart_sems fun _ _ => rfl))
  unfold flushSegments
  dsimp only
  split <;> exact hback _

theorem Call.run_sems (c : Call) : sems (c.run env s).2 = sems s := by
  cases c with
  | segmentCopy => exact segmentCopy_sems
  | ioctlSegment => exact ioctlSegment_sems
  | flushSegments => exact flushSegments_sems

theorem not_balanced_acquire {l : Ledger Held} {r : Held} :
    ¬ (l.acquire r).Balanced :=
  Ledger.not_balanced_of_held (r := r) (by
    rw [Ledger.acquire_held, if_pos rfl]
    exact Nat.succ_ne_zero _)

theorem balanced_empty : ({} : Ledger Held).Balanced := ⟨fun _ => rfl, rfl⟩

theorem copyData_books_cpu (h : siod.size < s.wa.dmaThreshold) :
    (copyData env cenv siod iod sel sgx s).2.books = s.books := by
  unfold copyData
  rw [if_neg (BitVec.not_le.mpr h)]
  dsimp only
  split
  · rfl
  · unfold longCopy
    split <;> rfl

theorem copyData_balanced {wa : XmemDrvrWorkingArea} (hwa : SameSetup wa s.wa)
    (hstale : ∀ m ≠ sel, s.wa.moduleContexts m = wa.moduleContexts m)
    (hb : s.books = {}) (h : wa.dmaThreshold ≤ siod.size) :
    (copyData env cenv siod iod sel sgx s).2.books.Balanced ↔
      chainClean env wa siod iod sel cenv.chain s.copies = true := by
  unfold copyData
  rw [hwa.dmaThreshold, if_pos h]
  obtain _ | chain := cenv.chain
  · dsimp only
    rw [hb]
    exact iff_of_true balanced_empty rfl
  · obtain _ | ⟨c, chain⟩ := chain
    · dsimp only
      rw [if_pos (.inl rfl)]
      dsimp only [List.isEmpty_nil]
      rw [if_pos rfl, hb]
      exact iff_of_true balanced_empty rfl
    · dsimp only
      rw [if_neg (show ¬ (c :: chain).isEmpty = true from fun h => by cases h),
        chainClean]
      by_cases hlen : XmemDrvrMAX_DMA_CHAIN < (c :: chain).length
      · rw [if_pos (.inr hlen), decide_eq_false (Nat.not_le.mpr hlen)]
        exact iff_of_false not_balanced_acquire (fun h => by cases h)
      · have hshort : ¬ ((c :: chain).isEmpty = true ∨
            XmemDrvrMAX_DMA_CHAIN < (c :: chain).length) := by
          rintro (hempty | hlong)
          · cases hempty
          · exact hlen hlong
        rw [if_neg hshort, decide_eq_true (Nat.not_lt.mp hlen), Bool.true_and]
        have hwa' : SameSetup wa (s.acquire .pages).wa := hwa
        have hbooks := @copyChain_books env wa
          { siod with size := 0, userArray := 0, updateFlg := 0 } iod
          (s.acquire .pages) sel siod (c :: chain) hwa' hstale rfl rfl
        dsimp only [Drvr.release]
        rw [hbooks]
        change (Ledger.release .pages (if breaks env wa siod iod sel (c :: chain)
          s.copies = true then (s.books.acquire .pages).acquire .timer
          else s.books.acquire .pages)).Balanced ↔ _
        rw [hb]
        cases breaks env wa siod iod sel (c :: chain) s.copies
        · rw [if_neg (by decide), Ledger.release_acquire]
          exact iff_of_true balanced_empty rfl
        · rw [if_pos rfl]
          refine iff_of_false (Ledger.not_balanced_of_held (r := .timer) ?_)
            (fun h => by cases h)
          rw [Ledger.release_held_of_ne (by decide), Ledger.acquire_held,
            if_pos rfl]
          exact Nat.succ_ne_zero _

theorem segmentCopy_books_cpu (h : siod.size < s.wa.dmaThreshold) :
    (segmentCopy env cenv siod iod sel s).2.books = s.books := by
  unfold segmentCopy
  dsimp only
  split
  · rfl
  split
  · rfl
  split
  · rfl
  · exact @copyData_books_cpu env cenv siod iod sel _ (s.busy sel (-1)) h

theorem segmentCopy_balanced (hb : s.books = {}) :
    (segmentCopy env cenv siod iod sel s).2.books.Balanced ↔
      copyClean env cenv siod iod sel s = true := by
  have hbusy : SameSetup s.wa (s.busy sel (-1)).wa :=
    (SameSetup.refl s.wa).context fun _ => rfl
  have hnothing : s.books.Balanced := hb ▸ balanced_empty
  unfold segmentCopy copyClean
  dsimp only
  by_cases huser : siod.userArray = 0
  · rw [if_pos huser, if_pos (.inl huser)]
    exact iff_of_true hnothing rfl
  by_cases hid : siod.id = 0
  · rw [if_neg huser, if_pos hid, if_pos (.inr (.inl hid))]
    exact iff_of_true hnothing rfl
  rw [if_neg huser, if_neg hid, hbusy.segTable]
  cases hseg : getSeg s.wa.segTable siod.id with
  | none =>
    rw [if_pos (.inr (.inr (.inl rfl)))]
    exact iff_of_true hnothing rfl
  | some sgx =>
    dsimp only
    by_cases hcpu : siod.size < s.wa.dmaThreshold
    · rw [if_pos (.inr (.inr (.inr hcpu)))]
      refine iff_of_true ?_ rfl
      change (copyData env cenv siod iod sel sgx
        (s.busy sel (-1))).2.books.Balanced
      rw [copyData_books_cpu (show siod.size <
        (s.busy sel (-1)).wa.dmaThreshold from hcpu)]
      exact hnothing
    · have hdma : ¬ (siod.userArray = 0 ∨ siod.id = 0 ∨
          some sgx = none ∨ siod.size < s.wa.dmaThreshold) := by
        rintro (h | h | h | h)
        · exact huser h
        · exact hid h
        · cases h
        · exact hcpu h
      rw [if_neg hdma]
      exact copyData_balanced hbusy (fun m hne => Function.update_of_ne hne ..)
        hb (BitVec.not_lt.mp hcpu)

theorem throughTempbuf_books (h : siod.size < s.wa.dmaThreshold) :
    (throughTempbuf env cenv siod iod sel s).2.books = s.books := by
  unfold throughTempbuf
  dsimp only
  split
  · have hkern : (segmentCopy env cenv { siod with
        userArray := ((s.stage siod.size.toNat).wa.moduleContexts sel).tempbuf }
        iod sel (s.stage siod.size.toNat)).2.books = s.books :=
      segmentCopy_books_cpu h
    split <;> exact hkern
  · rfl

theorem ioctlSegment_balanced (hb : s.books = {}) :
    (ioctlSegment env cenv siod iod sel s).2.books.Balanced ↔
      copyClean env cenv siod iod sel s = true := by
  have hnothing : s.books.Balanced := hb ▸ balanced_empty
  unfold ioctlSegment
  by_cases huser : siod.userArray = 0
  · rw [if_pos huser, copyClean, if_pos (.inl huser)]
    exact iff_of_true hnothing rfl
  rw [if_neg huser]
  by_cases hdma : s.wa.dmaThreshold ≤ siod.size
  · rw [if_pos hdma]
    exact segmentCopy_balanced hb
  · have hcpu : siod.size < s.wa.dmaThreshold := BitVec.not_le.mp hdma
    rw [if_neg hdma, copyClean, if_pos (.inr (.inr (.inr hcpu)))]
    refine iff_of_true ?_ rfl
    change (throughTempbuf env cenv siod iod sel
      (s.tempbuf sel (-1))).2.books.Balanced
    rw [throughTempbuf_books (show siod.size <
      (s.tempbuf sel (-1)).wa.dmaThreshold from hcpu)]
    exact hnothing

theorem flushSegments_balanced (hb : s.books = {}) :
    (flushSegments env sel mask s).2.books.Balanced ↔
      (!strands env s.wa (flushPlan s.wa sel mask) s.copies) = true := by
  let s₁ := (s.tempbuf sel (-1)).busy sel (-1)
  have hwa : SameSetup s.wa s₁.wa :=
    ((SameSetup.refl s.wa).context fun _ => rfl : SameSetup s.wa
      (s.tempbuf sel (-1)).wa).context fun _ => rfl
  have hbooks : (flushSegments env sel mask s).2.books =
      (copyEach env (flushPlan s.wa sel mask) s₁).2.books := by
    unfold flushSegments
    dsimp only
    split <;> rfl
  have hplan := @copyEach_books env s.wa s₁ (flushPlan s.wa sel mask) hwa
  rw [hbooks]
  change if strands env s.wa (flushPlan s.wa sel mask) s.copies = true then _ else
    _ = s.books at hplan
  cases hstrands : strands env s.wa (flushPlan s.wa sel mask) s.copies
  · rw [hstrands, if_neg (by decide)] at hplan
    rw [hplan, hb]
    exact iff_of_true balanced_empty rfl
  · rw [hstrands, if_pos rfl] at hplan
    exact iff_of_false (Ledger.not_balanced_of_held hplan) (fun h => by cases h)

end Calls

/-- A call gives everything back if and only if it is clean. -/
theorem call_restored_iff (env : Nat → PageEnv) (c : Call) (s : Drvr)
    (hb : s.books = {}) :
    Restored s (c.run env s).2 ↔ c.clean env s = true := by
  have hbooks : (c.run env s).2.books.Balanced ↔ c.clean env s = true := by
    cases c with
    | segmentCopy => exact segmentCopy_balanced hb
    | ioctlSegment => exact ioctlSegment_balanced hb
    | flushSegments => exact flushSegments_balanced hb
  exact ⟨fun h => hbooks.mp h.books, fun h => ⟨c.run_sems, hbooks.mpr h⟩⟩

/-- A segment that the node of the module may write is flushed cleanly. -/
theorem call_restored_flush : (Call.flushSegments 0 1).clean quietPages oneSegment =
      true ∧
    Restored oneSegment ((Call.flushSegments 0 1).run quietPages oneSegment).2 :=
  ⟨by decide, (call_restored_iff quietPages (.flushSegments 0 1) oneSegment rfl).mpr
    (by decide)⟩

def foreignSegment : Drvr :=
  { oneSegment with wa := { oneSegment.wa with
      segTable := { used := 1, descriptors := fun _ => ⟨4, 0, 2⟩ } } }

/-- It is read into the staging buffer, and the mapping for writing it back
stays. -/
theorem not_call_restored : ¬ ∀ (env : Nat → PageEnv) (c : Call) (s : Drvr),
    s.books = {} → Restored s (c.run env s).2 := by
  intro h
  have hfree := (h quietPages (.flushSegments 0 1) foreignSegment rfl).books.none
    .mapping
  have hheld : ((Call.flushSegments 0 1).run quietPages
      foreignSegment).2.books.held .mapping = 1 := by decide
  omega

end Coht.XmemDrvr
