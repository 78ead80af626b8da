import Coht.Vmebridge.DmaPages

/-!
# What a failed setup leaves behind (`vme_dma.c`, `tsi148.c`)

The chain gives back its descriptors on every failing exit: at each moment the blocks
that are out of the pool are those that were before and those the channel lists
(`Balanced`). `vme_dma_setup()` gives back the table and the pages.

`sgl_map_user_pages()` returns the number of pages also when it has not got them. The
caller then works with the table as the heap had it: it programs the channel, and what
it releases on a later failure are the pages that the heap happens to name.
-/

namespace Coht.Vmebridge

open Coht.Lib

/-! ## The chain -/

section Chain

variable {w : Nat} {alloc : DmaAlloc w} {desc : VmeDma} {live : List (HwDescEntry w)}
  {c c' : DmaChain w}

def Balanced (live : List (HwDescEntry w)) (c : DmaChain w) : Prop :=
  c.live.Perm (live ++ c.hwDescList)

theorem Balanced.congr (h : Balanced live c) (hlive : c'.live = c.live)
    (hlist : c'.hwDescList = c.hwDescList) : Balanced live c' := by
  unfold Balanced
  rw [hlive, hlist]
  exact h

theorem perm_append_erase [DecidableEq α] (l : List α) (b : α) :
    ((l ++ [b]).erase b).Perm l := by
  have hperm : (l ++ [b]).Perm (b :: l) := List.perm_append_comm
  have herase := hperm.erase b
  rwa [List.erase_cons_head] at herase

theorem Balanced.hwdescInit (h : Balanced live c) :
    Balanced live (hwdescInit alloc c).2 := by
  unfold Vmebridge.hwdescInit pciPoolAlloc
  cases alloc.pool c.poolCalls with
  | none => exact h.congr rfl rfl
  | some b =>
    dsimp only
    cases alloc.kmalloc c.kmallocCalls with
    | true =>
      show (c.live ++ [b]).Perm (live ++ (c.hwDescList ++ [b]))
      rw [← List.append_assoc]
      exact h.append_right [b]
    | false => exact (perm_append_erase c.live b).trans h

theorem Balanced.fill (h : Balanced live c) (va : Nat) (vme : Word) (dma : BitVec w)
    (len dsat ddat : Word) : Balanced live (c.fill desc va vme dma len dsat ddat) := by
  unfold DmaChain.fill
  split <;> exact h.congr rfl rfl

theorem Balanced.linkAddLoop {args : LinkArgs w} {fuel : Nat} {curr next : Option Nat}
    {vme len : Word} {dma : BitVec w} (h : Balanced live c) :
    Balanced live (linkAddLoop alloc desc args fuel curr next vme dma len c).2 := by
  induction fuel generalizing curr next vme dma len c with
  | zero => exact h
  | succ fuel ih =>
    unfold Vmebridge.linkAddLoop
    split
    · cases curr with
      | none => exact h
      | some va =>
        dsimp only
        generalize chunkLen args.bshift vme len dma args.dmaEnd = n
        have hfill : Balanced live (c.fill desc va vme dma n args.dsat args.ddat) :=
          h.fill va vme dma n args.dsat args.ddat
        generalize c.fill desc va vme dma n args.dsat args.ddat = c at hfill ⊢
        split
        · have hinit : Balanced live (Vmebridge.hwdescInit alloc c).2 := hfill.hwdescInit
          split
          · next heq =>
            rw [heq] at hinit
            exact hinit
          · next heq =>
            rw [heq] at hinit
            exact ih (hinit.congr rfl rfl)
        · exact ih hfill
    · exact h

theorem Balanced.setupChainLoop {fuel sgMapped i : Nat} {dsat ddat vmeAddr : Word}
    {sgl : List (SgEntry w)} {curr : Option Nat} (h : Balanced live c) :
    Balanced live
      (setupChainLoop alloc desc fuel sgMapped dsat ddat sgl i curr vmeAddr c).2 := by
  induction sgl generalizing i curr vmeAddr c with
  | nil => exact h
  | cons sg sgl ih =>
    unfold Vmebridge.setupChainLoop
    have hlink : Balanced live (tsi148DmaLinkAdd alloc desc fuel curr vmeAddr sg.dmaAddress
        sg.dmaLen sgMapped i (tsi148GetBshift desc) dsat ddat c).2 := by
      unfold tsi148DmaLinkAdd
      cases curr with
      | none => exact h
      | some va => exact h.linkAddLoop
    split
    · next heq =>
      rw [heq] at hlink
      exact hlink
    · next heq =>
      rw [heq] at hlink
      exact ih hlink

theorem Balanced.freeChain (h : Balanced live c) :
    (tsi148DmaFreeChain c).live.Perm live := by
  have hfold : ∀ (l : List (HwDescEntry w)) (c : DmaChain w), c.live.Perm (live ++ l) →
      (l.foldl (fun c b => pciPoolFree b c) c).live.Perm live := by
    intro l
    induction l with
    | nil =>
      intro c hc
      rwa [List.append_nil] at hc
    | cons b l ih =>
      intro c hc
      refine ih (pciPoolFree b c) ?_
      have hfront : (live ++ b :: l).Perm (b :: (live ++ l)) := List.perm_middle
      have herase := (hc.trans hfront).erase b
      rwa [List.erase_cons_head] at herase
  exact hfold c.hwDescList c h

theorem hwdescInit_error {e : Errno} (h : hwdescInit alloc c = (.error e, c')) :
    c'.hwDescList = c.hwDescList := by
  unfold hwdescInit pciPoolAlloc at h
  cases hpool : alloc.pool c.poolCalls with
  | none =>
    rw [hpool] at h
    obtain ⟨-, rfl⟩ := Prod.mk.inj h
    rfl
  | some b =>
    rw [hpool] at h
    dsimp only at h
    split at h
    · cases h
    · obtain ⟨-, rfl⟩ := Prod.mk.inj h
      rfl

theorem tsi148DmaSetupChain_released {fuel : Nat} {dsat ddat : Word}
    {sgl : List (SgEntry w)} {e : Errno} (hlist : c.hwDescList = [])
    (h : tsi148DmaSetupChain fuel alloc desc sgl dsat ddat c = (.error (.rc e), c')) :
    c'.live.Perm c.live ∧ c'.hwDescList = [] := by
  have hstart : Balanced c.live { c with filled := [] } := by
    show c.live.Perm (c.live ++ c.hwDescList)
    rw [hlist, List.append_nil]
  have hinit : Balanced c.live (hwdescInit alloc { c with filled := [] }).2 :=
    hstart.hwdescInit
  unfold tsi148DmaSetupChain at h
  split at h
  · next heq =>
    obtain ⟨-, rfl⟩ := Prod.mk.inj h
    rw [heq] at hinit
    have hnone := (hwdescInit_error heq).trans hlist
    unfold Balanced at hinit
    rw [hnone, List.append_nil] at hinit
    exact ⟨hinit, hnone⟩
  · next start c₁ heq =>
    rw [heq] at hinit
    split at h
    · obtain ⟨-, rfl⟩ := Prod.mk.inj h
      exact ⟨hinit.freeChain, rfl⟩
    · next vmeAddr hvme =>
      have hloop : Balanced c.live (setupChainLoop alloc desc fuel sgl.length dsat ddat
          sgl 0 (some start.va) vmeAddr c₁).2 := hinit.setupChainLoop
      split at h
      · next heq' =>
        obtain ⟨-, rfl⟩ := Prod.mk.inj h
        rw [heq'] at hloop
        exact ⟨hloop.freeChain, rfl⟩
      · next hrc heq' =>
        obtain ⟨hstop, -⟩ := Prod.mk.inj h
        exact absurd (Except.error.inj hstop) (hrc e)
      · cases h

end Chain

/-! ## The bridge -/

section Setup

variable {k fuel : Nat} {env : SetupEnv} {desc : VmeDmaDesc} {toUser : Bool}
  {s s' : DmaState} {e : Errno} {pages : List Page}

/-- The attributes of both sides and the control word are what the chip takes. -/
def Configures (desc : VmeDmaDesc) : Prop :=
  ∃ dsat ddat dctl, tsi148DmaSetupSrc desc = .ok dsat ∧ tsi148DmaSetupDst desc = .ok ddat ∧
    tsi148DmaSetupCtl desc = .ok dctl

theorem tsi148DmaSetup_refused (h : ¬ Configures desc) :
    ∃ e, tsi148DmaSetup fuel env desc s = (.error (.rc e), s) := by
  unfold tsi148DmaSetup
  cases hsrc : tsi148DmaSetupSrc desc with
  | error e => exact ⟨e, rfl⟩
  | ok dsat =>
    cases hdst : tsi148DmaSetupDst desc with
    | error e => exact ⟨e, rfl⟩
    | ok ddat =>
      cases hctl : tsi148DmaSetupCtl desc with
      | error e => exact ⟨e, rfl⟩
      | ok dctl => exact absurd ⟨dsat, ddat, dctl, hsrc, hdst, hctl⟩ h

theorem tsi148DmaSetup_configured (h : Configures desc) :
    ∃ dsat ddat dctl, tsi148DmaSetup fuel env desc s =
      ((tsi148DmaSetupChain fuel env.alloc desc.toVmeDma s.sgMapped dsat ddat s.chain).1,
        { s with
          dctl := s.dctl ++ [dctl]
          chain := (tsi148DmaSetupChain fuel env.alloc desc.toVmeDma s.sgMapped dsat ddat
            s.chain).2 }) := by
  obtain ⟨dsat, ddat, dctl, hsrc, hdst, hctl⟩ := h
  refine ⟨dsat, ddat, dctl &&& ~~~dctlMod, ?_⟩
  unfold tsi148DmaSetup
  rw [hsrc, hdst, hctl]

structure KeepsPages (s s' : DmaState) : Prop where
  sgl : s'.sgl = s.sgl
  pins : s'.pins = s.pins
  puts : s'.puts = s.puts
  sglAllocs : s'.sglAllocs = s.sglAllocs
  sglFrees : s'.sglFrees = s.sglFrees

theorem tsi148DmaSetup_error (hlist : s.chain.hwDescList = [])
    (h : tsi148DmaSetup fuel env desc s = (.error (.rc e), s')) :
    KeepsPages s s' ∧ s'.chain.live.Perm s.chain.live ∧ s'.chain.hwDescList = [] := by
  by_cases hconf : Configures desc
  · obtain ⟨dsat, ddat, dctl, heq⟩ := @tsi148DmaSetup_configured fuel env desc s hconf
    rw [heq] at h
    obtain ⟨hrc, rfl⟩ := Prod.mk.inj h
    refine ⟨⟨rfl, rfl, rfl, rfl, rfl⟩, ?_⟩
    exact tsi148DmaSetupChain_released hlist (Prod.ext hrc rfl)
  · obtain ⟨e', heq⟩ := @tsi148DmaSetup_refused fuel env desc s hconf
    rw [heq] at h
    obtain ⟨-, rfl⟩ := Prod.mk.inj h
    exact ⟨⟨rfl, rfl, rfl, rfl, rfl⟩, List.Perm.refl _, hlist⟩

/-! ## The pages and the table -/

/-- The call comes as far as asking for the pages. -/
structure AsksForPages (env : SetupEnv) (desc : VmeDmaDesc) : Prop where
  fits : ¬ desc.uaddr + desc.length.setWidth 64 < desc.uaddr
  table : ∃ heap, env.kmallocSgl = some heap
  array : env.kmallocPages = true

/-- All the pages of the buffer are obtained. -/
def ObtainsPages (k : Nat) (env : SetupEnv) (desc : VmeDmaDesc) (toUser : Bool) : Prop :=
  ∃ pages, ObtainsAll k env (nrPages k desc.uaddr desc.length) desc.uaddr
    (desc.dir == .fromDevice) toUser pages

/-- All that was taken has been given back: the pages that were released are those that
were pinned, each of them once. -/
structure GivenBack (s s' : DmaState) : Prop where
  pages : ∃ taken, s'.pins = s.pins ++ taken ∧ s'.puts.Perm (s.puts ++ taken)
  table : ∃ n, n ≤ 1 ∧ s'.sglAllocs = s.sglAllocs + n ∧ s'.sglFrees = s.sglFrees + n
  pool : s'.chain.live.Perm s.chain.live
  list : s'.chain.hwDescList = []

/-- What a call should leave behind: without the pages it fails and leaves the bridge
alone, and when it fails it gives back everything. -/
structure Cleaned (k : Nat) (env : SetupEnv) (desc : VmeDmaDesc) (toUser : Bool)
    (s : DmaState) (r : Except DmaStop Unit × DmaState) : Prop where
  refused : ¬ (AsksForPages env desc ∧ ObtainsPages k env desc toUser) →
    (∃ e, r.1 = .error (.rc e)) ∧ r.2.dctl = s.dctl ∧ r.2.chain = s.chain
  givenBack : ∀ e, r.1 = .error (.rc e) → GivenBack s r.2

theorem sglMapUserPages_missed {n : Word} {uaddr length : BitVec 64} {rw : Bool}
    (harray : env.kmallocPages = true)
    (h : ∀ pages, ¬ ObtainsAll k env n uaddr rw toUser pages) :
    ∃ part, sglMapUserPages k env n uaddr length rw toUser s =
      (.ok n, { s with pins := s.pins ++ part, puts := s.puts ++ part }) := by
  unfold sglMapUserPages sglFillPages
  rw [if_pos harray]
  cases toUser with
  | true =>
    rw [if_pos rfl]
    cases hget : env.getUserPages uaddr n rw with
    | error e => exact ⟨[], by simp only [List.append_nil]⟩
    | ok pages =>
      have hle := env.most hget
      have hne : pages.length ≠ n.toNat := fun hall => h pages ⟨harray, hget, hall⟩
      refine ⟨pages, ?_⟩
      dsimp only
      rw [if_pos (by omega)]
  | false =>
    rw [if_neg Bool.false_ne_true]
    cases hget : sglFillKernelPages k env uaddr n with
    | error e => exact ⟨[], by simp only [List.append_nil]⟩
    | ok pages =>
      refine absurd ⟨harray, hget, ?_⟩ (h pages)
      unfold sglFillKernelPages at hget
      split at hget
      · obtain rfl := Except.ok.inj hget
        rw [List.length_map, List.length_range]
      · cases hget

/-- The channel with the table as the heap has it. -/
def DmaState.table (k : Nat) (env : SetupEnv) (desc : VmeDmaDesc) (s : DmaState) : DmaState :=
  { s with
    sgl := (List.range (nrPages k desc.uaddr desc.length).toNat).map
      (env.kmallocSgl.getD fun _ => ⟨0, 0, 0⟩)
    sglAllocs := s.sglAllocs + 1 }

theorem vmeDmaSetup_asked (hk : k < 32) (hlen : 0 < desc.length.toNat)
    (hasks : AsksForPages env desc) {s₁ : DmaState}
    (hpages : sglMapUserPages k env (nrPages k desc.uaddr desc.length) desc.uaddr
      (desc.length.setWidth 64) (desc.dir == .fromDevice) toUser (s.table k env desc) =
        (.ok (nrPages k desc.uaddr desc.length), s₁)) :
    vmeDmaSetup k fuel env desc toUser s =
      match tsi148DmaSetup fuel env desc { s₁ with sgMapped := env.pciMapSg s₁.sgl } with
      | (.ok (), s) => (.ok (), s)
      | (.error (.rc e), s) => (.error (.rc e), (sglUnmapUserPages toUser s).freeSgl)
      | (.error stop, s) => (.error stop, s) := by
  obtain ⟨heap, hheap⟩ := hasks.table
  obtain ⟨n, hn, -⟩ := nrPages_spec hk desc.uaddr hlen
  have hne : nrPages k desc.uaddr desc.length ≠ 0 := by
    intro hzero
    rw [hzero] at hn
    cases hn
  unfold DmaState.table at hpages
  rw [hheap, Option.getD_some] at hpages
  unfold vmeDmaSetup setupTable
  rw [if_neg hasks.fits, hheap]
  dsimp only
  rw [hpages]
  exact if_neg hne

theorem vmeDmaSetup_refused (hk : k < 32) (hlen : 0 < desc.length.toNat)
    (hasks : AsksForPages env desc) (hconf : ¬ Configures desc) {s₁ : DmaState}
    (hpages : sglMapUserPages k env (nrPages k desc.uaddr desc.length) desc.uaddr
      (desc.length.setWidth 64) (desc.dir == .fromDevice) toUser (s.table k env desc) =
        (.ok (nrPages k desc.uaddr desc.length), s₁)) :
    ∃ e, vmeDmaSetup k fuel env desc toUser s = (.error (.rc e),
      (sglUnmapUserPages toUser { s₁ with sgMapped := env.pciMapSg s₁.sgl }).freeSgl) := by
  obtain ⟨e, heq⟩ :=
    @tsi148DmaSetup_refused fuel env desc { s₁ with sgMapped := env.pciMapSg s₁.sgl } hconf
  refine ⟨e, ?_⟩
  rw [vmeDmaSetup_asked hk hlen hasks hpages, heq]

theorem vmeDmaSetup_early (hasks : ¬ AsksForPages env desc) :
    ∃ e sgl n, n ≤ 1 ∧ vmeDmaSetup k fuel env desc toUser s = (.error (.rc e),
      { s with sgl := sgl, sglAllocs := s.sglAllocs + n, sglFrees := s.sglFrees + n }) := by
  unfold vmeDmaSetup
  by_cases hfits : desc.uaddr + desc.length.setWidth 64 < desc.uaddr
  · rw [if_pos hfits]
    exact ⟨_, s.sgl, 0, Nat.zero_le _, rfl⟩
  · rw [if_neg hfits]
    cases hheap : env.kmallocSgl with
    | none => exact ⟨_, s.sgl, 0, Nat.zero_le _, rfl⟩
    | some heap =>
      have harray : ¬ env.kmallocPages = true := fun h => hasks ⟨hfits, ⟨heap, hheap⟩, h⟩
      refine ⟨.enomem, (List.range (nrPages k desc.uaddr desc.length).toNat).map heap, 1,
        Nat.le_refl _, ?_⟩
      dsimp only
      unfold setupTable sglMapUserPages
      rw [if_neg harray]
      rfl

theorem vmeDmaSetup_programs (hk : k < 32) (hlen : 0 < desc.length.toNat)
    (hasks : AsksForPages env desc) (hconf : Configures desc) {s₁ : DmaState}
    (hpages : sglMapUserPages k env (nrPages k desc.uaddr desc.length) desc.uaddr
      (desc.length.setWidth 64) (desc.dir == .fromDevice) toUser (s.table k env desc) =
        (.ok (nrPages k desc.uaddr desc.length), s₁)) :
    ∃ d, (vmeDmaSetup k fuel env desc toUser s).2.dctl = s₁.dctl ++ [d] := by
  obtain ⟨dsat, ddat, dctl, heq⟩ :=
    @tsi148DmaSetup_configured fuel env desc { s₁ with sgMapped := env.pciMapSg s₁.sgl } hconf
  rw [vmeDmaSetup_asked hk hlen hasks hpages, heq]
  refine ⟨dctl, ?_⟩
  generalize tsi148DmaSetupChain fuel env.alloc desc.toVmeDma _ dsat ddat _ = r
  rcases r with ⟨(e | e | e) | _, c⟩
  · unfold sglUnmapUserPages
    cases toUser <;> rfl
  · rfl
  · rfl
  · rfl

/-- The channel with its table: `part` of the pages have been released already, and the
pages of the table are those that have not. -/
structure HoldsPages (toUser : Bool) (s s₁ : DmaState) (part : List Page) : Prop where
  pins : s₁.pins = s.pins ++ (part ++ if toUser then s₁.sgl.map SgPage.page else [])
  puts : s₁.puts = s.puts ++ part
  sglAllocs : s₁.sglAllocs = s.sglAllocs + 1
  sglFrees : s₁.sglFrees = s.sglFrees
  chain : s₁.chain = s.chain

theorem HoldsPages.givenBack {s₁ s₂ : DmaState} {part : List Page}
    (h : HoldsPages toUser s s₁ part) (hkeeps : KeepsPages s₁ s₂)
    (hlive : s₂.chain.live.Perm s₁.chain.live) (hlist : s₂.chain.hwDescList = []) :
    GivenBack s (sglUnmapUserPages toUser s₂).freeSgl := by
  have hpins := hkeeps.pins.trans h.pins
  have hputs := hkeeps.puts.trans h.puts
  have hallocs := hkeeps.sglAllocs.trans h.sglAllocs
  have hfrees := hkeeps.sglFrees.trans h.sglFrees
  rw [h.chain] at hlive
  rw [← hkeeps.sgl] at hpins
  unfold sglUnmapUserPages DmaState.freeSgl
  cases toUser with
  | true =>
    refine ⟨⟨_, hpins, ?_⟩, ⟨1, Nat.le_refl _, hallocs, ?_⟩, hlive, hlist⟩
    · show (s₂.puts ++ s₂.sgl.map SgPage.page).Perm _
      rw [hputs, List.append_assoc]
      exact List.Perm.refl _
    · exact congrArg (· + 1) hfrees
  | false =>
    refine ⟨⟨_, hpins, ?_⟩, ⟨1, Nat.le_refl _, hallocs, ?_⟩, hlive, hlist⟩
    · show s₂.puts.Perm _
      rw [hputs, if_neg Bool.false_ne_true, List.append_nil]
    · exact congrArg (· + 1) hfrees

theorem vmeDmaSetup_givenBack (hk : k < 32) (hlen : 0 < desc.length.toNat)
    (hlist : s.chain.hwDescList = []) (hasks : AsksForPages env desc) {s₁ : DmaState}
    {part : List Page}
    (hpages : sglMapUserPages k env (nrPages k desc.uaddr desc.length) desc.uaddr
      (desc.length.setWidth 64) (desc.dir == .fromDevice) toUser (s.table k env desc) =
        (.ok (nrPages k desc.uaddr desc.length), s₁))
    (hholds : HoldsPages toUser s s₁ part)
    (h : vmeDmaSetup k fuel env desc toUser s = (.error (.rc e), s')) : GivenBack s s' := by
  rw [vmeDmaSetup_asked hk hlen hasks hpages] at h
  have hmapped : HoldsPages toUser s { s₁ with sgMapped := env.pciMapSg s₁.sgl } part :=
    ⟨hholds.pins, hholds.puts, hholds.sglAllocs, hholds.sglFrees, hholds.chain⟩
  generalize ({ s₁ with sgMapped := env.pciMapSg s₁.sgl } : DmaState) = s₂ at h hmapped
  generalize hr : tsi148DmaSetup fuel env desc s₂ = r at h
  obtain ⟨(e' | e' | e') | _, s₃⟩ := r
  · obtain ⟨-, rfl⟩ := Prod.mk.inj h
    have hstart : s₂.chain.hwDescList = [] := by
      rw [hmapped.chain]
      exact hlist
    obtain ⟨hkeeps, hlive, hnone⟩ := tsi148DmaSetup_error hstart hr
    exact hmapped.givenBack hkeeps hlive hnone
  · cases h
  · cases h
  · cases h

/-- A call cleans up if and only if it gets the pages that it asks for, or is for the
kernel and has attributes that are refused. -/
theorem vmeDmaSetup_cleaned_iff (hk : k < 32) (hlen : 0 < desc.length.toNat)
    (hlist : s.chain.hwDescList = []) :
    Cleaned k env desc toUser s (vmeDmaSetup k fuel env desc toUser s) ↔
      (AsksForPages env desc → ObtainsPages k env desc toUser ∨
        (toUser = false ∧ ¬ Configures desc)) := by
  constructor
  · intro hclean hasks
    by_contra hnot
    have hmissed : ¬ ObtainsPages k env desc toUser := fun h => hnot (.inl h)
    obtain ⟨part, hpages⟩ := @sglMapUserPages_missed k env toUser (s.table k env desc)
      (nrPages k desc.uaddr desc.length) desc.uaddr (desc.length.setWidth 64)
      (desc.dir == .fromDevice) hasks.array fun pages h => hmissed ⟨pages, h⟩
    obtain ⟨⟨e, herror⟩, hdctl, -⟩ := hclean.refused fun h => hmissed h.2
    by_cases hconf : Configures desc
    · obtain ⟨d, hd⟩ := @vmeDmaSetup_programs k fuel env desc toUser s hk hlen hasks hconf _
        hpages
      rw [hdctl] at hd
      have hlength := congrArg List.length hd
      rw [List.length_append] at hlength
      exact absurd hlength (Nat.ne_of_lt (Nat.lt_succ_self _))
    · -- A table as the heap had it is released: it names a page for each of the buffer.
      have huser : toUser = true := by
        cases toUser with
        | true => rfl
        | false => exact absurd (.inr ⟨rfl, hconf⟩) hnot
      subst huser
      obtain ⟨⟨taken, hpins, hputs⟩, -⟩ := hclean.givenBack e herror
      obtain ⟨e', heq⟩ :=
        @vmeDmaSetup_refused k fuel env desc true s hk hlen hasks hconf _ hpages
      rw [heq] at hpins hputs
      obtain ⟨n, hn, -⟩ := nrPages_spec hk desc.uaddr hlen
      have htaken : part = taken := List.append_cancel_left hpins
      have hperm : (s.puts ++ part ++ (s.table k env desc).sgl.map SgPage.page).Perm
          (s.puts ++ taken) := hputs
      have hlength := hperm.length_eq
      have hsgl : (s.table k env desc).sgl.length = n + 1 := by
        unfold DmaState.table
        rw [List.length_map, List.length_range, hn]
      rw [htaken, List.length_append, List.length_map, hsgl] at hlength
      omega
  · intro h
    by_cases hasks : AsksForPages env desc
    · by_cases hgot : ObtainsPages k env desc toUser
      · obtain ⟨pages, hall⟩ := hgot
        have hpages := sglMapUserPages_obtained hall (desc.length.setWidth 64)
          (s.table k env desc)
        have hsplits := setPages_splits hk hlen hall.all
        refine ⟨fun hnot => absurd ⟨hasks, pages, hall⟩ hnot, fun e herror => ?_⟩
        refine @vmeDmaSetup_givenBack k fuel env desc toUser s _ e hk hlen hlist hasks _ []
          hpages ⟨?_, (List.append_nil _).symm, rfl, rfl, rfl⟩ (Prod.ext herror rfl)
        cases toUser with
        | true => exact congrArg (s.pins ++ ·) hsplits.pages.symm
        | false => exact (List.append_nil _).symm
      · obtain ⟨rfl, hconf⟩ := (h hasks).resolve_left hgot
        obtain ⟨part, hpages⟩ := @sglMapUserPages_missed k env false (s.table k env desc)
          (nrPages k desc.uaddr desc.length) desc.uaddr (desc.length.setWidth 64)
          (desc.dir == .fromDevice) hasks.array fun pages h => hgot ⟨pages, h⟩
        obtain ⟨e', heq⟩ :=
          @vmeDmaSetup_refused k fuel env desc false s hk hlen hasks hconf _ hpages
        refine ⟨fun _ => ?_, fun e herror => ?_⟩
        · rw [heq]
          exact ⟨⟨e', rfl⟩, rfl, rfl⟩
        · refine @vmeDmaSetup_givenBack k fuel env desc false s _ e hk hlen hlist hasks _ part
            hpages ⟨?_, rfl, rfl, rfl, rfl⟩ (Prod.ext herror rfl)
          rw [if_neg Bool.false_ne_true, List.append_nil]
          rfl
    · obtain ⟨e, sgl, n, hn, heq⟩ := @vmeDmaSetup_early k fuel env desc toUser s hasks
      rw [heq]
      refine ⟨fun _ => ⟨⟨e, rfl⟩, rfl, rfl⟩, fun _ _ => ?_⟩
      refine ⟨⟨[], ?_, ?_⟩, ⟨n, hn, rfl, rfl⟩, List.Perm.refl _, hlist⟩
      · exact (List.append_nil _).symm
      · rw [List.append_nil]

end Setup

/-- 256 bytes of a user buffer at 64K to A32 space. -/
def writeDma : VmeDmaDesc :=
  { dir := .toDevice, src := { addrl := 0x10000 }
    dst := { am := .a32UserDataSct, addrl := 0x200000 }, length := 0x100 }

/-- The pool is empty, and the page is released. -/
theorem vmeDmaSetup_cleaned_iff_emptyPool :
    (vmeDmaSetup 12 8 (plentyEnv emptyPool) writeDma true {}).1 = .error (.rc .enomem) ∧
      (vmeDmaSetup 12 8 (plentyEnv emptyPool) writeDma true {}).2.pins = [0x10] ∧
      Cleaned 12 (plentyEnv emptyPool) writeDma true {}
        (vmeDmaSetup 12 8 (plentyEnv emptyPool) writeDma true {}) :=
  ⟨rfl, rfl, (vmeDmaSetup_cleaned_iff (by decide) (by decide) rfl).mpr fun _ =>
    .inl ⟨[0x10], rfl, by decide, by decide⟩⟩

/-- Sixteen blocks, 64 bytes apart, and all the heap there is. -/
def wideBlocks : DmaAlloc 64 where
  pool i :=
    if i < 16 then some ⟨0x1000 + 64 * i, BitVec.ofNat 64 (0x1000 + 64 * i)⟩ else none
  kmalloc _ := true

def faultEnv : SetupEnv where
  kmallocSgl := some fun _ => ⟨7, 0x100, 0⟩
  kmallocPages := true
  getUserPages _ _ _ := .error .efault
  virtAddrValid _ := false
  virtToPage _ := 0
  pciMapSg := (plentyEnv wideBlocks).pciMapSg
  alloc := wideBlocks
  most h := by cases h

/-- No page is obtained, and the call returns 0 with a transfer from page 7 set up. -/
theorem vmeDmaSetup_not_cleaned : ¬ ∀ (fuel : Nat) (env : SetupEnv) (desc : VmeDmaDesc)
    (toUser : Bool), 0 < desc.length.toNat →
      Cleaned 12 env desc toUser {} (vmeDmaSetup 12 fuel env desc toUser {}) := by
  intro h
  have hclean := h 8 faultEnv writeDma true (by decide)
  have hmissed : ¬ ObtainsPages 12 faultEnv writeDma true := by
    intro ⟨_, _, hgot, _⟩
    cases hgot
  obtain ⟨⟨e, herror⟩, -⟩ := hclean.refused fun h => hmissed h.2
  have hok : (vmeDmaSetup 12 8 faultEnv writeDma true {}).1 = .ok () := rfl
  rw [hok] at herror
  cases herror

end Coht.Vmebridge
