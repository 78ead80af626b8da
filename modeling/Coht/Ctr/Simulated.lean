import Coht.Ctr.Delivery

/-!
# Simulated events

`CtrDrvrWrite()` is meant to look like an interrupt to those who read. For an
object it takes the first slot that matches and puts an entry on the queues of
the clients of that slot. An interrupt of the counter of the slot does so too
unless the counter is remotely controlled, and it takes in the clients of the
source. For raw sources the two never look alike: the numbers of sources are
from 0 on in an interrupt and from 1 on in a simulated event, which has one
entry only, whatever the number of sources.
-/

namespace Coht.Ctr

open Coht.Lib

/-- What tells a reader where an entry comes from. -/
structure Origin where
  triggerNumber : Nat
  interruptNumber : U32
  ctim : U32
  connection : CtrDrvrConnection
  deriving DecidableEq

def CtrDrvrReadBuf.origin (rb : CtrDrvrReadBuf) : Origin :=
  ⟨rb.triggerNumber, rb.interruptNumber, rb.ctim, rb.connection⟩

namespace ModuleContext

variable (mcon : ModuleContext) (conx : CtrDrvrConnection)

/-- At least one client holds the connection. -/
def Held : Prop :=
  if conx.eqpClass = .HARD then ∃ s < CtrDrvrInterruptSOURCES,
    conx.eqpNum.getLsbD s = true ∧ ∃ d < CtrDrvrCLIENT_CONTEXTS, mcon.AtSource d s
  else ∃ i < CtrDrvrRamTableSIZE, mcon.Carries conx i ∧
    ∃ d < CtrDrvrCLIENT_CONTEXTS, mcon.At d i

/-- The first slot of the object. -/
def firstSlot : Option Nat := (mcon.matching conx.eqpNum conx.eqpClass).head?

def counterAt (t : Nat) : Nat := (mcon.trigs t).counter.toNat

/-- What the connection names interrupts: the sources of the mask, or the
counter of the first slot, which is in its history then. -/
structure Raises (raised : Raised) : Prop where
  hard : conx.eqpClass = .HARD → raised.source = conx.eqpNum
  slot : conx.eqpClass ≠ .HARD → ∀ t, mcon.firstSlot conx = some t →
    raised.source = 1#32 <<< mcon.counterAt t ∧
      (raised.history (mcon.counterAt t)).index = t

/-- The counter of the slot is one whose history the interrupt handler reads. -/
def Reads (t : Nat) : Prop :=
  mcon.counterAt t < CtrDrvrCOUNTERS ∧ mcon.map (mapLockConfig (mcon.counterAt t)) = 0

/-- The slot and the source of its counter are such that an interrupt gives to
the clients what a simulated event gives them. -/
structure Faithful (t : Nat) : Prop where
  clients : ∀ d < CtrDrvrCLIENT_CONTEXTS,
    mcon.counterAt t < CtrDrvrInterruptSOURCES → mcon.AtSource d (mcon.counterAt t) →
      mcon.At d t
  counter : (∃ d < CtrDrvrCLIENT_CONTEXTS, mcon.At d t) → mcon.Reads t

end ModuleContext

section

variable {mcon : ModuleContext} {conx : CtrDrvrConnection} {raised : Raised}
  {c t k midx : Nat} {payload : U32} {time : CtrDrvrCTime} {wa : WorkingArea}

theorem firstSlot_carries (h : mcon.firstSlot conx = some t) :
    t < CtrDrvrRamTableSIZE ∧ mcon.Carries conx t :=
  head_matching h

theorem firstSlot_of_held (hclass : conx.eqpClass ≠ .HARD) (h : mcon.Held conx) :
    ∃ t, mcon.firstSlot conx = some t := by
  unfold ModuleContext.Held at h
  rw [if_neg hclass] at h
  obtain ⟨i, hi, hcarries, -⟩ := h
  have hmem := mem_matching_carries.mpr ⟨hi, hcarries⟩
  cases hhead : mcon.firstSlot conx with
  | some t => exact ⟨t, rfl⟩
  | none =>
    rw [List.head?_eq_none_iff.mp hhead] at hmem
    cases hmem

/-! ## Objects -/

theorem write_origin (hclass : conx.eqpClass ≠ .HARD)
    (hfirst : mcon.firstSlot conx = some t) :
    (mcon.writeEntries ⟨0, conx, payload⟩ time c).map CtrDrvrReadBuf.origin =
      if (mcon.clients t).getLsbD c then
        [⟨t + 1, (mcon.trigs t).counter, (mcon.trigs t).ctim, conx⟩]
      else [] := by
  have hwritten : mcon.written ⟨0, conx, payload⟩ = (mcon.clients t,
      { mcon.slotBuf t with frame := (mcon.slotBuf t).frame.setValue payload }) := by
    have hhead : (mcon.matching conx.eqpNum conx.eqpClass).head? = some t := hfirst
    unfold ModuleContext.written
    dsimp only
    rw [if_pos hclass, if_pos rfl, hhead]
  unfold ModuleContext.writeEntries ModuleContext.writeEntry
  rw [hwritten]
  split
  · rfl
  · rfl

theorem sourcesOf_shift : ModuleContext.sourcesOf (1#32 <<< k) =
    if k < CtrDrvrInterruptSOURCES then [k] else [] := by
  split
  · next hk =>
    have hall : ∀ k < CtrDrvrInterruptSOURCES,
        ModuleContext.sourcesOf (1#32 <<< k) = [k] := by decide
    exact hall k hk
  · next hk =>
    refine List.eq_nil_iff_forall_not_mem.mpr fun s hs => ?_
    obtain ⟨hlt, hbit⟩ := mem_sourcesOf.mp hs
    rw [shift_bit (Nat.lt_trans hlt (by decide))] at hbit
    have heq : k = s := of_decide_eq_true hbit
    omega

theorem intr_entries (hsource : raised.source = 1#32 <<< k) :
    mcon.intrEntries midx raised c =
      if k < CtrDrvrInterruptSOURCES ∧ (mcon.intrClients raised k).getLsbD c = true
      then [mcon.intrEntry midx raised k] else [] := by
  unfold ModuleContext.intrEntries
  rw [hsource, sourcesOf_shift]
  by_cases hk : k < CtrDrvrInterruptSOURCES
  · by_cases hbit : (mcon.intrClients raised k).getLsbD c = true
    · rw [if_pos hk, if_pos ⟨hk, hbit⟩, List.filter_cons, if_pos hbit]
      rfl
    · rw [if_pos hk, if_neg fun hand => hbit hand.2, List.filter_cons, if_neg hbit]
      rfl
  · rw [if_neg hk, if_neg fun hand => hk hand.1]
    rfl

theorem intr_loaded (hconx : conx.module = midx + 1)
    (hfirst : mcon.firstSlot conx = some t) (hreads : mcon.Reads t)
    (hused : mcon.clients t ≠ 0)
    (hindex : (raised.history (mcon.counterAt t)).index = t) :
    mcon.intrClients raised (mcon.counterAt t) =
        mcon.clients t ||| mcon.hardClients (mcon.counterAt t) ∧
      (mcon.intrEntry midx raised (mcon.counterAt t)).origin =
        ⟨t + 1, (mcon.trigs t).counter, (mcon.trigs t).ctim, conx⟩ := by
  obtain ⟨hlt, hnum, hclass⟩ := firstSlot_carries hfirst
  have hslot : mcon.loadedSlot raised (mcon.counterAt t) = some t := by
    unfold ModuleContext.loadedSlot
    dsimp only
    rw [hindex]
    exact if_pos ⟨hreads.1, hreads.2, hlt, hused⟩
  have hsame : (⟨midx + 1, mcon.eqpClass t, mcon.eqpNum t⟩ : CtrDrvrConnection) = conx := by
    rw [hnum, hclass, ← hconx]
  have hcounter : BitVec.ofNat 32 (mcon.counterAt t) = (mcon.trigs t).counter := by
    unfold ModuleContext.counterAt
    rw [BitVec.ofNat_toNat, BitVec.setWidth_eq]
  unfold ModuleContext.intrClients ModuleContext.intrEntry ModuleContext.intrBuf
  rw [hslot]
  refine ⟨rfl, ?_⟩
  unfold CtrDrvrReadBuf.origin
  dsimp only
  rw [hsame, hcounter]

theorem intr_unloaded (h : mcon.loadedSlot raised k = none) :
    mcon.intrClients raised k = mcon.hardClients k ∧
      (mcon.intrEntry midx raised k).triggerNumber = 0 := by
  unfold ModuleContext.intrClients ModuleContext.intrEntry ModuleContext.intrBuf
  rw [h]
  refine ⟨rfl, ?_⟩
  dsimp only
  split
  · rfl
  · rfl

theorem object_alike (hconx : conx.module = midx + 1) (hclass : conx.eqpClass ≠ .HARD)
    (hfirst : mcon.firstSlot conx = some t) (hraised : mcon.Raises conx raised) :
    (∀ c < CtrDrvrCLIENT_CONTEXTS,
      (mcon.writeEntries ⟨0, conx, payload⟩ time c).map CtrDrvrReadBuf.origin =
        (mcon.intrEntries midx raised c).map CtrDrvrReadBuf.origin) ↔
      mcon.Faithful t := by
  obtain ⟨hsource, hindex⟩ := hraised.slot hclass t hfirst
  simp only [write_origin hclass hfirst, intr_entries hsource]
  by_cases hreads : mcon.Reads t ∧ mcon.clients t ≠ 0
  · -- The handler takes the slot from the history, and adds the clients of the
    -- source to those of the slot.
    obtain ⟨hreads, hused⟩ := hreads
    obtain ⟨hclients, horigin⟩ := @intr_loaded mcon conx raised t midx hconx hfirst hreads
      hused hindex
    have hcounter : mcon.counterAt t < CtrDrvrInterruptSOURCES :=
      Nat.lt_trans hreads.1 (by decide)
    simp only [hclients, hcounter, true_and]
    constructor
    · intro h
      refine ⟨fun d hd _ hat => ?_, fun _ => hreads⟩
      have hd := h d hd
      have hor : (mcon.clients t ||| mcon.hardClients (mcon.counterAt t)).getLsbD d =
          true := by
        rw [BitVec.getLsbD_or, show (mcon.hardClients _).getLsbD d = true from hat,
          Bool.or_true]
      rw [if_pos hor] at hd
      split at hd
      · next hslot => exact hslot
      · cases hd
    · intro h c hc
      have hsame : (mcon.clients t ||| mcon.hardClients (mcon.counterAt t)).getLsbD c =
          (mcon.clients t).getLsbD c := by
        rw [BitVec.getLsbD_or]
        cases hhard : (mcon.hardClients (mcon.counterAt t)).getLsbD c with
        | false => exact Bool.or_false _
        | true =>
          have hat : (mcon.clients t).getLsbD c = true := h.clients c hc hcounter hhard
          rw [hat]
          rfl
      rw [hsame]
      split
      · exact congrArg (fun o => [o]) horigin.symm
      · rfl
  · -- The entry is one of the source, if there is one.
    have hslot : mcon.loadedSlot raised (mcon.counterAt t) = none := by
      unfold ModuleContext.loadedSlot
      dsimp only
      rw [hindex]
      exact if_neg fun hand => hreads ⟨⟨hand.1, hand.2.1⟩, hand.2.2.2⟩
    obtain ⟨hclients, hnumber⟩ := @intr_unloaded mcon raised (mcon.counterAt t) midx hslot
    rw [hclients]
    constructor
    · intro h
      have hnone : ∀ d < CtrDrvrCLIENT_CONTEXTS,
          ¬ (mcon.clients t).getLsbD d = true := by
        intro d hd hat
        have hentry := h d hd
        rw [if_pos hat] at hentry
        split at hentry
        · have horigin := List.singleton_inj.mp hentry
          have hzero : t + 1 = 0 := (congrArg Origin.triggerNumber horigin).trans hnumber
          omega
        · cases hentry
      refine ⟨fun d hd hcounter hat => ?_, fun ⟨d, hd, hat⟩ => absurd hat (hnone d hd)⟩
      have hentry := h d hd
      rw [if_neg (hnone d hd), if_pos ⟨hcounter, hat⟩] at hentry
      cases hentry
    · intro h c hc
      have hnone : ¬ (mcon.clients t).getLsbD c = true :=
        fun hat => hreads ⟨h.counter ⟨c, hc, hat⟩, at_used hat⟩
      rw [if_neg hnone, if_neg fun hand => hnone (h.clients c hc hand.1 hand.2)]
      rfl

/-! ## Raw sources -/

theorem written_hard (hclass : conx.eqpClass = .HARD) :
    (∀ d, (mcon.written ⟨0, conx, payload⟩).1.getLsbD d = true ↔
      ∃ s ∈ ModuleContext.sourcesOf conx.eqpNum, mcon.AtSource d s) ∧
    ∀ s ∈ ModuleContext.sourcesOf conx.eqpNum, ∃ last < CtrDrvrInterruptSOURCES, s ≤ last ∧
      (mcon.written ⟨0, conx, payload⟩).2.interruptNumber = BitVec.ofNat 32 (last + 1) := by
  have hwritten : mcon.written ⟨0, conx, payload⟩ =
      (ModuleContext.sourcesOf conx.eqpNum).foldl (fun acc i =>
        (acc.1 ||| mcon.hardClients i,
          { acc.2 with interruptNumber := BitVec.ofNat 32 (i + 1) })) (0, {}) :=
    if_neg (not_not.mpr hclass)
  rw [hwritten]
  constructor
  · intro d
    suffices h : ∀ (sources : List Nat) (acc : U32 × CtrDrvrReadBuf),
        (sources.foldl (fun acc i => (acc.1 ||| mcon.hardClients i,
          { acc.2 with interruptNumber := BitVec.ofNat 32 (i + 1) })) acc).1.getLsbD d =
            true ↔ acc.1.getLsbD d = true ∨ ∃ s ∈ sources, mcon.AtSource d s by
      refine (h _ _).trans (or_iff_right ?_)
      exact ne_true_of_eq_false BitVec.getLsbD_zero
    intro sources
    induction sources with
    | nil => simp
    | cons s sources ih =>
      intro acc
      rw [List.foldl_cons, ih, BitVec.getLsbD_or, Bool.or_eq_true, or_assoc]
      simp [ModuleContext.AtSource]
  · intro s hs
    have hsorted : (ModuleContext.sourcesOf conx.eqpNum).Pairwise (· < ·) :=
      List.pairwise_lt_range.filter _
    have hsmall : ∀ s ∈ ModuleContext.sourcesOf conx.eqpNum, s < CtrDrvrInterruptSOURCES :=
      fun s hs => (mem_sourcesOf.mp hs).1
    generalize ModuleContext.sourcesOf conx.eqpNum = sources at hs hsorted hsmall
    rcases List.eq_nil_or_concat sources with hnil | ⟨init, last, hconcat⟩
    · rw [hnil] at hs
      cases hs
    · rw [List.concat_eq_append] at hconcat
      subst hconcat
      refine ⟨last, hsmall last (by simp), ?_, ?_⟩
      · rcases List.mem_append.mp hs with hinit | hlast
        · have hlt := (List.pairwise_append.mp hsorted).2.2 s hinit last (by simp)
          omega
        · exact (List.mem_singleton.mp hlast).le
      · rw [List.foldl_append]
        rfl

theorem hard_differs (hclass : conx.eqpClass = .HARD) (hheld : mcon.Held conx)
    (hraised : mcon.Raises conx raised) :
    ¬ ∀ c < CtrDrvrCLIENT_CONTEXTS,
      (mcon.writeEntries ⟨0, conx, payload⟩ time c).map CtrDrvrReadBuf.origin =
        (mcon.intrEntries midx raised c).map CtrDrvrReadBuf.origin := by
  intro h
  unfold ModuleContext.Held at hheld
  rw [if_pos hclass] at hheld
  obtain ⟨s, hs, hmask, d, hd, hat⟩ := hheld
  have hmem := mem_sourcesOf.mpr ⟨hs, hmask⟩
  obtain ⟨hclients, hnumber⟩ := @written_hard mcon conx payload hclass
  have hentries := h d hd
  unfold ModuleContext.writeEntries ModuleContext.intrEntries at hentries
  rw [if_pos ((hclients d).mpr ⟨s, hmem, hat⟩), hraised.hard hclass, List.map_map] at hentries
  -- The only source that is raised for the client has a number of its own.
  have hwrite : (mcon.writeEntry ⟨0, conx, payload⟩ time).origin ∈
      [mcon.writeEntry ⟨0, conx, payload⟩ time].map CtrDrvrReadBuf.origin :=
    List.mem_singleton_self _
  rw [hentries] at hwrite
  obtain ⟨i, hi, hentry⟩ := List.mem_map.mp hwrite
  obtain ⟨last, hlast, hle, hwritten⟩ := hnumber i (List.mem_filter.mp hi).1
  have hsame : BitVec.ofNat 32 i = BitVec.ofNat 32 (last + 1) :=
    (congrArg Origin.interruptNumber hentry).trans hwritten
  have hnat := congrArg BitVec.toNat hsame
  unfold CtrDrvrInterruptSOURCES at hlast
  rw [BitVec.toNat_ofNat, BitVec.toNat_ofNat] at hnat
  omega

/-! ## The driver -/

theorem write_returns (hconx : conx.module = midx + 1)
    (hmidx : midx < CtrDrvrMODULE_CONTEXTS) :
    ∃ wa', ctrDrvrWrite ⟨0, conx, payload⟩ time wa = .returns wa' := by
  unfold ctrDrvrWrite
  dsimp only
  rw [if_neg (by omega), if_neg (by simp)]
  split
  · exact ⟨_, rfl⟩
  · exact ⟨_, rfl⟩

/-- A simulated event and the interrupts of what it names, for every connection
that a client holds: each puts these entries and nothing else, and they look
alike only for an object whose first slot is faithful. -/
theorem simulated_iff (hmidx : midx < CtrDrvrMODULE_CONTEXTS)
    (hconx : conx.module = midx + 1) (hheld : (wa.moduleContexts midx).Held conx)
    (hraised : (wa.moduleContexts midx).Raises conx raised) :
    let mcon := wa.moduleContexts midx
    let wb : CtrDrvrWriteBuf := ⟨0, conx, payload⟩
    (∃ wa', ctrDrvrWrite wb time wa = .returns wa' ∧ ∀ c < CtrDrvrCLIENT_CONTEXTS,
      wa'.clientContexts c = putAll (mcon.writeEntries wb time c) (wa.clientContexts c)) ∧
    (∀ c < CtrDrvrCLIENT_CONTEXTS, (intrHandler midx raised wa).clientContexts c =
      putAll (mcon.intrEntries midx raised c) (wa.clientContexts c)) ∧
    ((∀ c < CtrDrvrCLIENT_CONTEXTS,
      (mcon.writeEntries wb time c).map CtrDrvrReadBuf.origin =
        (mcon.intrEntries midx raised c).map CtrDrvrReadBuf.origin) ↔
      conx.eqpClass ≠ .HARD ∧ ∃ t, mcon.firstSlot conx = some t ∧ mcon.Faithful t) := by
  refine ⟨?_, fun c hc => intrHandler_client hc, ?_⟩
  · obtain ⟨wa', hwrite⟩ := @write_returns conx midx payload time wa hconx hmidx
    refine ⟨wa', hwrite, fun c hc => ?_⟩
    have hclient := ctrDrvrWrite_client hc hwrite
    dsimp only at hclient
    rw [hconx, Nat.add_sub_cancel] at hclient
    exact hclient
  · by_cases hclass : conx.eqpClass = .HARD
    · exact ⟨fun h => absurd h (hard_differs hclass hheld hraised),
        fun hand => absurd hclass hand.1⟩
    · obtain ⟨t, hfirst⟩ := firstSlot_of_held hclass hheld
      rw [object_alike hconx hclass hfirst hraised]
      constructor
      · exact fun hfaithful => ⟨hclass, t, hfirst, hfaithful⟩
      · intro ⟨_, t', hfirst', hfaithful⟩
        rw [Option.some.inj (hfirst.symm.trans hfirst')]
        exact hfaithful

end

/-- An interrupt of counter 1 with slot 0 in its history. -/
def slotRaised : Raised := { source := 2, history := fun _ => { index := 0 } }

/-- A client is connected to a PTIM object, and the interrupts of its counter
look like the simulated ones. -/
theorem simulated_iff_joined : ∃ wa : WorkingArea, driver.Reachable wa ∧
    ((∀ c < CtrDrvrCLIENT_CONTEXTS,
      ((wa.moduleContexts 0).writeEntries ⟨0, ⟨1, .PTIM, 7⟩, 0⟩ {} c).map
          CtrDrvrReadBuf.origin =
        ((wa.moduleContexts 0).intrEntries 0 slotRaised c).map CtrDrvrReadBuf.origin) ↔
      CtrDrvrConnectionClass.PTIM ≠ .HARD ∧ ∃ t,
        (wa.moduleContexts 0).firstSlot ⟨1, .PTIM, 7⟩ = some t ∧
          (wa.moduleContexts 0).Faithful t) := by
  have hruns : (oneModule.run (fun _ _ => True) (objectEvents ++ [joinEvent 1])).any
      (fun wa => (wa.moduleContexts 0).eqpNum 0 = 7 ∧
        (wa.moduleContexts 0).eqpClass 0 = .PTIM ∧
        (wa.moduleContexts 0).clients 0 = clientMask 0 ∧
        ((wa.moduleContexts 0).trigs 0).counter = 1 ∧
        (wa.moduleContexts 0).firstSlot ⟨1, .PTIM, 7⟩ = some 0) = true := by
    decide +kernel
  obtain ⟨wa, hrun, hnum, hclass, hclients, hcounter, hfirst⟩ := exists_run hruns
  refine ⟨wa, .run (.init oneModule_installed) (run_run hrun).of_guarded,
    (simulated_iff (by decide) rfl ?_ ⟨fun hhard => (by cases hhard), ?_⟩).2.2⟩
  · refine (if_neg (by decide)).mpr ⟨0, by decide, ⟨hnum, hclass⟩, 0, by decide, ?_⟩
    unfold ModuleContext.At
    rw [hclients]
    decide
  · intro _ t ht
    rw [← Option.some.inj (hfirst.symm.trans ht)]
    unfold ModuleContext.counterAt
    rw [hcounter]
    exact ⟨by decide, rfl⟩

def sourceEvents : List Event :=
  [.opens 0, .ioctl 0 (.connect ⟨1, .HARD, 1⟩) fun _ _ => 0]

/-- What it gets from an interrupt of the source is of number 0, and from a
simulated one of number 1. -/
theorem source_differs : ¬ ∀ (wa : WorkingArea) (midx : Nat) (conx : CtrDrvrConnection)
    (raised : Raised) (payload : U32) (time : CtrDrvrCTime), driver.Reachable wa →
    (wa.moduleContexts midx).inUse = true → conx.module = midx + 1 →
    (wa.moduleContexts midx).Held conx → (wa.moduleContexts midx).Raises conx raised →
    ∀ c < CtrDrvrCLIENT_CONTEXTS,
      ((wa.moduleContexts midx).writeEntries ⟨0, conx, payload⟩ time c).map
          CtrDrvrReadBuf.origin =
        ((wa.moduleContexts midx).intrEntries midx raised c).map
          CtrDrvrReadBuf.origin := by
  intro h
  have hruns : (oneModule.run (fun _ _ => True) sourceEvents).any
      (fun wa => (wa.moduleContexts 0).inUse = true ∧
        (wa.moduleContexts 0).hardClients 0 = clientMask 0) = true := by
    decide +kernel
  obtain ⟨wa, hrun, hin, hclients⟩ := exists_run hruns
  have hheld : (wa.moduleContexts 0).Held ⟨1, .HARD, 1⟩ := by
    refine (if_pos rfl).mpr ⟨0, by decide, by decide, 0, by decide, ?_⟩
    unfold ModuleContext.AtSource
    rw [hclients]
    decide
  have hraised : (wa.moduleContexts 0).Raises ⟨1, .HARD, 1⟩ { source := 1 } :=
    ⟨fun _ => rfl, fun hclass => absurd rfl hclass⟩
  exact hard_differs rfl hheld hraised (h wa 0 ⟨1, .HARD, 1⟩ { source := 1 } 0 {}
    (.run (.init oneModule_installed) (run_run hrun).of_guarded) hin rfl hheld hraised)

end Coht.Ctr
