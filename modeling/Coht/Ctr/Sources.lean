import Coht.Ctr.BusBit
import Coht.Ctr.Clients

/-!
# Which interrupt sources are enabled

A source is needed when a client is connected to it directly or through a slot
whose counter it is. `DisableInterrupts()` looks for others that need the
source, and goes wrong in three ways: it does not count what the client who
leaves keeps; it takes the number of a slot for that of a source, and leaves
the source enabled if it finds someone there; and for a source that is no
counter of a module it does not look at the slots. `CleanOn` says of a source
when none of them matters, and then the enabled sources are those that are
needed.
-/

namespace Coht.Ctr

open Coht.Lib

namespace ModuleContext

variable (mcon : ModuleContext)

def Needed (s : Nat) : Prop :=
  mcon.hardClients s ≠ 0 ∨ ∃ i < CtrDrvrRamTableSIZE,
    (mcon.trigs i).counter.toNat = s ∧ mcon.clients i ≠ 0

/-- Some client other than `c` is. -/
def OthersOn (c s : Nat) : Prop :=
  mcon.hardClients s &&& ~~~clientMask c ≠ 0 ∨ ∃ i < CtrDrvrRamTableSIZE,
    (mcon.trigs i).counter.toNat = s ∧ mcon.clients i &&& ~~~clientMask c ≠ 0

/-- Client `c` is connected to a slot with this counter. -/
def OnSlot (c s i : Nat) : Prop :=
  (mcon.trigs i).counter.toNat = s ∧ clientMask c &&& mcon.clients i ≠ 0

def OnSource (c s : Nat) : Prop := clientMask c &&& mcon.hardClients s ≠ 0

/-- Of what needs the source, the client leaves something: one of the slots, or
the source itself. -/
def LeavesOn (slots : List Nat) (raw : Bool) (c s : Nat) : Prop :=
  (raw = true ∧ mcon.OnSource c s) ∨ ∃ i ∈ slots, mcon.OnSlot c s i

/-- The client keeps something. -/
def KeepsOn (slots : List Nat) (raw : Bool) (c s : Nat) : Prop :=
  (raw = false ∧ mcon.OnSource c s) ∨
    ∃ i < CtrDrvrRamTableSIZE, i ∉ slots ∧ mcon.OnSlot c s i

/-- It leaves the source itself, or a slot at whose number no other client is
found in `HardClients[]`. -/
def PlainOn (behind : Behind) (slots : List Nat) (raw : Bool) (c s : Nat) : Prop :=
  (raw = true ∧ mcon.OnSource c s) ∨ ∃ i ∈ slots, mcon.OnSlot c s i ∧
    mcon.hardWord behind i &&& ~~~clientMask c = 0

/-- Where no other client is on a source of which the client leaves something,
it leaves the source plainly or keeps something on it, and not both; and where
others are on a source that is no counter, the client is not the last one who
is connected to it directly. -/
def CleanOn (behind : Behind) (slots : List Nat) (raw : Bool) (c s : Nat) : Prop :=
  (¬ mcon.OthersOn c s → mcon.LeavesOn slots raw c s →
    (mcon.PlainOn behind slots raw c s ↔ ¬ mcon.KeepsOn slots raw c s)) ∧
  (mcon.OthersOn c s → raw = true → CtrDrvrCOUNTERS < s → mcon.OnSource c s →
    mcon.hardClients s &&& ~~~clientMask c ≠ 0)

/-- What the client leaves of the module it leaves in a clean way. -/
def LeavesClean (behind : Behind) (slots : List Nat) (raw : Bool) (c : Nat) : Prop :=
  ∀ s < CtrDrvrInterruptSOURCES, mcon.CleanOn behind slots raw c s

def AllClean (behind : Behind) (c : Nat) : Prop :=
  mcon.LeavesClean behind mcon.occupied true c

variable (behind : Behind) (slots : List Nat) (raw : Bool) (c s : Nat)

instance (i : Nat) : Decidable (mcon.OnSlot c s i) := inferInstanceAs (Decidable (_ ∧ _))

instance : Decidable (mcon.OnSource c s) := inferInstanceAs (Decidable (_ ≠ _))

instance : Decidable (mcon.OthersOn c s) := inferInstanceAs (Decidable (_ ∨ _))

instance : Decidable (mcon.LeavesOn slots raw c s) := inferInstanceAs (Decidable (_ ∨ _))

instance : Decidable (mcon.KeepsOn slots raw c s) := inferInstanceAs (Decidable (_ ∨ _))

instance : Decidable (mcon.PlainOn behind slots raw c s) :=
  inferInstanceAs (Decidable (_ ∨ _))

instance : Decidable (mcon.CleanOn behind slots raw c s) :=
  inferInstanceAs (Decidable (_ ∧ _))

instance : Decidable (mcon.LeavesClean behind slots raw c) :=
  inferInstanceAs (Decidable (∀ s < CtrDrvrInterruptSOURCES, _))

instance : Decidable (mcon.AllClean behind c) :=
  inferInstanceAs (Decidable (mcon.LeavesClean behind mcon.occupied true c))

end ModuleContext

/-- No object gets the number 0 or a counter past the interrupt mask, no memory
is written past the driver, and what is disconnected is so in a clean way. -/
def Clean (wa : WorkingArea) : Event → Prop
  | .closes c behind => ∀ m < wa.modules, (wa.moduleContexts m).AllClean (behind m) c
  | .ioctl c (.disconnect conx) behind =>
    if conx.eqpNum = 0 then
      ∀ m < wa.modules, (wa.moduleContexts m).AllClean (behind m) c
    else
      let m := conx.module - 1
      let mcon := wa.moduleContexts m
      mcon.LeavesClean (behind m) (mcon.matching conx.eqpNum conx.eqpClass)
        (conx.eqpClass = .HARD) c
  | .ioctl _ (.createPtim ptim) _ => ptim.eqpNum ≠ 0 ∧ ptim.counter.toNat < 32
  | .ioctl _ (.createCtim ctim) _ => ctim.eqpNum ≠ 0
  | e => e.rawWrites = false

instance (wa : WorkingArea) (e : Event) : Decidable (Clean wa e) :=
  match e with
  | .closes .. => inferInstanceAs (Decidable (∀ m < wa.modules, _))
  | .ioctl _ cmd _ =>
    match cmd with
    | .disconnect _ => inferInstanceAs (Decidable (@ite Prop _ _ _ _))
    | .createPtim _ => inferInstanceAs (Decidable (_ ∧ _))
    | .createCtim _ => inferInstanceAs (Decidable (_ ≠ _))
    | .setTimeout _ | .setQueueFlag _ | .getQueueOverflow | .setModule _ | .lock
    | .unlock _ | .getUtc | .connect _ | .setAction _ | .destroyCtim _
    | .changeCtimFrame _ | .destroyPtim _ | .control _ | .inquiry =>
      inferInstanceAs (Decidable (_ = _))
  | .opens _ | .writes .. | .reads .. | .interrupts .. =>
    inferInstanceAs (Decidable (_ = _))

structure ModuleContext.Armed (mcon : ModuleContext) : Prop where
  register : mcon.InRegister
  enabled : ∀ s < CtrDrvrInterruptSOURCES, mcon.Enabled s ↔ mcon.Needed s

section

variable {mcon mcon' : ModuleContext} {behind : Behind} {slots : List Nat} {raw : Bool}
  {c i s : Nat}

/-! ## What a client leaves -/

theorem alone_iff {w : U32} (h : w &&& ~~~clientMask c = 0) :
    w ≠ 0 ↔ clientMask c &&& w ≠ 0 := by
  refine not_congr ⟨fun hzero => ?_, fun hnone => ?_⟩
  · rw [hzero]
    exact BitVec.and_zero
  · rw [← leaves_idle hnone, h]

theorem hardWord_source (hs : s < CtrDrvrInterruptSOURCES) :
    mcon.hardWord behind s = mcon.hardClients s :=
  if_pos hs

theorem slot_remain (hs : s < CtrDrvrInterruptSOURCES)
    (hcounter : (mcon.trigs i).counter.toNat = s) :
    mcon.othersRemain behind (mcon.trigs i).counter i c ↔
      mcon.OthersOn c s ∨ mcon.hardWord behind i &&& ~~~clientMask c ≠ 0 := by
  have hnot : (mcon.trigs i).counter ≠ -1 := by
    intro heq
    rw [heq] at hcounter
    unfold CtrDrvrInterruptSOURCES at hs
    have hall : (-1 : U32).toNat = 4294967295 := by decide
    omega
  have hsame : ∀ j, (mcon.trigs j).counter = (mcon.trigs i).counter ↔
      (mcon.trigs j).counter.toNat = s := by
    intro j
    rw [← hcounter]
    exact BitVec.toNat_inj.symm
  unfold ModuleContext.othersRemain ModuleContext.OthersOn
  rw [hcounter, hardWord_source hs]
  simp only [ne_eq, hnot, not_false_eq_true, true_and, List.mem_range, hsame]

theorem source_remain (hs : s < CtrDrvrInterruptSOURCES)
    (hlast : mcon.hardClients s &&& ~~~clientMask c = 0) :
    mcon.othersRemain behind (mcon.counterOf .HARD s) s c ↔
      s ≤ CtrDrvrCOUNTERS ∧ mcon.OthersOn c s := by
  unfold ModuleContext.othersRemain
  rw [hardWord_source hs, hlast]
  by_cases hcounter : s ≤ CtrDrvrCOUNTERS
  · have hcntr : mcon.counterOf .HARD s = BitVec.ofNat 32 s := by
      unfold ModuleContext.counterOf
      rw [if_neg (by simp), if_pos hcounter]
    have hnat : (BitVec.ofNat 32 s).toNat = s := by
      unfold CtrDrvrInterruptSOURCES at hs
      rw [BitVec.toNat_ofNat]
      omega
    have hnot : BitVec.ofNat 32 s ≠ (-1 : U32) := by
      intro heq
      have hall : (-1 : U32).toNat = 4294967295 := by decide
      rw [heq, hall] at hnat
      unfold CtrDrvrInterruptSOURCES at hs
      omega
    have hsame : ∀ j, (mcon.trigs j).counter = BitVec.ofNat 32 s ↔
        (mcon.trigs j).counter.toNat = s := by
      intro j
      rw [← BitVec.toNat_inj, hnat]
    unfold ModuleContext.OthersOn
    rw [hcntr, hnat, hardWord_source hs, hlast]
    simp only [ne_eq, hnot, not_false_eq_true, true_and, List.mem_range, hsame, hcounter,
      not_true_eq_false, or_false]
  · have hcntr : mcon.counterOf .HARD s = -1 := by
      unfold ModuleContext.counterOf
      rw [if_neg (by simp), if_neg hcounter]
    rw [hcntr]
    simp [hcounter]

structure HasLeft (mcon mcon' : ModuleContext) (behind : Behind) (slots : List Nat)
    (raw : Bool) (c : Nat) : Prop where
  trigs : mcon'.trigs = mcon.trigs
  clients : ∀ i < CtrDrvrRamTableSIZE, mcon'.clients i =
    if i ∈ slots then mcon.clients i &&& ~~~clientMask c else mcon.clients i
  hardClients : ∀ s < CtrDrvrInterruptSOURCES, mcon'.hardClients s =
    if raw then mcon.hardClients s &&& ~~~clientMask c else mcon.hardClients s
  register : mcon.InRegister → mcon'.InRegister
  enabled : ∀ s < CtrDrvrInterruptSOURCES, mcon'.Enabled s ↔ mcon.Enabled s ∧
    ¬ (∃ i ∈ slots, mcon.SlotDrops behind c i ∧ (mcon.trigs i).counter.toNat = s) ∧
    ¬ (raw = true ∧ mcon.SourceDrops behind c s)

theorem HasLeft.others (h : HasLeft mcon mcon' behind slots raw c)
    (hs : s < CtrDrvrInterruptSOURCES) (hclean : mcon.CleanOn behind slots raw c s)
    (hothers : mcon.OthersOn c s) :
    ¬ (∃ i ∈ slots, mcon.SlotDrops behind c i ∧ (mcon.trigs i).counter.toNat = s) ∧
      ¬ (raw = true ∧ mcon.SourceDrops behind c s) ∧ mcon.Needed s ∧ mcon'.Needed s := by
  have hzero : ∀ {w : U32}, w &&& ~~~clientMask c ≠ 0 → w ≠ 0 := by
    intro w hne hw
    rw [hw] at hne
    exact hne BitVec.zero_and
  refine ⟨?_, ?_, ?_, ?_⟩
  · intro ⟨i, _, hdrops, hcounter⟩
    exact hdrops.2.2 ((slot_remain hs hcounter).mpr (.inl hothers))
  · intro ⟨hraw, hne, hlast, hremain⟩
    rw [source_remain hs hlast] at hremain
    have hhigh : CtrDrvrCOUNTERS < s := Nat.lt_of_not_le fun hle => hremain ⟨hle, hothers⟩
    exact hclean.2 hothers hraw hhigh ((alone_iff hlast).mp hne) hlast
  · rcases hothers with hhard | ⟨i, hi, hcounter, hne⟩
    · exact .inl (hzero hhard)
    · exact .inr ⟨i, hi, hcounter, hzero hne⟩
  · rcases hothers with hhard | ⟨i, hi, hcounter, hne⟩
    · refine .inl ?_
      rw [h.hardClients s hs]
      split
      · exact hhard
      · exact hzero hhard
    · refine .inr ⟨i, hi, by rw [h.trigs]; exact hcounter, ?_⟩
      rw [h.clients i hi]
      split
      · exact hne
      · exact hzero hne

theorem HasLeft.alone (h : HasLeft mcon mcon' behind slots raw c)
    (htable : ∀ i ∈ slots, i < CtrDrvrRamTableSIZE) (hs : s < CtrDrvrInterruptSOURCES)
    (halone : ¬ mcon.OthersOn c s) :
    ((∃ i ∈ slots, mcon.SlotDrops behind c i ∧ (mcon.trigs i).counter.toNat = s) ∨
      (raw = true ∧ mcon.SourceDrops behind c s) ↔
        mcon.PlainOn behind slots raw c s) ∧
    (mcon.Needed s ↔ mcon.LeavesOn slots raw c s ∨ mcon.KeepsOn slots raw c s) ∧
    (mcon'.Needed s ↔ mcon.KeepsOn slots raw c s) := by
  have hhard : mcon.hardClients s &&& ~~~clientMask c = 0 :=
    Decidable.byContradiction fun hne => halone (.inl hne)
  have hslot : ∀ i < CtrDrvrRamTableSIZE, (mcon.trigs i).counter.toNat = s →
      mcon.clients i &&& ~~~clientMask c = 0 :=
    fun i hi hcounter => Decidable.byContradiction fun hne =>
      halone (.inr ⟨i, hi, hcounter, hne⟩)
  refine ⟨?_, ?_, ?_⟩
  · have hslots : (∃ i ∈ slots, mcon.SlotDrops behind c i ∧
        (mcon.trigs i).counter.toNat = s) ↔ ∃ i ∈ slots, mcon.OnSlot c s i ∧
          mcon.hardWord behind i &&& ~~~clientMask c = 0 := by
      refine exists_congr fun i => and_congr_right fun hi => ⟨?_, ?_⟩
      · intro ⟨⟨hmember, _, hremain⟩, hcounter⟩
        rw [slot_remain hs hcounter] at hremain
        exact ⟨⟨hcounter, hmember⟩,
          Decidable.byContradiction fun hne => hremain (.inr hne)⟩
      · intro ⟨⟨hcounter, hmember⟩, hword⟩
        refine ⟨⟨hmember, hslot i (htable i hi) hcounter, fun hremain => ?_⟩, hcounter⟩
        rcases (slot_remain hs hcounter).mp hremain with hothers | hne
        · exact halone hothers
        · exact hne hword
    have hsource : mcon.SourceDrops behind c s ↔ mcon.OnSource c s := by
      unfold ModuleContext.SourceDrops
      rw [source_remain hs hhard, alone_iff hhard]
      exact ⟨fun hdrops => hdrops.1,
        fun hmember => ⟨hmember, hhard, fun hremain => halone hremain.2⟩⟩
    unfold ModuleContext.PlainOn
    rw [hslots, hsource, or_comm]
  · unfold ModuleContext.Needed ModuleContext.LeavesOn ModuleContext.KeepsOn
    rw [alone_iff hhard]
    constructor
    · rintro (hsource | ⟨i, hi, hcounter, hne⟩)
      · cases hraw : raw with
        | true => exact .inl (.inl ⟨rfl, hsource⟩)
        | false => exact .inr (.inl ⟨rfl, hsource⟩)
      · have hon : mcon.OnSlot c s i :=
          ⟨hcounter, (alone_iff (hslot i hi hcounter)).mp hne⟩
        by_cases hmem : i ∈ slots
        · exact .inl (.inr ⟨i, hmem, hon⟩)
        · exact .inr (.inr ⟨i, hi, hmem, hon⟩)
    · rintro ((⟨_, hsource⟩ | ⟨i, hi, hon⟩) | (⟨_, hsource⟩ | ⟨i, hi, _, hon⟩))
      · exact .inl hsource
      · have hlt := htable i hi
        exact .inr ⟨i, hlt, hon.1, (alone_iff (hslot i hlt hon.1)).mpr hon.2⟩
      · exact .inl hsource
      · exact .inr ⟨i, hi, hon.1, (alone_iff (hslot i hi hon.1)).mpr hon.2⟩
  · unfold ModuleContext.Needed ModuleContext.KeepsOn
    rw [h.hardClients s hs, h.trigs]
    refine or_congr ?_ (exists_congr fun i => and_congr_right fun hi => ?_)
    · cases raw with
      | true => simp [hhard]
      | false => simpa [ModuleContext.OnSource] using alone_iff hhard
    · rw [h.clients i hi]
      constructor
      · intro ⟨hcounter, hne⟩
        by_cases hmem : i ∈ slots
        · rw [if_pos hmem] at hne
          exact absurd (hslot i hi hcounter) hne
        · rw [if_neg hmem] at hne
          exact ⟨hmem, hcounter, (alone_iff (hslot i hi hcounter)).mp hne⟩
      · intro ⟨hmem, hcounter, hmember⟩
        rw [if_neg hmem]
        exact ⟨hcounter, (alone_iff (hslot i hi hcounter)).mpr hmember⟩

theorem HasLeft.armed (h : HasLeft mcon mcon' behind slots raw c)
    (htable : ∀ i ∈ slots, i < CtrDrvrRamTableSIZE)
    (hclean : mcon.LeavesClean behind slots raw c) (harmed : mcon.Armed) :
    mcon'.Armed where
  register := h.register harmed.register
  enabled s hs := by
    rw [h.enabled s hs, harmed.enabled s hs]
    by_cases hothers : mcon.OthersOn c s
    · obtain ⟨hslots, hsource, hbefore, hafter⟩ := h.others hs (hclean s hs) hothers
      exact ⟨fun _ => hafter, fun _ => ⟨hbefore, hslots, hsource⟩⟩
    · obtain ⟨hdrops, hbefore, hafter⟩ := h.alone htable hs hothers
      rw [← not_or, hdrops, hbefore, hafter]
      by_cases hleaves : mcon.LeavesOn slots raw c s
      · rw [(hclean s hs).1 hothers hleaves, not_not]
        exact ⟨fun hand => hand.2, fun hkeeps => ⟨.inr hkeeps, hkeeps⟩⟩
      · have hplain : ¬ mcon.PlainOn behind slots raw c s := by
          rintro (hraw | ⟨i, hi, hon, _⟩)
          · exact hleaves (.inl hraw)
          · exact hleaves (.inr ⟨i, hi, hon⟩)
        exact ⟨fun hand => hand.1.resolve_left hleaves,
          fun hkeeps => ⟨.inr hkeeps, hplain⟩⟩

/-! ## The ways to leave -/

theorem disConnectSources_hasLeft :
    HasLeft mcon (mcon.disConnectSources behind c) behind [] true c := by
  obtain ⟨hhard, hothers, hclients, hregister, henabled⟩ := @sources_raw mcon behind c
  refine ⟨hothers.trigs, fun i _ => ?_, fun s hs => hhard s hs, hregister, fun s hs => ?_⟩
  · rw [hclients, if_neg List.not_mem_nil]
  · rw [henabled s hs]
    simp

theorem slots_hasLeft {clss : Nat → CtrDrvrConnectionClass}
    (hclss : ∀ i ∈ slots, clss i = .CTIM ∨ clss i = .PTIM)
    (htable : ∀ i ∈ slots, i < CtrDrvrRamTableSIZE) (hnodup : slots.Nodup)
    (hcounters : ∀ i ∈ slots, (mcon.trigs i).counter.toNat < 32) :
    HasLeft mcon (slots.foldl (fun m i => m.disConnectOne behind (clss i) c i) mcon)
      behind slots false c := by
  obtain ⟨hhard, hothers, hregister, henabled⟩ :=
    @slots_raw mcon behind c slots clss hclss htable hnodup
  refine ⟨hothers.trigs, fun i hi => ?_, fun s _ => congrFun hhard s, hregister,
    fun s hs => ?_⟩
  · have hsep : ∀ m : ModuleContext, ∀ i ∈ slots, Changes m
        (m.disConnectOne behind (clss i) c i) i (Slot.disConnect c) := by
      intro m i hi
      rcases hclss i hi with hkind | hkind
      · rw [hkind]
        exact disConnectSlot_slot (htable i hi)
      · rw [hkind]
        exact disConnectSlot_slot (htable i hi)
    have hslot := @foldl_slot mcon _ _ _ hsep hnodup i
    have hclients := congrArg Slot.clients hslot
    refine hclients.trans ?_
    split
    · exact disConnect_clients
    · rfl
  · rw [henabled hcounters s (Nat.lt_trans hs (by decide))]
    simp

theorem HasLeft.sources {mcon'' : ModuleContext}
    (h : HasLeft mcon mcon' behind slots false c)
    (hsame : SameOthers c mcon mcon') (h' : HasLeft mcon' mcon'' behind [] true c) :
    HasLeft mcon mcon'' behind slots true c where
  trigs := h'.trigs.trans h.trigs
  clients i hi := by
    rw [h'.clients i hi, if_neg List.not_mem_nil, h.clients i hi]
  hardClients s hs := by
    rw [h'.hardClients s hs, h.hardClients s hs]
    rfl
  register hregister := h'.register (h.register hregister)
  enabled s hs := by
    have hhard : mcon'.hardClients s = mcon.hardClients s := h.hardClients s hs
    have hdrops : mcon'.SourceDrops behind c s ↔ mcon.SourceDrops behind c s := by
      have hcntr : mcon'.counterOf .HARD s = mcon.counterOf .HARD s := rfl
      unfold ModuleContext.SourceDrops
      rw [hhard, hcntr, hsame.remain]
    rw [h'.enabled s hs, h.enabled s hs, hdrops]
    simp only [List.not_mem_nil, false_and, exists_false, not_false_eq_true, true_and,
      Bool.false_eq_true, and_true, and_assoc]

theorem disConnectModule_hasLeft
    (hnumbered : ∀ i < CtrDrvrRamTableSIZE, (mcon.slot i).Numbered)
    (hcounters : ∀ i < CtrDrvrRamTableSIZE, (mcon.trigs i).counter.toNat < 32) :
    HasLeft mcon (mcon.disConnectModule behind c) behind mcon.occupied true c := by
  have hclss : ∀ i ∈ mcon.occupied, mcon.eqpClass i = .CTIM ∨ mcon.eqpClass i = .PTIM :=
    fun i hi => occupied_kind hnumbered hi
  have htable : ∀ i ∈ mcon.occupied, i < CtrDrvrRamTableSIZE :=
    fun i hi => (mem_occupied.mp hi).1
  rw [disConnectModule_eq]
  have hslots := @slots_hasLeft mcon behind _ c _ hclss htable occupied_nodup
    fun i hi => hcounters i (htable i hi)
  exact hslots.sources (@slots_raw mcon behind c _ _ hclss htable occupied_nodup).2.1
    disConnectSources_hasLeft

theorem disConnect_hasLeft {conx : CtrDrvrConnection}
    (hnumbered : ∀ i < CtrDrvrRamTableSIZE, (mcon.slot i).Numbered)
    (hcounters : ∀ i < CtrDrvrRamTableSIZE, (mcon.trigs i).counter.toNat < 32)
    (hnum : conx.eqpNum ≠ 0) :
    HasLeft mcon (mcon.disConnect behind conx.eqpNum conx.eqpClass c) behind
      (mcon.matching conx.eqpNum conx.eqpClass) (conx.eqpClass = .HARD) c := by
  by_cases hkind : conx.eqpClass = .CTIM ∨ conx.eqpClass = .PTIM
  · have hclass : conx.eqpClass ≠ .HARD := by
      rcases hkind with hkind | hkind <;> rw [hkind] <;> decide
    unfold ModuleContext.disConnect
    rw [if_pos hclass, decide_eq_false hclass]
    exact slots_hasLeft (fun _ _ => hkind) (fun i hi => (mem_matching.mp hi).1)
      matching_nodup fun i hi => hcounters i (mem_matching.mp hi).1
  · have hnone := @matching_none mcon conx hnumbered hnum (fun heq => hkind (.inl heq))
      fun heq => hkind (.inr heq)
    unfold ModuleContext.disConnect
    rw [hnone]
    split
    · next hclass =>
      rw [decide_eq_false hclass]
      exact slots_hasLeft (fun i hi => absurd hi List.not_mem_nil)
        (fun i hi => absurd hi List.not_mem_nil) List.nodup_nil
        fun i hi => absurd hi List.not_mem_nil
    · next hclass =>
      rw [decide_eq_true (Decidable.not_not.mp hclass)]
      exact disConnectSources_hasLeft

/-! ## Connect -/

def Slot.Uses (s : Nat) (slot : Slot) : Prop :=
  slot.trig.counter.toNat = s ∧ slot.clients ≠ 0

theorem needed_iff : mcon.Needed s ↔ mcon.hardClients s ≠ 0 ∨
    ∃ i < CtrDrvrRamTableSIZE, (mcon.slot i).Uses s := Iff.rfl

theorem ModuleContext.Armed.connect {sources : Nat → Prop} (h : mcon.Armed)
    (hregister : mcon'.InRegister)
    (henabled : ∀ s < 32, mcon'.Enabled s ↔ mcon.Enabled s ∨ sources s)
    (hneeded : ∀ s < CtrDrvrInterruptSOURCES,
      mcon'.Needed s ↔ mcon.Needed s ∨ sources s) : mcon'.Armed where
  register := hregister
  enabled s hs := by
    rw [henabled s (Nat.lt_trans hs (by decide)), hneeded s hs, h.enabled s hs]

theorem connectPtim_armed {eqpNum : U32} (hc : c < CtrDrvrCLIENT_CONTEXTS)
    (harmed : mcon.Armed) (h : mcon.connectPtim eqpNum c = .ok mcon') : mcon'.Armed := by
  obtain ⟨hregister, hhard, henabled⟩ := connectPtim_raw h
  have hslot := @connectPtim_slot mcon mcon' eqpNum c h
  refine harmed.connect hregister henabled fun s hs => ?_
  rw [needed_iff, needed_iff, hhard]
  constructor
  · rintro (hsource | ⟨i, hi, huses⟩)
    · exact .inl (.inl hsource)
    · rw [hslot] at huses
      split at huses
      · next hmem => exact .inr ⟨i, hmem, huses.1⟩
      · exact .inl (.inr ⟨i, hi, huses⟩)
  · rintro ((hsource | ⟨i, hi, huses⟩) | ⟨i, hi, hcounter⟩)
    · exact .inl hsource
    · refine .inr ⟨i, hi, ?_⟩
      rw [hslot]
      split
      · exact ⟨huses.1, joins_ne hc⟩
      · exact huses
    · refine .inr ⟨i, (mem_matching.mp hi).1, ?_⟩
      rw [hslot, if_pos hi]
      exact ⟨hcounter, joins_ne hc⟩

theorem connectCtim_armed {eqpNum : U32} {ctim : List CtrDrvrCtimBinding}
    (hc : c < CtrDrvrCLIENT_CONTEXTS)
    (hnumbered : ∀ i < CtrDrvrRamTableSIZE, (mcon.slot i).Numbered)
    (harmed : mcon.Armed) (h : mcon.connectCtim ctim eqpNum c = .ok mcon') :
    mcon'.Armed := by
  obtain ⟨hregister, hhard, henabled⟩ := connectCtim_raw h
  obtain ⟨j, hj, hslot⟩ := connectCtim_slot h
  refine harmed.connect hregister henabled fun s hs => ?_
  -- The slot of the object has counter 0, and clients after the step.
  have hchange : ∃ f, Changes mcon mcon' j f ∧
      (∀ s, (mcon.slot j).Uses s → s = 0) ∧ (f (mcon.slot j)).Uses 0 := by
    rcases hslot with ⟨-, hclass, hchange⟩ | ⟨-, hempty, hchange⟩
    · have hzero : (mcon.slot j).trig.counter = 0 := (hnumbered j hj).counter hclass
      refine ⟨_, hchange, fun s huses => ?_, ?_, joins_ne hc⟩
      · rw [← huses.1, hzero]
        rfl
      · show ((mcon.slot j).trig.counter).toNat = 0
        rw [hzero]
        rfl
    · refine ⟨_, hchange, fun s huses => ?_, rfl, joins_ne hc⟩
      exact absurd ((hnumbered j hj).empty (emptySlot_eq_some hempty).2).2 huses.2
  obtain ⟨f, hchange, hbefore, hafter⟩ := hchange
  rw [needed_iff, needed_iff, hhard]
  constructor
  · rintro (hsource | ⟨i, hi, huses⟩)
    · exact .inl (.inl hsource)
    · rw [hchange i] at huses
      split at huses
      · next heq =>
        subst heq
        exact .inr (huses.1.symm.trans hafter.1)
      · exact .inl (.inr ⟨i, hi, huses⟩)
  · rintro ((hsource | ⟨i, hi, huses⟩) | hzero)
    · exact .inl hsource
    · refine .inr ⟨i, hi, ?_⟩
      rw [hchange i]
      split
      · next heq =>
        subst heq
        rw [hbefore s huses]
        exact hafter
      · exact huses
    · refine .inr ⟨j, hj, ?_⟩
      rw [hchange j, if_pos rfl, hzero]
      exact hafter

theorem connectHard_armed {eqpNum : U32} (hc : c < CtrDrvrCLIENT_CONTEXTS)
    (harmed : mcon.Armed) (h : mcon.connectHard eqpNum c = .ok mcon') : mcon'.Armed := by
  obtain ⟨hregister, -, hhard, henabled⟩ := connectHard_raw h
  have hslot := @connectHard_slot mcon mcon' eqpNum c h
  refine harmed.connect hregister henabled fun s hs => ?_
  rw [needed_iff, needed_iff, hhard]
  simp only [hslot]
  split
  · next hmem =>
    exact ⟨fun _ => .inr hmem, fun _ => .inl (joins_ne hc)⟩
  · next hmem =>
    exact ⟨.inl, fun h => h.resolve_right hmem⟩

end

end Coht.Ctr
