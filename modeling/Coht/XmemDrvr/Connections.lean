import Coht.XmemDrvr.Segments
import Coht.Lib.System
import Coht.Lib.Word

/-!
# Connecting clients to interrupts (`xmemDrvr.c`)

Each module has a mask of interrupts for each client, and one of the interrupts
that are enabled, which is written to `LIER`. `Connect()` adds to both.
`DisConnect()` takes the mask of its request from the client, and if none of
the clients is left with a bit of it, from the enabled interrupts; if one is,
it leaves all of them enabled.

`Follows` says that what is enabled is what some client is connected to.
`disConnect_follows_iff` is exact about one disconnection, and `Spares` is its
condition for a run.

The registers of the PLX chip, and the global enable in `LISR`, are left out.
-/

namespace Coht.XmemDrvr

open Coht.Lib

def XmemDrvrCLIENT_CONTEXTS : Nat := 16
def XmemDrvrMODULE_CONTEXTS : Nat := 2

def VmicLierMASK : U32 := 0xBFCF
def VmicLierINT1 : U32 := 0x0001
def VmicLierINT2 : U32 := 0x0002
def VmicLierINT3 : U32 := 0x0004
def VmicLierPENDING_INIT : U32 := 0x0080
def VmicLierPARITY_ERROR : U32 := 0x2000
def VmicLcsrPARITY_ON : U32 := 0x08000000

inductive VmicRfm
  | sid1 | isd1 | sid2 | isd2 | sid3 | isd3 | initn | initd | lcsr1 | lier
  deriving DecidableEq

structure XmemDrvrConnection where
  module : U32
  mask : U32

/-- The fields of `XmemDrvrModuleContext` that connections work on, and the
registers written so far, the last one first. -/
structure IntrContext where
  clients : Nat → U32 := fun _ => 0
  interruptEnable : U32 := 0
  command : U32 := 0
  writes : List (VmicRfm × U32) := []

structure ConnArea where
  modules : Nat
  moduleContexts : Nat → IntrContext := fun _ => {}
  /-- `ccon->ModuleIndex` -/
  moduleIndex : Nat → Nat := fun _ => 0

/-- The value last written to `LIER`. -/
def IntrContext.lier (mcon : IntrContext) : Option U32 :=
  (mcon.writes.find? fun w => w.1 = .lier).map Prod.snd

/-- An interrupt that is newly enabled has its sender and data cleared. -/
def clearPending (mcon : IntrContext) (msk bit : U32) (sid isd : VmicRfm)
    (writes : List (VmicRfm × U32)) : List (VmicRfm × U32) :=
  if msk &&& bit ≠ 0 ∧ mcon.interruptEnable &&& bit = 0 then
    (isd, 0) :: (sid, 0) :: writes
  else writes

/-- `EnableInterrupts()` -/
def enableInterrupts (msk : U32) (mcon : IntrContext) : IntrContext :=
  let msk := msk &&& VmicLierMASK
  let writes := clearPending mcon msk VmicLierINT1 .sid1 .isd1 mcon.writes
  let writes := clearPending mcon msk VmicLierINT2 .sid2 .isd2 writes
  let writes := clearPending mcon msk VmicLierINT3 .sid3 .isd3 writes
  let writes := clearPending mcon msk VmicLierPENDING_INIT .initn .initd writes
  let parity := msk &&& VmicLierPARITY_ERROR ≠ 0 ∧
    mcon.interruptEnable &&& VmicLierPARITY_ERROR = 0
  let command :=
    if parity then mcon.command ||| VmicLcsrPARITY_ON else mcon.command
  let writes := if parity then (.lcsr1, command) :: writes else writes
  if msk = 0 then { mcon with command := command, writes := writes }
  else
    { mcon with
      command := command
      interruptEnable := mcon.interruptEnable ||| msk
      writes := (.lier, mcon.interruptEnable ||| msk) :: writes }

/-- The module of a request, or the one that its client has selected. -/
def conxModule (cidx : Nat) (module : U32) (wa : ConnArea) : Nat :=
  if wa.modules ≤ (module - 1).toNat then wa.moduleIndex cidx
  else (module - 1).toNat

def ConnArea.context (midx : Nat) (f : IntrContext → IntrContext)
    (wa : ConnArea) : ConnArea :=
  { wa with moduleContexts :=
      Function.update wa.moduleContexts midx (f (wa.moduleContexts midx)) }

/-- What `Connect()` does to its module. -/
def connectOn (cidx : Nat) (mask : U32) (mcon : IntrContext) : IntrContext :=
  enableInterrupts mask { mcon with
    clients := Function.update mcon.clients cidx (mcon.clients cidx ||| mask) }

/-- What `DisConnect()` does to its module. -/
def disConnectOn (cidx : Nat) (mask : U32) (mcon : IntrContext) : IntrContext :=
  let clients := Function.update mcon.clients cidx (mcon.clients cidx &&& ~~~mask)
  let mcon := { mcon with clients := clients }
  if ∀ i < XmemDrvrCLIENT_CONTEXTS, mask &&& clients i = 0 then
    let msk := mask &&& VmicLierMASK
    if msk = 0 then mcon
    else
      { mcon with
        interruptEnable := mcon.interruptEnable &&& ~~~msk
        writes := (.lier, mcon.interruptEnable &&& ~~~msk) :: mcon.writes }
  else mcon

def connect (conx : XmemDrvrConnection) (cidx : Nat) (wa : ConnArea) : ConnArea :=
  wa.context (conxModule cidx conx.module wa) (connectOn cidx conx.mask)

def disConnect (conx : XmemDrvrConnection) (cidx : Nat) (wa : ConnArea) :
    ConnArea :=
  wa.context (conxModule cidx conx.module wa) (disConnectOn cidx conx.mask)

/-- The loop of `DisConnectAll()` over the first `n` modules. -/
def disConnectLoop (cidx : Nat) : Nat → ConnArea → ConnArea
  | 0, wa => wa
  | n + 1, wa =>
    let wa := disConnectLoop cidx n wa
    let mask := (wa.moduleContexts n).clients cidx
    if mask = 0 then wa
    else disConnect { module := BitVec.ofNat 32 (n + 1), mask := mask } cidx wa

def disConnectAll (cidx : Nat) (wa : ConnArea) : ConnArea :=
  disConnectLoop cidx wa.modules wa

inductive ConnEvent
  | connects (cidx : Nat) (conx : XmemDrvrConnection)
  /-- `XmemDrvrDISCONNECT` -/
  | disConnects (cidx : Nat) (conx : XmemDrvrConnection)
  | closes (cidx : Nat)
  /-- `XmemDrvrSET_MODULE` -/
  | selects (cidx : Nat) (lav : U32)

def ConnEvent.client : ConnEvent → Nat
  | .connects cidx _ | .disConnects cidx _ | .closes cidx | .selects cidx _ => cidx

def ConnArea.next (wa : ConnArea) : ConnEvent → ConnArea
  | .connects cidx conx => connect conx cidx wa
  | .disConnects cidx conx =>
    if conx.mask = 0 then disConnectAll cidx wa else disConnect conx cidx wa
  | .closes cidx =>
    let wa := disConnectAll cidx wa
    { wa with moduleIndex := Function.update wa.moduleIndex cidx 0 }
  | .selects cidx lav =>
    if 1 ≤ lav.toInt ∧ lav.toInt ≤ wa.modules then
      { wa with
        moduleIndex := Function.update wa.moduleIndex cidx (lav.toNat - 1) }
    else wa

/-- Nobody is connected and nothing enabled. -/
def connSystem : System ConnArea ConnEvent where
  init wa := wa.modules ≤ XmemDrvrMODULE_CONTEXTS ∧
    ∀ m, (wa.moduleContexts m).clients = (fun _ => 0) ∧
      (wa.moduleContexts m).interruptEnable = 0 ∧ (wa.moduleContexts m).writes = []
  step wa e wa' := e.client < XmemDrvrCLIENT_CONTEXTS ∧ wa' = wa.next e

/-! ## One module -/

/-- The hardware interrupts that are enabled are those that some client is
connected to, and this is what `LIER` was last given. -/
structure Follows (mcon : IntrContext) : Prop where
  enabled : ∀ b, VmicLierMASK.getLsbD b = true →
    (mcon.interruptEnable.getLsbD b = true ↔
      ∃ i < XmemDrvrCLIENT_CONTEXTS, (mcon.clients i).getLsbD b = true)
  lier : mcon.lier.getD 0 = mcon.interruptEnable

/-- The other clients have none of the interrupts of the mask, or all of those
of the hardware that the client gives up. -/
def Clean (cidx : Nat) (mask : U32) (mcon : IntrContext) : Prop :=
  (∀ i < XmemDrvrCLIENT_CONTEXTS, i ≠ cidx → mask &&& mcon.clients i = 0) ∨
  ∀ b, VmicLierMASK.getLsbD b = true → mask.getLsbD b = true →
    (mcon.clients cidx).getLsbD b = true →
    ∃ i < XmemDrvrCLIENT_CONTEXTS, i ≠ cidx ∧ (mcon.clients i).getLsbD b = true

section Module

variable {cidx : Nat} {mask msk : U32} {mcon : IntrContext}

theorem clearPending_lier {bit : U32} {sid isd : VmicRfm}
    {writes : List (VmicRfm × U32)} (hsid : sid ≠ .lier) (hisd : isd ≠ .lier) :
    (clearPending mcon msk bit sid isd writes).find? (fun w => w.1 = .lier) =
      writes.find? fun w => w.1 = .lier := by
  unfold clearPending
  split
  · rw [List.find?_cons_of_neg (by simpa using hisd),
      List.find?_cons_of_neg (by simpa using hsid)]
  · rfl

theorem enableInterrupts_clients :
    (enableInterrupts msk mcon).clients = mcon.clients := by
  unfold enableInterrupts
  dsimp only
  split <;> rfl

theorem enableInterrupts_enable : (enableInterrupts msk mcon).interruptEnable =
    mcon.interruptEnable ||| msk &&& VmicLierMASK := by
  unfold enableInterrupts
  dsimp only
  split
  · next hzero =>
    rw [hzero]
    exact BitVec.or_zero.symm
  · rfl

theorem enableInterrupts_lier : (enableInterrupts msk mcon).lier =
    if msk &&& VmicLierMASK = 0 then mcon.lier
    else some (mcon.interruptEnable ||| msk &&& VmicLierMASK) := by
  unfold enableInterrupts IntrContext.lier
  dsimp only
  split
  · next hzero =>
    -- without a hardware interrupt there is no parity interrupt either
    have hparity : ¬ (msk &&& VmicLierMASK &&& VmicLierPARITY_ERROR ≠ 0 ∧
        mcon.interruptEnable &&& VmicLierPARITY_ERROR = 0) :=
      fun h => h.1 (by rw [hzero]; rfl)
    rw [if_neg hparity, if_neg hparity]
    congr 1
    dsimp only
    rw [clearPending_lier (by decide) (by decide),
      clearPending_lier (by decide) (by decide),
      clearPending_lier (by decide) (by decide),
      clearPending_lier (by decide) (by decide)]
  · rfl

theorem joined_bit {i b : Nat} : (Function.update mcon.clients cidx
      (mcon.clients cidx ||| mask) i).getLsbD b = true ↔
    (mcon.clients i).getLsbD b = true ∨ i = cidx ∧ mask.getLsbD b = true := by
  by_cases hic : i = cidx
  · subst hic
    rw [Function.update_self, BitVec.getLsbD_or, Bool.or_eq_true]
    exact or_congr_right ⟨fun h => ⟨rfl, h⟩, fun h => h.2⟩
  · rw [Function.update_of_ne hic]
    exact ⟨.inl, fun h => h.resolve_right fun hr => hic hr.1⟩

theorem connectOn_follows (h : Follows mcon)
    (hc : cidx < XmemDrvrCLIENT_CONTEXTS) : Follows (connectOn cidx mask mcon) := by
  unfold connectOn
  refine ⟨fun b hb => ?_, ?_⟩
  · rw [enableInterrupts_enable, enableInterrupts_clients, BitVec.getLsbD_or,
      BitVec.getLsbD_and, hb, Bool.and_true, Bool.or_eq_true, h.enabled b hb]
    constructor
    · rintro (⟨i, hi, hset⟩ | hset)
      · exact ⟨i, hi, joined_bit.mpr (.inl hset)⟩
      · exact ⟨cidx, hc, joined_bit.mpr (.inr ⟨rfl, hset⟩)⟩
    · rintro ⟨i, hi, hjoined⟩
      exact (joined_bit.mp hjoined).imp (fun hset => ⟨i, hi, hset⟩) And.right
  · rw [enableInterrupts_lier, enableInterrupts_enable]
    split
    · next hzero =>
      rw [hzero]
      exact h.lier.trans BitVec.or_zero.symm
    · rfl

theorem left_bit {i b : Nat} : (Function.update mcon.clients cidx
      (mcon.clients cidx &&& ~~~mask) i).getLsbD b = true ↔
    (mcon.clients i).getLsbD b = true ∧ (i = cidx → mask.getLsbD b = false) := by
  by_cases hic : i = cidx
  · subst hic
    rw [Function.update_self, BitVec.getLsbD_and, BitVec.getLsbD_not,
      Bool.and_eq_true, Bool.and_eq_true, Bool.not_eq_true', decide_eq_true_iff]
    exact ⟨fun h => ⟨h.1, fun _ => h.2.2⟩,
      fun h => ⟨h.1, BitVec.lt_of_getLsbD h.1, h.2 rfl⟩⟩
  · rw [Function.update_of_ne hic]
    exact ⟨fun h => ⟨h, fun hi => absurd hi hic⟩, fun h => h.1⟩

theorem left_none_iff : (∀ i < XmemDrvrCLIENT_CONTEXTS, mask &&&
      Function.update mcon.clients cidx (mcon.clients cidx &&& ~~~mask) i = 0) ↔
    ∀ i < XmemDrvrCLIENT_CONTEXTS, i ≠ cidx → mask &&& mcon.clients i = 0 := by
  refine forall_congr' fun i => imp_congr_right fun _ => ?_
  by_cases hic : i = cidx
  · subst hic
    refine iff_of_true ?_ fun hne => absurd rfl hne
    rw [and_eq_zero_iff]
    intro b hset
    refine Bool.eq_false_iff.mpr fun hleft => ?_
    have hclear := (left_bit.mp hleft).2 rfl
    rw [hset] at hclear
    cases hclear
  · rw [Function.update_of_ne hic]
    exact ⟨fun h _ => h, fun h => h hic⟩

theorem disConnectOn_clients : (disConnectOn cidx mask mcon).clients =
    Function.update mcon.clients cidx (mcon.clients cidx &&& ~~~mask) := by
  unfold disConnectOn
  dsimp only
  split
  · split <;> rfl
  · rfl

theorem disConnectOn_alone (h : ∀ i < XmemDrvrCLIENT_CONTEXTS, i ≠ cidx →
      mask &&& mcon.clients i = 0) :
    (disConnectOn cidx mask mcon).interruptEnable =
        mcon.interruptEnable &&& ~~~(mask &&& VmicLierMASK) ∧
      (disConnectOn cidx mask mcon).lier =
        if mask &&& VmicLierMASK = 0 then mcon.lier
        else some (mcon.interruptEnable &&& ~~~(mask &&& VmicLierMASK)) := by
  unfold disConnectOn
  dsimp only
  rw [if_pos (left_none_iff.mpr h)]
  split
  · next hzero =>
    rw [hzero]
    exact ⟨BitVec.and_allOnes.symm, rfl⟩
  · exact ⟨rfl, rfl⟩

theorem disConnectOn_kept (h : ¬ ∀ i < XmemDrvrCLIENT_CONTEXTS, i ≠ cidx →
      mask &&& mcon.clients i = 0) :
    (disConnectOn cidx mask mcon).interruptEnable = mcon.interruptEnable ∧
      (disConnectOn cidx mask mcon).lier = mcon.lier := by
  unfold disConnectOn
  dsimp only
  rw [if_neg (mt left_none_iff.mp h)]
  exact ⟨rfl, rfl⟩

theorem disConnectOn_follows_iff (h : Follows mcon)
    (hc : cidx < XmemDrvrCLIENT_CONTEXTS) :
    Follows (disConnectOn cidx mask mcon) ↔ Clean cidx mask mcon := by
  by_cases halone : ∀ i < XmemDrvrCLIENT_CONTEXTS, i ≠ cidx →
      mask &&& mcon.clients i = 0
  · obtain ⟨henable, hlier⟩ := disConnectOn_alone halone
    refine iff_of_true ⟨fun b hb => ?_, ?_⟩ (.inl halone)
    · rw [henable, disConnectOn_clients, BitVec.getLsbD_and, BitVec.getLsbD_not,
        BitVec.getLsbD_and, hb, Bool.and_true, Bool.and_eq_true, h.enabled b hb,
        Bool.and_eq_true, Bool.not_eq_true']
      constructor
      · rintro ⟨⟨i, hi, hset⟩, -, hclear⟩
        exact ⟨i, hi, left_bit.mpr ⟨hset, fun _ => hclear⟩⟩
      · rintro ⟨i, hi, hleft⟩
        obtain ⟨hset, hown⟩ := left_bit.mp hleft
        refine ⟨⟨i, hi, hset⟩, decide_eq_true (BitVec.lt_of_getLsbD hset), ?_⟩
        by_cases hic : i = cidx
        · exact hown hic
        · refine Bool.eq_false_iff.mpr fun hmask => ?_
          have hclear := and_eq_zero_iff.mp (halone i hi hic) b hmask
          rw [hset] at hclear
          cases hclear
    · rw [hlier, henable]
      split
      · next hzero =>
        rw [hzero]
        exact h.lier.trans BitVec.and_allOnes.symm
      · rfl
  · obtain ⟨henable, hlier⟩ := disConnectOn_kept halone
    constructor
    · -- what is enabled has not changed, so each bit has another client
      refine fun hafter => .inr fun b hb hmask hset => ?_
      have hon := (h.enabled b hb).mpr ⟨cidx, hc, hset⟩
      rw [← henable, hafter.enabled b hb, disConnectOn_clients] at hon
      obtain ⟨i, hi, hleft⟩ := hon
      obtain ⟨hother, hown⟩ := left_bit.mp hleft
      refine ⟨i, hi, fun hic => ?_, hother⟩
      rw [hown hic] at hmask
      cases hmask
    · intro hclean
      have hshared := hclean.resolve_left halone
      refine ⟨fun b hb => ?_, ?_⟩
      · rw [henable, disConnectOn_clients, h.enabled b hb]
        constructor
        · rintro ⟨i, hi, hset⟩
          by_cases hic : i = cidx
          · subst hic
            cases hmask : mask.getLsbD b with
            | false => exact ⟨i, hi, left_bit.mpr ⟨hset, fun _ => hmask⟩⟩
            | true =>
              obtain ⟨j, hj, hne, hother⟩ := hshared b hb hmask hset
              exact ⟨j, hj, left_bit.mpr ⟨hother, fun hjc => absurd hjc hne⟩⟩
          · exact ⟨i, hi, left_bit.mpr ⟨hset, fun hi => absurd hi hic⟩⟩
        · rintro ⟨i, hi, hleft⟩
          exact ⟨i, hi, (left_bit.mp hleft).1⟩
      · rw [hlier, henable]
        exact h.lier

end Module

/-! ## Runs -/

/-- The client can leave each module cleanly. -/
def SparesAll (cidx : Nat) (wa : ConnArea) : Prop :=
  ∀ m < wa.modules,
    Clean cidx ((wa.moduleContexts m).clients cidx) (wa.moduleContexts m)

/-- What is given up is given up cleanly. -/
def Spares (wa : ConnArea) : ConnEvent → Prop
  | .disConnects cidx conx =>
    if conx.mask = 0 then SparesAll cidx wa
    else Clean cidx conx.mask
      (wa.moduleContexts (conxModule cidx conx.module wa))
  | .closes cidx => SparesAll cidx wa
  | .connects .. | .selects .. => True

section Runs

variable {cidx m n : Nat} {wa wa' : ConnArea} {e : ConnEvent}
  {f : IntrContext → IntrContext}

theorem context_follows (h : ∀ m, Follows (wa.moduleContexts m))
    (hf : Follows (f (wa.moduleContexts n))) (m : Nat) :
    Follows ((wa.context n f).moduleContexts m) := by
  unfold ConnArea.context
  dsimp only
  by_cases hm : m = n
  · subst hm
    rw [Function.update_self]
    exact hf
  · rw [Function.update_of_ne hm]
    exact h m

def leaveAll (cidx : Nat) (mcon : IntrContext) : IntrContext :=
  if mcon.clients cidx = 0 then mcon
  else disConnectOn cidx (mcon.clients cidx) mcon

theorem conxModule_succ (hn : n < wa.modules)
    (hmod : wa.modules ≤ XmemDrvrMODULE_CONTEXTS) :
    conxModule cidx (BitVec.ofNat 32 (n + 1)) wa = n := by
  have hsub : (BitVec.ofNat 32 (n + 1) - 1 : U32).toNat = n := by
    unfold XmemDrvrMODULE_CONTEXTS at hmod
    rw [BitVec.toNat_sub, BitVec.toNat_ofNat]
    show (2 ^ 32 - 1 + (n + 1) % 2 ^ 32) % 2 ^ 32 = n
    omega
  unfold conxModule
  rw [hsub, if_neg (Nat.not_le.mpr hn)]

theorem disConnectLoop_contexts (hmod : wa.modules ≤ XmemDrvrMODULE_CONTEXTS)
    (hn : n ≤ wa.modules) :
    (disConnectLoop cidx n wa).modules = wa.modules ∧
    ∀ m, (disConnectLoop cidx n wa).moduleContexts m =
      if m < n then leaveAll cidx (wa.moduleContexts m)
      else wa.moduleContexts m := by
  induction n with
  | zero => exact ⟨rfl, fun m => (if_neg (Nat.not_lt_zero m)).symm⟩
  | succ n ih =>
    obtain ⟨hmodules, hcontexts⟩ := ih (Nat.le_of_succ_le hn)
    have hnow : (disConnectLoop cidx n wa).moduleContexts n =
        wa.moduleContexts n := by
      rw [hcontexts, if_neg (Nat.lt_irrefl n)]
    have hmidx : conxModule cidx (BitVec.ofNat 32 (n + 1))
        (disConnectLoop cidx n wa) = n :=
      conxModule_succ (hmodules ▸ hn) (hmodules ▸ hmod)
    rw [disConnectLoop, hnow]
    by_cases hmask : (wa.moduleContexts n).clients cidx = 0
    · rw [if_pos hmask]
      refine ⟨hmodules, fun m => (hcontexts m).trans ?_⟩
      by_cases hm : m = n
      · subst hm
        rw [if_neg (Nat.lt_irrefl m), if_pos (Nat.lt_succ_self m), leaveAll,
          if_pos hmask]
      · exact if_congr (by omega) rfl rfl
    · rw [if_neg hmask]
      refine ⟨hmodules, fun m => ?_⟩
      unfold disConnect ConnArea.context
      dsimp only
      rw [hmidx, hnow]
      by_cases hm : m = n
      · subst hm
        rw [Function.update_self, if_pos (Nat.lt_succ_self m), leaveAll,
          if_neg hmask]
      · rw [Function.update_of_ne hm, hcontexts]
        exact if_congr (by omega) rfl rfl

theorem disConnectAll_follows (hmod : wa.modules ≤ XmemDrvrMODULE_CONTEXTS)
    (h : ∀ m, Follows (wa.moduleContexts m)) (hc : cidx < XmemDrvrCLIENT_CONTEXTS)
    (hspares : SparesAll cidx wa) (m : Nat) :
    Follows ((disConnectAll cidx wa).moduleContexts m) := by
  unfold disConnectAll
  rw [(disConnectLoop_contexts hmod (Nat.le_refl _)).2]
  split
  · next hm =>
    unfold leaveAll
    split
    · exact h m
    · exact (disConnectOn_follows_iff (h m) hc).mpr (hspares m hm)
  · exact h m

structure AllFollow (wa : ConnArea) : Prop where
  modules : wa.modules ≤ XmemDrvrMODULE_CONTEXTS
  follows : ∀ m, Follows (wa.moduleContexts m)

theorem AllFollow.step (h : AllFollow wa) (hc : e.client < XmemDrvrCLIENT_CONTEXTS)
    (hspares : Spares wa e) : AllFollow (wa.next e) := by
  have hall : ∀ cidx < XmemDrvrCLIENT_CONTEXTS, SparesAll cidx wa →
      AllFollow (disConnectAll cidx wa) := fun cidx hc hspares =>
    ⟨Nat.le_trans
        (Nat.le_of_eq (disConnectLoop_contexts h.modules (Nat.le_refl _)).1)
        h.modules,
      disConnectAll_follows h.modules h.follows hc hspares⟩
  cases e with
  | connects cidx conx =>
    exact ⟨h.modules,
      context_follows h.follows (connectOn_follows (h.follows _) hc)⟩
  | disConnects cidx conx =>
    dsimp only [Spares] at hspares
    dsimp only [ConnArea.next]
    split at hspares
    · next hmask =>
      rw [if_pos hmask]
      exact hall cidx hc hspares
    · next hmask =>
      rw [if_neg hmask]
      exact ⟨h.modules, context_follows h.follows
        ((disConnectOn_follows_iff (h.follows _) hc).mpr hspares)⟩
  | closes cidx =>
    obtain ⟨hmodules, hfollows⟩ := hall cidx hc hspares
    exact ⟨hmodules, hfollows⟩
  | selects cidx lav =>
    dsimp only [ConnArea.next]
    split
    · exact ⟨h.modules, h.follows⟩
    · exact h

theorem connSystem_invariant :
    (connSystem.guarded Spares).Invariant AllFollow where
  init {wa} hinit := by
    obtain ⟨hmodules, hempty⟩ := hinit
    refine ⟨hmodules, fun m => ?_⟩
    obtain ⟨hclients, henable, hwrites⟩ := hempty m
    refine ⟨fun b _ => ?_, ?_⟩
    · rw [hclients, henable]
      refine iff_of_false (by simp) ?_
      rintro ⟨i, -, hset⟩
      simp at hset
    · unfold IntrContext.lier
      rw [hwrites, henable]
      rfl
  step h hstep := by
    obtain ⟨hspares, hc, rfl⟩ := hstep
    exact h.step hc hspares

/-- In every run whose disconnections are clean, the enabled interrupts of each
module are those that its clients are connected to. -/
theorem enables_follow (hs : (connSystem.guarded Spares).Reachable wa) (m : Nat) :
    Follows (wa.moduleContexts m) :=
  (connSystem_invariant.reachable hs).follows m

end Runs

/-! ## Two clients of one module -/

def oneModule : ConnArea := { modules := 1 }

/-- The first client is connected to two interrupts, the second to one of
them. -/
def sharing : ConnArea :=
  (oneModule.next (.connects 0 ⟨1, 3⟩)).next (.connects 1 ⟨1, 2⟩)

/-- The first client leaves only the interrupt that they share. -/
theorem enables_follow_shared :
    Follows ((sharing.next (.disConnects 0 ⟨1, 2⟩)).moduleContexts 0) := by
  have hinit : (connSystem.guarded Spares).Reachable oneModule :=
    .init ⟨by decide, fun _ => ⟨rfl, rfl, rfl⟩⟩
  have hfirst := hinit.step (e := ConnEvent.connects 0 ⟨1, 3⟩)
    ⟨trivial, by decide, rfl⟩
  have hboth := hfirst.step (e := ConnEvent.connects 1 ⟨1, 2⟩)
    ⟨trivial, by decide, rfl⟩
  have hclean : Spares sharing (.disConnects 0 ⟨1, 2⟩) := by
    refine .inr fun b _ hmask _ => ⟨1, by decide, by decide, ?_⟩
    exact hmask
  exact enables_follow (hboth.step ⟨hclean, by decide, rfl⟩) 0

/-- It leaves both, and the one that nobody else has stays enabled. -/
theorem not_enables_follow : ¬ ∀ wa, connSystem.Reachable wa →
    ∀ m, Follows (wa.moduleContexts m) := by
  intro hall
  have hinit : connSystem.Reachable oneModule :=
    .init ⟨by decide, fun _ => ⟨rfl, rfl, rfl⟩⟩
  have hfirst := hinit.step (e := ConnEvent.connects 0 ⟨1, 3⟩) ⟨by decide, rfl⟩
  have hboth := hfirst.step (e := ConnEvent.connects 1 ⟨1, 2⟩) ⟨by decide, rfl⟩
  have hleft := hboth.step (e := ConnEvent.disConnects 0 ⟨1, 3⟩) ⟨by decide, rfl⟩
  have hused := ((hall _ hleft 0).enabled 0 (by decide)).mp (by decide)
  exact absurd hused (by decide)

end Coht.XmemDrvr
