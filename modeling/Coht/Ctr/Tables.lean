import Coht.Ctr.Steps
import Coht.Lib.Visits

/-!
# What leaves the tables of a module alone

Writing to a module changes its memory and nothing in its context. So the time
can be latched, and the commands that control the module can be given, without
any effect on the tables of triggers, configurations, objects and clients.
-/

namespace Coht.Ctr

open Coht.Lib

structure SameTables (mcon mcon' : ModuleContext) : Prop where
  configs : mcon'.configs = mcon.configs
  clients : mcon'.clients = mcon.clients
  trigs : mcon'.trigs = mcon.trigs
  eqpNum : mcon'.eqpNum = mcon.eqpNum
  eqpClass : mcon'.eqpClass = mcon.eqpClass
  hardClients : mcon'.hardClients = mcon.hardClients
  interruptEnable : mcon'.interruptEnable = mcon.interruptEnable
  inUse : mcon'.inUse = mcon.inUse

/-- The word is written by a command that controls the module: it is before the
triggers or behind the configurations. -/
def ControlWord (word : Nat) : Prop :=
  mapInterruptEnable < word ∧ word < mapTrigs 0 ∨ word = mapSetup

/-- The tables are as before, in the memory of the module too, and nothing but
the enabled interrupts has been written to their register. -/
structure Quiet (mcon mcon' : ModuleContext) : Prop extends SameTables mcon mcon' where
  words : ∀ w, w ≠ mapInterruptEnable → ¬ ControlWord w → mcon'.map w = mcon.map w
  register : mcon'.map mapInterruptEnable = mcon.map mapInterruptEnable ∨
    mcon'.map mapInterruptEnable = mcon.interruptEnable

section

variable {mcon mcon' mcon'' : ModuleContext} {word : Nat}

theorem SameTables.refl (mcon : ModuleContext) : SameTables mcon mcon :=
  ⟨rfl, rfl, rfl, rfl, rfl, rfl, rfl, rfl⟩

theorem SameTables.trans (h : SameTables mcon mcon') (h' : SameTables mcon' mcon'') :
    SameTables mcon mcon'' where
  configs := h'.configs.trans h.configs
  clients := h'.clients.trans h.clients
  trigs := h'.trigs.trans h.trigs
  eqpNum := h'.eqpNum.trans h.eqpNum
  eqpClass := h'.eqpClass.trans h.eqpClass
  hardClients := h'.hardClients.trans h.hardClients
  interruptEnable := h'.interruptEnable.trans h.interruptEnable
  inUse := h'.inUse.trans h.inUse

theorem hWr_sameTables (mcon : ModuleContext) (v : U32) (word : Nat) :
    SameTables mcon (mcon.hWr v word) :=
  ⟨rfl, rfl, rfl, rfl, rfl, rfl, rfl, rfl⟩

theorem io32Write_sameTables (word : Nat) (vs : List U32) (mcon : ModuleContext) :
    SameTables mcon (mcon.io32Write word vs) := by
  induction vs generalizing word mcon with
  | nil => exact .refl mcon
  | cons v vs ih => exact (hWr_sameTables mcon v word).trans (ih _ _)

theorem writeTrig_sameTables (mcon : ModuleContext) (i : Nat) (strg : CtrDrvrTrigger) :
    SameTables mcon (mcon.writeTrig i strg) :=
  io32Write_sameTables _ _ _

theorem writeConfig_sameTables (mcon : ModuleContext) (i : Nat)
    (scnf : CtrDrvrCounterConfiguration) : SameTables mcon (mcon.writeConfig i scnf) :=
  io32Write_sameTables _ _ _

/-! ## Writes of the control functions -/

theorem SameTables.quiet (h : SameTables mcon mcon') (hmap : mcon'.map = mcon.map) :
    Quiet mcon mcon' :=
  ⟨h, fun w _ _ => congrFun hmap w, .inl (congrFun hmap _)⟩

theorem Quiet.refl (mcon : ModuleContext) : Quiet mcon mcon :=
  (SameTables.refl mcon).quiet rfl

theorem Quiet.trans (h : Quiet mcon mcon') (h' : Quiet mcon' mcon'') :
    Quiet mcon mcon'' where
  toSameTables := h.toSameTables.trans h'.toSameTables
  words w hne hw := (h'.words w hne hw).trans (h.words w hne hw)
  register := by
    rcases h'.register with hsame | henabled
    · rw [hsame]
      exact h.register
    · rw [henabled, h.interruptEnable]
      exact .inr rfl

theorem hWr_quiet (mcon : ModuleContext) (v : U32) (hword : ControlWord word) :
    Quiet mcon (mcon.hWr v word) where
  toSameTables := hWr_sameTables mcon v word
  words w _ hw := by
    refine Function.update_of_ne (fun heq => hw ?_) _ _
    rw [heq]
    exact hword
  register := by
    refine .inl (Function.update_of_ne ?_ _ _)
    unfold ControlWord mapSetup at hword
    unfold mapInterruptEnable at hword ⊢
    omega

theorem io32Write_quiet (vs : List U32) (mcon : ModuleContext)
    (hlow : mapInterruptEnable < word) (hhigh : word + vs.length ≤ mapTrigs 0) :
    Quiet mcon (mcon.io32Write word vs) := by
  induction vs generalizing word mcon with
  | nil => exact .refl mcon
  | cons v vs ih =>
    rw [List.length_cons] at hhigh
    have hfirst := hWr_quiet mcon v (.inl ⟨hlow, by omega⟩)
    exact hfirst.trans (ih _ (by omega) (by omega))

theorem foldl_quiet {α : Type} {f : ModuleContext → α → ModuleContext} {l : List α}
    (h : ∀ mcon, ∀ a ∈ l, Quiet mcon (f mcon a)) (mcon : ModuleContext) :
    Quiet mcon (l.foldl f mcon) := by
  induction l generalizing mcon with
  | nil => exact .refl mcon
  | cons a l ih =>
    exact (h mcon a List.mem_cons_self).trans
      (ih (fun mcon b hb => h mcon b (List.mem_cons_of_mem _ hb)) _)

theorem controlWord_command : ControlWord mapCommand := by
  unfold ControlWord
  decide

theorem writeCommand_quiet (mcon : ModuleContext) (command : U32) :
    Quiet mcon (mcon.writeCommand command) := by
  have hset : Quiet mcon { mcon with command := command } :=
    SameTables.quiet ⟨rfl, rfl, rfl, rfl, rfl, rfl, rfl, rfl⟩ rfl
  exact hset.trans (hWr_quiet _ _ controlWord_command)

theorem Latched.quiet (h : Latched mcon mcon') : Quiet mcon mcon' := by
  induction h with
  | none => exact .refl mcon
  | once _ ih => exact ih.trans (hWr_quiet _ _ controlWord_command)

theorem hptdcJtag_quiet (mcon : ModuleContext) (v : U32) :
    Quiet mcon (mcon.hWr v mapHptdcJtag) :=
  hWr_quiet mcon v (by unfold ControlWord; decide)

theorem hptdcBitTransfer_quiet (mcon : ModuleContext) (tdi tms : U32) :
    Quiet mcon (mcon.hptdcBitTransfer tdi tms) :=
  ((hptdcJtag_quiet mcon _).trans (hptdcJtag_quiet _ _)).trans (hptdcJtag_quiet _ _)

theorem hptdcStateReset_quiet (mcon : ModuleContext) :
    Quiet mcon mcon.hptdcStateReset := by
  unfold ModuleContext.hptdcStateReset
  refine .trans ?_ (hptdcBitTransfer_quiet _ _ _)
  exact foldl_quiet (fun mcon jwd _ => hptdcJtag_quiet mcon jwd) mcon

theorem hptdcTransfers_quiet (l : List (U32 × U32)) (mcon : ModuleContext) :
    Quiet mcon (l.foldl (fun mcon t => mcon.hptdcBitTransfer t.1 t.2) mcon) := by
  induction l generalizing mcon with
  | nil => exact .refl mcon
  | cons t l ih => exact (hptdcBitTransfer_quiet mcon t.1 t.2).trans (ih _)

theorem hptdcCommand_quiet (mcon : ModuleContext) (hpio : CtrDrvrHptdcIoBuf) :
    Quiet mcon (mcon.hptdcCommand hpio) := by
  unfold ModuleContext.hptdcCommand
  dsimp only
  refine .trans ?_ (hptdcTransfers_quiet _ _)
  split
  · exact hptdcStateReset_quiet mcon
  · exact .refl mcon

theorem controlWord_counter {counter : Nat} (h : counter ≤ 8) :
    ControlWord (mapLockConfig counter) ∧ ControlWord (mapRemOutMask counter) := by
  unfold ControlWord mapLockConfig mapRemOutMask mapCounters mapInterruptEnable mapTrigs
  omega

theorem resetOutMask_quiet (mcon : ModuleContext) {counter : Nat} (h : counter ≤ 8) :
    Quiet mcon (mcon.resetOutMask counter) := by
  unfold ModuleContext.resetOutMask
  split
  · exact hWr_quiet _ _ (controlWord_counter h).2
  · exact .refl mcon

theorem enableInterrupts_quiet {msk : U32}
    (h : mcon.interruptEnable ||| msk = mcon.interruptEnable) :
    Quiet mcon (mcon.enableInterrupts msk) where
  toSameTables := ⟨rfl, rfl, rfl, rfl, rfl, rfl, h, rfl⟩
  words w hne _ := Function.update_of_ne hne _ _
  register := by
    refine .inr ?_
    show Function.update mcon.map mapInterruptEnable _ mapInterruptEnable = _
    rw [Function.update_self]
    exact h

theorem defaultPll_quiet (mcon : ModuleContext) : Quiet mcon mcon.defaultPll := by
  unfold ModuleContext.defaultPll
  split
  · exact SameTables.quiet ⟨rfl, rfl, rfl, rfl, rfl, rfl, rfl, rfl⟩ rfl
  · exact .refl mcon

theorem writePll_quiet (mcon : ModuleContext) : Quiet mcon mcon.writePll :=
  io32Write_quiet _ _ (by decide) (by show 9 + 8 ≤ 389 + 2 * 0; omega)

theorem writeOutputByte_quiet (mcon : ModuleContext) :
    Quiet mcon mcon.writeOutputByte :=
  hWr_quiet _ _ (by unfold ControlWord; decide)

theorem reset_quiet (mcon : ModuleContext) : Quiet mcon mcon.reset := by
  unfold ModuleContext.reset
  dsimp only
  refine .trans ?_ (hptdcStateReset_quiet _)
  refine .trans ?_ (enableInterrupts_quiet BitVec.or_self)
  refine .trans ?_ (writePll_quiet _)
  refine .trans ?_ (defaultPll_quiet _)
  refine .trans ?_ (hWr_quiet _ _ (.inr rfl))
  refine .trans ?_ (writeOutputByte_quiet _)
  refine .trans ?_ (foldl_quiet (fun mcon i hi => resetOutMask_quiet mcon ?_) _)
  · exact (hWr_quiet _ _ controlWord_command).trans (writeCommand_quiet _ _)
  · have hrange := (List.mem_range'_1.mp hi).2
    omega

theorem onCounter_ok {counter : Nat}
    (h : ModuleContext.onCounter counter mcon = .ok mcon') :
    mcon' = mcon ∧ counter ≤ 8 := by
  unfold ModuleContext.onCounter at h
  split at h
  · next hrange =>
    cases h
    exact ⟨rfl, hrange.2⟩
  · cases h

theorem control_quiet {cmd : Control} (h : mcon.control cmd = .ok mcon')
    (hraw : ∀ offset data, cmd ≠ .rawWrite offset data) : Quiet mcon mcon' := by
  cases cmd with
  | reset =>
    rw [← Except.ok.inj h]
    exact reset_quiet mcon
  | setUtc tod =>
    rw [← Except.ok.inj h]
    refine .trans (hWr_quiet _ _ ?_) (hWr_quiet _ _ controlWord_command)
    unfold ControlWord
    decide
  | jtagOpen =>
    simp only [ModuleContext.control, ModuleContext.jtagOpen] at h
    split at h
    · cases h
      exact SameTables.quiet ⟨rfl, rfl, rfl, rfl, rfl, rfl, rfl, rfl⟩ rfl
    · cases h
  | jtagWriteByte byte =>
    simp only [ModuleContext.control, ModuleContext.jtagWriteByte] at h
    split at h
    · cases h
      exact SameTables.quiet ⟨rfl, rfl, rfl, rfl, rfl, rfl, rfl, rfl⟩ rfl
    · cases h
  | jtagClose =>
    cases h
    exact (enableInterrupts_quiet BitVec.or_zero).trans
      (SameTables.quiet ⟨rfl, rfl, rfl, rfl, rfl, rfl, rfl, rfl⟩ rfl)
  | hptdcIo hpio =>
    simp only [ModuleContext.control, ModuleContext.hptdcIo] at h
    split at h
    · cases h
      exact hptdcCommand_quiet mcon hpio
    · cases h
  | rawWrite offset data => exact absurd rfl (hraw offset data)
  | setOutputByte lav =>
    simp only [ModuleContext.control, ModuleContext.setOutputByte] at h
    split at h
    · cases h
      have hset : Quiet mcon { mcon with outputByte := lav.toNat } :=
        SameTables.quiet ⟨rfl, rfl, rfl, rfl, rfl, rfl, rfl, rfl⟩ rfl
      exact hset.trans (writeOutputByte_quiet _)
    · cases h
  | enable lav =>
    cases h
    unfold ModuleContext.enable
    split
    · exact writeCommand_quiet _ _
    split
    · exact writeCommand_quiet _ _
    split
    · exact writeCommand_quiet _ _
    · exact writeCommand_quiet _ _
  | setDebugHistory lav =>
    cases h
    unfold ModuleContext.setDebugHistory
    split
    · exact writeCommand_quiet _ _
    · exact writeCommand_quiet _ _
  | setBrutalPll lav =>
    cases h
    unfold ModuleContext.setBrutalPll
    split
    · exact writeCommand_quiet _ _
    · exact writeCommand_quiet _ _
  | setInputDelay lav =>
    cases h
    have hword : ControlWord mapInputDelay := by
      unfold ControlWord
      decide
    exact (hWr_quiet mcon lav hword).trans
      (SameTables.quiet ⟨rfl, rfl, rfl, rfl, rfl, rfl, rfl, rfl⟩ rfl)
  | setRemote counter remote =>
    obtain ⟨heq, hcounter⟩ := onCounter_ok h
    rw [heq]
    exact hWr_quiet _ _ (controlWord_counter hcounter).1
  | remote counter remote =>
    simp only [ModuleContext.control, ModuleContext.remote] at h
    split at h
    · cases h
    · obtain ⟨heq, hcounter⟩ := onCounter_ok h
      rw [heq]
      exact hWr_quiet _ _ (controlWord_counter hcounter).2
  | setOutMask counter mask ttlBar =>
    obtain ⟨heq, hcounter⟩ := onCounter_ok h
    rw [heq]
    exact hWr_quiet _ _ (controlWord_counter hcounter).2
  | setConfig counter conf =>
    simp only [ModuleContext.control, ModuleContext.setConfig] at h
    split at h
    · cases h
    split at h
    · next hcounter =>
      cases h
      refine io32Write_quiet _ _ ?_ ?_
      · unfold mapCounterConfig mapCounters mapInterruptEnable
        omega
      · unfold mapCounterConfig mapCounters mapTrigs
        simp only [List.length_cons, List.length_nil]
        omega
    · cases h
  | setPll pll =>
    cases h
    have hset : Quiet mcon { mcon with pll := pll } :=
      SameTables.quiet ⟨rfl, rfl, rfl, rfl, rfl, rfl, rfl, rfl⟩ rfl
    exact hset.trans (writePll_quiet _)
  | setCableId | hptdcOpen | hptdcClose =>
    cases h
    exact SameTables.quiet ⟨rfl, rfl, rfl, rfl, rfl, rfl, rfl, rfl⟩ rfl

theorem control_sameTables {cmd : Control} (h : mcon.control cmd = .ok mcon') :
    SameTables mcon mcon' := by
  by_cases hraw : ∃ offset data, cmd = .rawWrite offset data
  · obtain ⟨offset, data, rfl⟩ := hraw
    rw [← Except.ok.inj h]
    exact io32Write_sameTables offset data mcon
  · exact (control_quiet h fun offset data heq =>
      hraw ⟨offset, data, heq⟩).toSameTables

end

end Coht.Ctr
