import Coht.Lib.Ledger

/-!
# Installing the carriers (`carrier_tpci200.c`)

`carrier_install_all()` makes a table of boards and installs them one by one. When one of
them fails it is to uninstall those before it, but the loop uninstalls the one that failed,
which has nothing any more; then it frees the table and keeps the pointer to it.
`carrier_drvr_init_module()` does not look at the result and sets the number of boards.

A table that has been freed is not read again: there is no result of a call that does. Nor is
there one of a registration that writes through a mapping that has failed. The records of the
slots, which only a driver of a module asks for, are left out.
-/

namespace Coht.Tpci200.Install

open Coht.Lib

def EINVAL : Int := 22
def ENOMEM : Int := 12
def ENXIO : Int := 6

def TPCI200_NB_SLOT : Nat := 4

inductive Bar
  | ipInterface | ioIdIntSpaces | mem8Space
  deriving DecidableEq

/-- What is acquired for a board, by its number in the table. -/
inductive Part
  | slots | info | dev | enabled | region (bar : Bar) | map (bar : Bar) | irq
  deriving DecidableEq

inductive Resource
  | table
  | board (i : Nat) (part : Part)
  deriving DecidableEq

abbrev Books := Ledger Resource

/-- What the kernel comes back with for a board, and whether its four identifiers are those
of a TPCI200. An error is not 0. -/
structure BoardWorld where
  kzallocSlots : Bool
  supported : Bool
  kzallocInfo : Bool
  found : Bool
  enableDevice : Int
  requestRegion : Bar → Int
  ioremap : Bar → Bool
  requestIrq : Int

structure World where
  kzallocTable : Bool
  board : Nat → BoardWorld

/-- `struct carrier_infos`: which of the mappings there are. -/
structure Info where
  mapped : Bar → Bool

/-- `struct carrier_board`: the pointers that are looked at. -/
structure Board where
  specific : Option Info := none
  slots : Bool := false

section Board

variable (w : BoardWorld) (i : Nat)

def unmapBar (info : Info) (bar : Bar) (books : Books) : Books :=
  if info.mapped bar then books.release (.board i (.map bar)) else books

/-- `carrier_unregister()`, for a board that has its infos. -/
def unregister (board : Board) (info : Info) (books : Books) : Board × Books :=
  let books := books.release (.board i .irq)
  let books := unmapBar i info .ipInterface books
  let books := unmapBar i info .ioIdIntSpaces books
  let books := unmapBar i info .mem8Space books
  let books := books.release (.board i (.region .ipInterface))
  let books := books.release (.board i (.region .ioIdIntSpaces))
  let books := books.release (.board i (.region .mem8Space))
  let books := (books.release (.board i .enabled)).release (.board i .dev)
  ({ board with specific := none }, books.release (.board i .info))

/-- The labels of `carrier_register()`. -/
def outFree (books : Books) : Books := books.release (.board i .info)

def outFreePci (books : Books) : Books := outFree i (books.release (.board i .dev))

def outDisablePci (books : Books) : Books := outFreePci i (books.release (.board i .enabled))

def outReleaseIpSpace (books : Books) : Books :=
  outDisablePci i (books.release (.board i (.region .ipInterface)))

def outReleaseIoidIntSpace (books : Books) : Books :=
  outReleaseIpSpace i (books.release (.board i (.region .ioIdIntSpaces)))

def mapBar (bar : Bar) (books : Books) : Books :=
  if w.ioremap bar then books.acquire (.board i (.map bar)) else books

/-- `carrier_register()` -/
def register (board : Board) (books : Books) : Option (Int × Board × Books) :=
  if board.specific.isSome then some (-EINVAL, board, books)
  else if !w.supported then some (-EINVAL, board, books)
  else if !w.kzallocInfo then some (-ENOMEM, board, books)
  else
    let books := books.acquire (.board i .info)
    if !w.found then some (- ENXIO, board, outFree i books)
    else
      let books := books.acquire (.board i .dev)
      if w.enableDevice ≠ 0 then some (w.enableDevice, board, outFreePci i books)
      else
        let books := books.acquire (.board i .enabled)
        if w.requestRegion .ipInterface ≠ 0 then
          some (w.requestRegion .ipInterface, board, outDisablePci i books)
        else
          let books := books.acquire (.board i (.region .ipInterface))
          if w.requestRegion .ioIdIntSpaces ≠ 0 then
            some (w.requestRegion .ioIdIntSpaces, board, outReleaseIpSpace i books)
          else
            let books := books.acquire (.board i (.region .ioIdIntSpaces))
            if w.requestRegion .mem8Space ≠ 0 then
              some (w.requestRegion .mem8Space, board, outReleaseIoidIntSpace i books)
            else
              let books := books.acquire (.board i (.region .mem8Space))
              let books := mapBar w i .ipInterface books
              let books := mapBar w i .ioIdIntSpaces books
              let books := mapBar w i .mem8Space books
              let info : Info := { mapped := w.ioremap }
              let board := { board with specific := some info }
              -- the registers of the slots are written
              if !w.ioremap .ipInterface then none
              else if w.requestIrq ≠ 0 then
                some (w.requestIrq, unregister i board info books)
              else some (0, board, books.acquire (.board i .irq))

/-- `carrier_install()` -/
def install (books : Books) : Option (Int × Board × Books) :=
  if !w.kzallocSlots then some (-ENOMEM, {}, books)
  else
    (register w i { slots := true } (books.acquire (.board i .slots))).map fun r =>
      if r.1 ≠ 0 then
        (r.1, { r.2.1 with slots := false }, r.2.2.release (.board i .slots))
      else (0, r.2)

/-- `carrierUninstall()` -/
def uninstall (board : Board) (books : Books) : Board × Books :=
  let r :=
    match board.specific with
    | some info => unregister i board info books
    | none => (board, books)
  (r.1, if r.1.slots then r.2.release (.board i .slots) else r.2)

end Board

/-! ## The module -/

/-- `carrier_boards` -/
inductive Table
  | null
  | boards (boards : List Board)
  | freed

structure Module where
  nbInstalledBoards : Nat
  table : Table
  books : Books

variable (w : World)

/-- The loop over the boards, with the number of the one it has come to. -/
def installLoop : (left i : Nat) → List Board → Books →
    Option (Int × Nat × List Board × Books)
  | 0, i, boards, books => some (0, i, boards, books)
  | left + 1, i, boards, books =>
    match install (w.board i) i books with
    | none => none
    | some (res, board, books) =>
      if res ≠ 0 then some (res, i, boards.set i board, books)
      else installLoop left (i + 1) (boards.set i board) books

/-- The loop of `out_uninst`, which runs `left` times for the board that has failed. -/
def uninstallLoop (i : Nat) : Nat → Board × Books → Board × Books
  | 0, s => s
  | left + 1, s => uninstallLoop i left (uninstall i s.1 s.2)

/-- `carrier_install_all()` -/
def installAll (numLun : Nat) : Option (Int × Module) :=
  if !w.kzallocTable then
    some (-ENOMEM, { nbInstalledBoards := numLun, table := .null, books := {} })
  else
    (installLoop w numLun 0 (List.replicate numLun {}) (({} : Books).acquire .table)).map
      fun r =>
        let i := r.2.1
        let boards := r.2.2.1
        let books := r.2.2.2
        if r.1 ≠ 0 then
          let s := uninstallLoop i i (boards.getD i {}, books)
          (r.1, { nbInstalledBoards := 0, table := .freed, books := s.2.release .table })
        else (0, { nbInstalledBoards := numLun, table := .boards boards, books })

/-- `carrier_drvr_init_module()` -/
def initModule (numLun : Nat) : Option Module :=
  (installAll w numLun).map fun r => { r.2 with nbInstalledBoards := numLun }

/-- The entry of the table that a function looks at. -/
def Module.entry (m : Module) (i : Nat) : Option Board :=
  match m.table with
  | .boards boards => boards[i]?
  | .null | .freed => none

/-- `carrier_drvr_exit_module()` -/
def exitModule (m : Module) : Option Books :=
  (List.range m.nbInstalledBoards).foldlM
    (fun books i => (m.entry i).map fun board => (uninstall i board books).2) m.books |>.map
      fun books =>
        match m.table with
        | .null => books
        | .boards _ | .freed => books.release .table

/-- `ip_slot_register()`, up to where it has the board. -/
def ipSlotRegister (m : Module) (carrierNumber slotPosition : Nat) : Option (Option Board) :=
  if m.nbInstalledBoards ≤ carrierNumber ∨ TPCI200_NB_SLOT ≤ slotPosition then some none
  else (m.entry carrierNumber).map some

/-- `check_slot()`, which the other functions begin with, up to where it has the board. -/
def checkSlot (m : Module) (carrierNumber : Nat) : Option (Option Board) :=
  if m.nbInstalledBoards ≤ carrierNumber then some none
  else (m.entry carrierNumber).map some

/-- After an installation that has failed nothing is held, and no call comes upon the table
that has been freed or frees it again. -/
structure Undone (m : Module) : Prop where
  released : m.books.Balanced
  ipSlotRegister : ∀ carrierNumber slotPosition,
    ipSlotRegister m carrierNumber slotPosition ≠ none
  checkSlot : ∀ carrierNumber, checkSlot m carrierNumber ≠ none
  exit : ∃ books, exitModule m = some books ∧ books.Balanced

/-! ## A board -/

/-- All goes well up to the regions of the board. -/
structure BoardWorld.HasRegions (w : BoardWorld) : Prop where
  slots : w.kzallocSlots = true
  supported : w.supported = true
  info : w.kzallocInfo = true
  found : w.found = true
  enabled : w.enableDevice = 0
  regions : ∀ bar, w.requestRegion bar = 0

/-- A board that is installed. -/
structure BoardWorld.Installs (w : BoardWorld) : Prop extends w.HasRegions where
  interfaceRegs : w.ioremap .ipInterface = true
  irq : w.requestIrq = 0

/-- A board whose installation fails, at any of its steps. -/
def BoardWorld.Fails (w : BoardWorld) : Prop :=
  w.HasRegions → w.ioremap .ipInterface = true ∧ w.requestIrq ≠ 0

def BoardWorld.held (w : BoardWorld) (i : Nat) : List Resource :=
  [.board i .slots, .board i .info, .board i .dev, .board i .enabled,
    .board i (.region .ipInterface), .board i (.region .ioIdIntSpaces),
    .board i (.region .mem8Space)] ++
  ([Bar.ipInterface, .ioIdIntSpaces, .mem8Space].filter w.ioremap).map
    (fun bar => .board i (.map bar)) ++ [.board i .irq]

section Install

variable {w : BoardWorld} {i : Nat} {books : Books}

theorem install_of_installs (h : w.Installs) :
    install w i books = some (0, { specific := some { mapped := w.ioremap }, slots := true },
      Ledger.acquireAll (w.held i) books) := by
  rw [install, register]
  simp only [h.slots, h.supported, h.info, h.found, h.enabled, h.regions, h.interfaceRegs, h.irq,
    Bool.not_true, Bool.false_eq_true, if_false, ne_eq, not_true, Option.isSome_none,
    Option.map_some, BoardWorld.held, mapBar]
  cases hio : w.ioremap .ioIdIntSpaces <;> cases hmem : w.ioremap .mem8Space <;>
    simp [Ledger.acquireAll, h.interfaceRegs, hio, hmem]

theorem install_of_not_hasRegions (h : ¬ w.HasRegions) :
    ∃ res, res ≠ 0 ∧ install w i books = some (res, {}, books) := by
  rw [install]
  by_cases hslots : w.kzallocSlots = true
  case neg => exact ⟨-ENOMEM, by decide, by simp [hslots]⟩
  have hregister : ∀ books, ∃ res, res ≠ 0 ∧
      register w i { slots := true } books = some (res, { slots := true }, books) := by
    intro books
    rw [register]
    by_cases hsupported : w.supported = true
    case neg => exact ⟨-EINVAL, by decide, by simp [hsupported]⟩
    by_cases hinfo : w.kzallocInfo = true
    case neg => exact ⟨-ENOMEM, by decide, by simp [hsupported, hinfo]⟩
    by_cases hfound : w.found = true
    case neg =>
      exact ⟨- ENXIO, by decide, by
        simp [hsupported, hinfo, hfound, outFree, Ledger.release_acquire]⟩
    by_cases henable : w.enableDevice = 0
    case neg =>
      exact ⟨_, henable, by
        simp [hsupported, hinfo, hfound, henable, outFreePci, outFree, Ledger.release_acquire]⟩
    by_cases hip : w.requestRegion .ipInterface = 0
    case neg =>
      exact ⟨_, hip, by
        simp [hsupported, hinfo, hfound, henable, hip, outDisablePci, outFreePci, outFree,
          Ledger.release_acquire]⟩
    by_cases hio : w.requestRegion .ioIdIntSpaces = 0
    case neg =>
      exact ⟨_, hio, by
        simp [hsupported, hinfo, hfound, henable, hip, hio, outReleaseIpSpace, outDisablePci,
          outFreePci, outFree, Ledger.release_acquire]⟩
    have hmem : w.requestRegion .mem8Space ≠ 0 := by
      intro hmem
      refine h ⟨hslots, hsupported, hinfo, hfound, henable, fun bar => ?_⟩
      cases bar with
      | ipInterface => exact hip
      | ioIdIntSpaces => exact hio
      | mem8Space => exact hmem
    exact ⟨_, hmem, by
      simp [hsupported, hinfo, hfound, henable, hip, hio, hmem, outReleaseIoidIntSpace,
        outReleaseIpSpace, outDisablePci, outFreePci, outFree, Ledger.release_acquire]⟩
  obtain ⟨res, hres, heq⟩ := hregister (books.acquire (.board i .slots))
  exact ⟨res, hres, by simp [hslots, heq, hres, Ledger.release_acquire]⟩

/-! ## An interrupt that is not registered -/

def Elsewhere (i : Nat) (r : Resource) : Prop := ∀ part, r ≠ .board i part

theorem mapBar_held {r : Resource} (h : Elsewhere i r) (bar : Bar) :
    (mapBar w i bar books).held r = books.held r := by
  rw [mapBar]
  split
  · rw [Ledger.acquire_held, if_neg (h _)]
  · rfl

theorem mapBar_irq (bar : Bar) :
    (mapBar w i bar books).held (.board i .irq) = books.held (.board i .irq) := by
  rw [mapBar]
  split
  · rw [Ledger.acquire_held, if_neg (by simp)]
  · rfl

theorem unmapBar_held {info : Info} {r : Resource} (h : Elsewhere i r) (bar : Bar) :
    (unmapBar i info bar books).held r = books.held r := by
  rw [unmapBar]
  split
  · rw [Ledger.release_held_of_ne (h _)]
  · rfl

theorem unmapBar_stray {info : Info} (h : books.stray = true) (bar : Bar) :
    (unmapBar i info bar books).stray = true := by
  rw [unmapBar]
  split
  · exact Ledger.release_stray_of_stray h
  · exact h

theorem unregister_held {board : Board} {info : Info} {r : Resource} (h : Elsewhere i r) :
    (unregister i board info books).2.held r = books.held r := by
  simp only [unregister, Ledger.release_held_of_ne (h _), unmapBar_held h]

theorem unregister_stray {board : Board} {info : Info}
    (h : books.held (.board i .irq) = 0) : (unregister i board info books).2.stray = true := by
  simp only [unregister]
  iterate 6 refine Ledger.release_stray_of_stray ?_
  iterate 3 refine unmapBar_stray ?_ _
  exact Ledger.release_of_none h

theorem install_of_no_irq (h : w.HasRegions) (hmap : w.ioremap .ipInterface = true)
    (hirq : w.requestIrq ≠ 0) (hnone : books.held (.board i .irq) = 0) :
    ∃ books', install w i books = some (w.requestIrq, {}, books') ∧ books'.stray = true ∧
      ∀ r, Elsewhere i r → books'.held r = books.held r := by
  let mapped := mapBar w i .mem8Space (mapBar w i .ioIdIntSpaces (mapBar w i .ipInterface
    (Ledger.acquireAll
      [.board i .slots, .board i .info, .board i .dev, .board i .enabled,
        .board i (.region .ipInterface), .board i (.region .ioIdIntSpaces),
        .board i (.region .mem8Space)] books)))
  have hmapped : mapped.held (.board i .irq) = 0 := by
    simp only [mapped, mapBar_irq, Ledger.acquireAll_held, hnone]
    simp
  refine ⟨(unregister i { specific := some { mapped := w.ioremap }, slots := true }
    { mapped := w.ioremap } mapped).2.release (.board i .slots), ?_, ?_, fun r hr => ?_⟩
  · rw [install, register]
    simp only [h.slots, h.supported, h.info, h.found, h.enabled, h.regions, hmap, hirq,
      Bool.not_true, Bool.false_eq_true, if_false, ne_eq, not_true, not_false_iff, if_true,
      Option.isSome_none, Option.map_some]
    rfl
  · exact Ledger.release_stray_of_stray (unregister_stray hmapped)
  · rw [Ledger.release_held_of_ne (hr _), unregister_held hr]
    simp only [mapped, mapBar_held hr, Ledger.acquireAll, Ledger.acquire_held, if_neg (hr _)]

theorem install_of_fails (h : w.Fails) (hnone : books.held (.board i .irq) = 0) :
    ∃ res books', install w i books = some (res, {}, books') ∧ res ≠ 0 ∧
      (w.HasRegions → books'.stray = true) ∧
      ∀ r, Elsewhere i r → books'.held r = books.held r := by
  by_cases hregions : w.HasRegions
  · obtain ⟨hmap, hirq⟩ := h hregions
    obtain ⟨books', heq, hstray, hheld⟩ := install_of_no_irq hregions hmap hirq hnone
    exact ⟨_, books', heq, hirq, fun _ => hstray, hheld⟩
  · obtain ⟨res, hres, heq⟩ := @install_of_not_hasRegions _ i books hregions
    exact ⟨res, books, heq, hres, fun h => absurd h hregions, fun _ _ => rfl⟩

end Install

/-! ## All boards -/

section Boards

variable {w : World} {numLun i k left : Nat} {boards : List Board} {books : Books}

def heldBefore (w : World) (k i : Nat) : List Resource :=
  (List.range' k (i - k)).flatMap fun j => (w.board j).held j

theorem mem_held {r : Resource} {w : BoardWorld} (h : r ∈ w.held i) :
    ∃ part, r = .board i part := by
  simp only [BoardWorld.held, List.mem_append, List.mem_map, List.mem_cons, List.not_mem_nil,
    or_false] at h
  rcases h with (h | ⟨bar, -, rfl⟩) | rfl
  · rcases h with rfl | rfl | rfl | rfl | rfl | rfl | rfl <;> exact ⟨_, rfl⟩
  · exact ⟨_, rfl⟩
  · exact ⟨_, rfl⟩

theorem heldBefore_irq : Resource.board i .irq ∉ heldBefore w k i := by
  rw [heldBefore, List.mem_flatMap]
  rintro ⟨j, hj, hheld⟩
  obtain ⟨part, hpart⟩ := mem_held hheld
  cases hpart
  have := List.mem_range'_1.mp hj
  omega

theorem installLoop_of_fails (hki : k ≤ i) (hleft : i < k + left)
    (hlen : i < boards.length)
    (hbefore : ∀ j, k ≤ j → j < i → (w.board j).Installs) (hfails : (w.board i).Fails)
    (hnone : books.held (.board i .irq) = 0) :
    ∃ res boards' books', installLoop w left k boards books = some (res, i, boards', books') ∧
      res ≠ 0 ∧ boards'.getD i {} = {} ∧ ((w.board i).HasRegions → books'.stray = true) ∧
      ∀ r, Elsewhere i r →
        books'.held r = (Ledger.acquireAll (heldBefore w k i) books).held r := by
  induction left generalizing k boards books with
  | zero => omega
  | succ left ih =>
    by_cases heq : k = i
    · subst heq
      obtain ⟨res, books', hinstall, hres, hstray, hheld⟩ := install_of_fails hfails hnone
      refine ⟨res, boards.set k {}, books', ?_, hres, ?_, hstray, ?_⟩
      · rw [installLoop, hinstall]
        simp only [hres, ne_eq, not_false_iff, if_true]
      · simp [List.getD_eq_getElem?_getD, hlen]
      · intro r hr
        rw [hheld r hr, heldBefore, Nat.sub_self]
        rfl
    · have hk := @install_of_installs (w.board k) k books
        (hbefore k (Nat.le_refl k) (by omega))
      have hirq : Resource.board i .irq ∉ (w.board k).held k := by
        intro hmem
        obtain ⟨part, hpart⟩ := mem_held hmem
        cases hpart
        exact heq rfl
      obtain ⟨res, boards', books', hloop, hrest⟩ := @ih
        (k + 1)
        (boards.set k
          { specific := some { mapped := (w.board k).ioremap }, slots := true })
        (Ledger.acquireAll ((w.board k).held k) books) (by omega) (by omega)
        (by rwa [List.length_set]) (fun j hj => hbefore j (by omega))
        (by rw [Ledger.acquireAll_held, List.count_eq_zero_of_not_mem hirq, hnone])
      refine ⟨res, boards', books', ?_, hrest.1, hrest.2.1, hrest.2.2.1, fun r hr => ?_⟩
      · rw [installLoop, hk]
        simp only [ne_eq, not_true, if_false]
        exact hloop
      · have hcons : heldBefore w k i = (w.board k).held k ++ heldBefore w (k + 1) i := by
          have hsub : i - k = i - (k + 1) + 1 := by omega
          rw [heldBefore, heldBefore, hsub, List.range'_succ, List.flatMap_cons]
        rw [hrest.2.2.2 r hr, hcons, Ledger.acquireAll_append]

theorem uninstallLoop_empty (left : Nat) : uninstallLoop i left ({}, books) = ({}, books) := by
  induction left with
  | zero => rfl
  | succ left ih => exact ih

theorem installAll_of_fails (hi : i < numLun) (htable : w.kzallocTable = true)
    (hbefore : ∀ j < i, (w.board j).Installs) (hfails : (w.board i).Fails) :
    ∃ res m, installAll w numLun = some (res, m) ∧ res ≠ 0 ∧ m.table = .freed ∧
      (∀ r ∈ heldBefore w 0 i, m.books.held r ≠ 0) ∧
      ((w.board i).HasRegions → m.books.stray = true) := by
  obtain ⟨res, boards, books, hloop, hres, hboard, hstray, hheld⟩ :=
    @installLoop_of_fails w i 0 numLun (List.replicate numLun {})
      (({} : Books).acquire .table) (Nat.zero_le i) (by omega)
      (by rwa [List.length_replicate]) (fun j _ => hbefore j) hfails
      (by rw [Ledger.acquire_held, if_neg (by simp)])
  let freed : Module :=
    { nbInstalledBoards := 0
      table := .freed
      books := (uninstallLoop i i ({}, books)).2.release .table }
  have hbooks : freed.books = books.release .table := by
    simp only [freed, uninstallLoop_empty]
  refine ⟨res, freed, ?_, hres, rfl, fun r hr => ?_, fun h => ?_⟩
  · rw [installAll, htable, hloop]
    simp only [Bool.not_true, Bool.false_eq_true, if_false, Option.map_some, hres, ne_eq,
      not_false_iff, if_true, hboard, freed]
  · obtain ⟨j, hj, hmem⟩ := List.mem_flatMap.mp hr
    obtain ⟨part, rfl⟩ := mem_held hmem
    have hji := List.mem_range'_1.mp hj
    have helsewhere : Elsewhere i (.board j part) := by
      intro part' h
      cases h
      omega
    rw [hbooks, Ledger.release_held_of_ne (by simp), hheld _ helsewhere,
      Ledger.acquireAll_held]
    have := List.count_pos_iff.mpr hr
    omega
  · rw [hbooks]
    exact Ledger.release_stray_of_stray (hstray h)

theorem not_undone_of_freed {m : Module} (hpos : 0 < m.nbInstalledBoards)
    (hfreed : m.table = .freed) : ¬ Undone m := by
  intro hundone
  refine hundone.checkSlot 0 ?_
  simp [checkSlot, Nat.not_le.mpr hpos, Module.entry, hfreed]

/-- Whichever board fails, and at whichever step, the installation is not undone: the number
of boards is set, so that the table that has been freed is looked at again. -/
theorem installAll_not_undone (w : World) (numLun i : Nat) (hi : i < numLun)
    (htable : w.kzallocTable = true) (hbefore : ∀ j < i, (w.board j).Installs)
    (hfails : (w.board i).Fails) :
    ∃ m, initModule w numLun = some m ∧ ¬ Undone m := by
  obtain ⟨res, m, hall, -, hfreed, -⟩ := installAll_of_fails hi htable hbefore hfails
  refine ⟨{ m with nbInstalledBoards := numLun }, ?_, ?_⟩
  · rw [initModule, hall]
    rfl
  · exact not_undone_of_freed (Nat.zero_lt_of_lt hi) hfreed

end Boards

/-- Two boards, of which the second one is not found. -/
def twoBoards : World :=
  { kzallocTable := true
    board := fun i =>
      { kzallocSlots := true
        supported := true
        kzallocInfo := true
        found := i = 0
        enableDevice := 0
        requestRegion := fun _ => 0
        ioremap := fun _ => true
        requestIrq := 0 } }

theorem twoBoards_installs : ∀ j < 1, (twoBoards.board j).Installs := by
  intro j hj
  obtain rfl : j = 0 := by omega
  exact { slots := rfl, supported := rfl, info := rfl, found := rfl, enabled := rfl,
          regions := fun _ => rfl, interfaceRegs := rfl, irq := rfl }

theorem twoBoards_fails : (twoBoards.board 1).Fails := fun h => nomatch h.found

theorem installAll_not_undone_two : ∃ m, initModule twoBoards 2 = some m ∧ ¬ Undone m :=
  installAll_not_undone twoBoards 2 1 (by decide) rfl twoBoards_installs twoBoards_fails

/-- The first of the two boards keeps its interrupt. -/
theorem installAll_leaks : ¬ ∀ (w : World) (numLun i : Nat), i < numLun →
    w.kzallocTable = true → (∀ j < i, (w.board j).Installs) → (w.board i).Fails →
      ∃ m, initModule w numLun = some m ∧ Undone m := by
  intro h
  obtain ⟨m, hm, hundone⟩ :=
    h twoBoards 2 1 (by decide) rfl twoBoards_installs twoBoards_fails
  obtain ⟨res, m', hall, -, -, hheld, -⟩ :=
    @installAll_of_fails _ 2 _ (by decide) rfl twoBoards_installs twoBoards_fails
  rw [initModule, hall] at hm
  cases hm
  exact Ledger.not_balanced_of_held (hheld (.board 0 .irq) (by decide)) hundone.released

end Coht.Tpci200.Install
