import Coht.Lib.Ledger
import Mathlib.Data.List.Basic

/-!
# Registering and removing a card (`sis33_core.c`, `sis3320.c`,
`sis33_sysfs.c`)

`sis3320_probe()` acquires what a card needs step by step, and when a step fails
the labels at its end undo the steps before it. The last label is
`sis33_card_free()`, which removing a card calls too and which finds out from
two fields of the card what there is to undo: one that says that the sysfs files
exist, and the owner of the character device.

The owner is written before the character device is added. So from
`cdev_add()` on a failure is undone twice, once where it happened and once by
`sis33_card_free()`. And when a card is removed its channels are freed while
their kobjects are still registered. `sis3320Probe_cleansUp_iff` has what is
left: the books are balanced if the call fails before `cdev_add()`, or without
sysfs if it does not fail at all.
-/

namespace Coht.Sis33.Probe

open Coht.Lib

def ENOMEM : Int := 12
def EBUSY : Int := 16
def ENODEV : Int := 19
def EINVAL : Int := 22

def SIS33_MAX_DEVICES : Nat := 32
def SIS3320_NR_CHANNELS : Nat := 8
def SIS3320_MAX_NR_SEGMENTS : Nat := 2

inductive Resource
  | card
  | slot (idx : Nat)
  | priv
  | channels
  | segments
  | irq
  | cdev
  | device
  | attrGroup
  | channelsDir
  | channel (i : Nat)
  | events (i : Nat)
  | prevticks (i : Nat)
deriving DecidableEq

/-- What has to be there to take a resource off the books: the structure that
was registered, or the device that has the attributes. -/
def Resource.inside : Resource → Option Resource
  | .cdev => some .card
  | .channelsDir => some .card
  | .channel _ => some .channels
  | .attrGroup => some .device
  | _ => none

abbrev Books := Ledger Resource

/-- What was compiled in, what the kernel and the module come back with, and
what the acquisitions have left in the segments when the card is removed: an
error is not 0. -/
structure ProbeWorld where
  configSysfs : Bool
  /-- the module parameter, `none` for -1 -/
  index : Option Nat
  /-- `sis33_cards_lock` -/
  cardsLock : Nat → Bool
  kzallocCard : Bool
  kzallocPriv : Bool
  kcallocChannels : Bool
  kcallocSegments : Bool
  /-- the version register has the number of one of the modules -/
  identified : Bool
  vmeRequestIrq : Int
  confAcq : Int
  confChannels : Int
  cdevAdd : Int
  deviceCreate : Int
  sysfsCreateGroup : Int
  addChannelsDir : Int
  addChannel : Nat → Int
  /-- the pointers that are neither null nor an error -/
  events : Nat → Bool
  prevticks : Nat → Bool

/-- The fields of the card that its release looks at. -/
structure ProbeCard where
  number : Nat
  cdevOwner : Bool := false
  sysfsFilesCreated : Bool := false
  nChannels : Nat := 0

/-! ## The core -/

def drop (r : Resource) (books : Books) : Books :=
  books.releaseInside Resource.inside r

variable (w : ProbeWorld)

/-- `__sis33_card_lock()`: the slot, or an error. -/
def sis33CardLock : Except Int Nat :=
  match w.index with
  | none =>
    match (List.range SIS33_MAX_DEVICES).find? fun i => !w.cardsLock i with
    | some i => .ok i
    | none => .error (-ENODEV)
  | some idx => if w.cardsLock idx then .error (-EBUSY) else .ok idx

def sis33CardCreate (books : Books) : Except Int ProbeCard × Books :=
  if w.index.any fun idx => idx ≥ SIS33_MAX_DEVICES then
    (.error (-EINVAL), books)
  else if !w.kzallocCard then (.error (-ENOMEM), books)
  else
    let books := books.acquire .card
    match sis33CardLock w with
    | .error error => (.error error, drop .card books)
    | .ok idx => (.ok { number := idx }, books.acquire (.slot idx))

def sis33CreateCdev (card : ProbeCard) (books : Books) :
    Int × ProbeCard × Books :=
  let card := { card with cdevOwner := true }
  if w.cdevAdd ≠ 0 then (w.cdevAdd, card, books)
  else
    let books := books.acquire .cdev
    if w.deviceCreate ≠ 0 then (w.deviceCreate, card, drop .cdev books)
    else (0, card, books.acquire .device)

def sis33DestroyCdev (books : Books) : Books := drop .cdev (drop .device books)

/-! ## The files in sysfs -/

/-- `kobject_put()` for the channels below `i`, the last one first. -/
def putChannelsDown : Nat → Books → Books
  | 0, books => books
  | i + 1, books => putChannelsDown i (drop (.channel i) books)

/-- The loop over the channels, with `left` of them to go from channel `i`
on. -/
def addChannels : (left i : Nat) → Books → Int × Books
  | 0, _, books => (0, books)
  | left + 1, i, books =>
    if w.addChannel i ≠ 0 then
      (w.addChannel i, drop .channelsDir (putChannelsDown i books))
    else addChannels left (i + 1) (books.acquire (.channel i))

def sis33DevAddAttributes (card : ProbeCard) (books : Books) : Int × Books :=
  if w.addChannelsDir ≠ 0 then (w.addChannelsDir, books)
  else addChannels w card.nChannels 0 (books.acquire .channelsDir)

/-- `sis33_dev_del_attributes()`, the first channel first. -/
def sis33DevDelAttributes (card : ProbeCard) (books : Books) : Books :=
  drop .channelsDir
    ((List.range card.nChannels).foldl (fun books i => drop (.channel i) books)
      books)

def sis33CreateSysfsFiles (card : ProbeCard) (books : Books) :
    Int × ProbeCard × Books :=
  if !w.configSysfs then (0, card, books)
  else if w.sysfsCreateGroup ≠ 0 then (w.sysfsCreateGroup, card, books)
  else
    let r := sis33DevAddAttributes w card (books.acquire .attrGroup)
    if r.1 ≠ 0 then (r.1, card, drop .attrGroup r.2)
    else (0, { card with sysfsFilesCreated := true }, r.2)

def sis33RemoveSysfsFiles (card : ProbeCard) (books : Books) : Books :=
  if !w.configSysfs then books
  else if !card.sysfsFilesCreated then books
  else drop .attrGroup (sis33DevDelAttributes card books)

def sis33CardRegister (card : ProbeCard) (books : Books) :
    Int × ProbeCard × Books :=
  if w.confAcq ≠ 0 then (w.confAcq, card, books)
  else if w.confChannels ≠ 0 then (w.confChannels, card, books)
  else
    let r := sis33CreateCdev w card books
    if r.1 ≠ 0 then r
    else
      let r := sis33CreateSysfsFiles w r.2.1 r.2.2
      if r.1 ≠ 0 then (r.1, r.2.1, sis33DestroyCdev r.2.2) else r

def sis33CardFree (card : ProbeCard) (books : Books) : Books :=
  let books := sis33RemoveSysfsFiles w card books
  let books := if card.cdevOwner then sis33DestroyCdev books else books
  drop .card (drop (.slot card.number) books)

/-! ## The module -/

def sis3320DeviceInit (books : Books) : Int × Books :=
  if !w.identified then (-ENODEV, books)
  else if w.vmeRequestIrq ≠ 0 then (w.vmeRequestIrq, books)
  else (0, books.acquire .irq)

def sis3320DeviceExit (books : Books) : Books := drop .irq books

/-- `sis3320_probe()`, with the card if there is one in the end. -/
def sis3320Probe : Int × Option ProbeCard × Books :=
  match sis33CardCreate w {} with
  | (.error error, books) => (error, none, books)
  | (.ok card, books) =>
    if !w.kzallocPriv then (-ENOMEM, none, sis33CardFree w card books)
    else
      let books := books.acquire .priv
      if !w.kcallocChannels then
        (-ENOMEM, none, sis33CardFree w card (drop .priv books))
      else
        let books := books.acquire .channels
        if !w.kcallocSegments then
          (-ENOMEM, none,
            sis33CardFree w card (drop .priv (drop .channels books)))
        else
          let books := books.acquire .segments
          let r := sis3320DeviceInit w books
          if r.1 ≠ 0 then
            (r.1, none, sis33CardFree w card
              (drop .priv (drop .channels (drop .segments r.2))))
          else
            let card := { card with nChannels := SIS3320_NR_CHANNELS }
            let r := sis33CardRegister w card r.2
            if r.1 = 0 then (0, some r.2.1, r.2.2)
            else
              (r.1, none, sis33CardFree w r.2.1
                (drop .priv (drop .channels (drop .segments
                  (sis3320DeviceExit r.2.2)))))

/-- The buffers of the segments. -/
def segmentBuffers : List Resource :=
  (List.range SIS3320_MAX_NR_SEGMENTS).flatMap fun i =>
    (if w.events i then [.events i] else []) ++
      (if w.prevticks i then [.prevticks i] else [])

/-- `sis3320_remove()`. The loop over the segments frees the buffers that their
pointers lead to. -/
def sis3320Remove (card : ProbeCard) (books : Books) : Books :=
  let books := sis3320DeviceExit books
  let books := (segmentBuffers w).foldl (fun books r => drop r books) books
  sis33CardFree w card
    (drop .priv (drop .channels (drop .segments books)))

/-- A call that fails leaves nothing behind and releases nothing that it has not
acquired, and after one that succeeds, whatever the acquisitions have added to
the segments, the removal does so. -/
def CleansUp : Prop :=
  let r := sis3320Probe w
  (r.1 ≠ 0 → r.2.2.Balanced) ∧
    (r.1 = 0 → ∀ card ∈ r.2.1,
      (sis3320Remove w card
        (Ledger.acquireAll (segmentBuffers w) r.2.2)).Balanced)

/-- Every step before `cdev_add()` goes well. -/
structure ReachesCdev : Prop where
  index : (w.index.any fun idx => idx ≥ SIS33_MAX_DEVICES) = false
  kzallocCard : w.kzallocCard = true
  slot : ∃ idx, sis33CardLock w = .ok idx
  kzallocPriv : w.kzallocPriv = true
  kcallocChannels : w.kcallocChannels = true
  kcallocSegments : w.kcallocSegments = true
  identified : w.identified = true
  vmeRequestIrq : w.vmeRequestIrq = 0
  confAcq : w.confAcq = 0
  confChannels : w.confChannels = 0

/-! ## The books -/

section Books

variable {w} {books : Books} {r q : Resource} {card : ProbeCard} {i left : Nat}

theorem drop_of_none (h : r.inside = none) : drop r books = books.release r :=
  Ledger.releaseInside_of_none h

theorem drop_acquire (h : ∀ b, r.inside = some b → books.held b ≠ 0) :
    drop r (books.acquire r) = books := by
  unfold drop
  cases hin : r.inside with
  | none => rw [Ledger.releaseInside_of_none hin, Ledger.release_acquire]
  | some b =>
    have hb : (books.acquire r).held b ≠ 0 := by
      have := h b hin
      rw [Ledger.acquire_held]
      split
      · omega
      · exact this
    rw [Ledger.releaseInside_of_held hin hb, Ledger.release_acquire]

theorem drop_acquire_of_none (h : r.inside = none) :
    drop r (books.acquire r) = books :=
  drop_acquire fun b hb => by rw [h] at hb; cases hb

theorem drop_acquire_inside {b : Resource} (h : r.inside = some b)
    (hb : books.held b ≠ 0) : drop r (books.acquire r) = books :=
  drop_acquire fun _ hb' => Option.some.inj (h.symm.trans hb') ▸ hb

theorem drop_of_stray (h : books.stray = true) : (drop r books).stray = true :=
  Ledger.releaseInside_of_stray h

theorem drop_of_not_held (h : books.held r = 0) : (drop r books).stray = true := by
  unfold drop Ledger.releaseInside
  split
  · split
    · rfl
    · exact Ledger.release_of_none h
  · exact Ledger.release_of_none h

theorem drop_of_held {b : Resource} (h : r.inside = some b)
    (hb : books.held b ≠ 0) : drop r books = books.release r :=
  Ledger.releaseInside_of_held h hb

theorem drop_lost {b : Resource} (h : r.inside = some b)
    (hb : books.held b = 0) : (drop r books).stray = true :=
  Ledger.releaseInside_lost h hb

theorem drop_held_of_ne (h : q ≠ r) : (drop r books).held q = books.held q :=
  Ledger.releaseInside_held_of_ne h

theorem cardFree_plain (howner : card.cdevOwner = false)
    (hfiles : card.sysfsFilesCreated = false) :
    sis33CardFree w card
      ((books.acquire .card).acquire (.slot card.number)) = books := by
  have hsysfs : ∀ books, sis33RemoveSysfsFiles w card books = books := by
    intro books
    unfold sis33RemoveSysfsFiles
    rw [hfiles]
    split <;> rfl
  unfold sis33CardFree
  rw [hsysfs, howner]
  dsimp only
  rw [if_neg Bool.false_ne_true, drop_acquire_of_none rfl,
    drop_acquire_of_none rfl]

theorem cardFree_stray (howner : card.cdevOwner = true)
    (hfiles : card.sysfsFilesCreated = false) (hdev : books.held .device = 0) :
    (sis33CardFree w card books).stray = true := by
  have hsysfs : sis33RemoveSysfsFiles w card books = books := by
    unfold sis33RemoveSysfsFiles
    rw [hfiles]
    split <;> rfl
  unfold sis33CardFree
  rw [hsysfs, howner]
  dsimp only
  rw [if_pos rfl]
  exact drop_of_stray (drop_of_stray (drop_of_stray (drop_of_not_held hdev)))

/-! ## The core -/

def withChannels : Nat → Books → Books
  | 0, books => books
  | i + 1, books => (withChannels i books).acquire (.channel i)

theorem withChannels_held (h : ∀ i, q ≠ .channel i) :
    (withChannels i books).held q = books.held q := by
  induction i with
  | zero => rfl
  | succ i ih => rw [withChannels, Ledger.acquire_held, if_neg (h i), ih]

theorem putChannelsDown_withChannels (h : books.held .channels ≠ 0) :
    putChannelsDown i (withChannels i books) = books := by
  induction i with
  | zero => rfl
  | succ i ih =>
    have hheld : (withChannels i books).held .channels ≠ 0 := by
      rwa [withChannels_held (fun _ => Resource.noConfusion)]
    rw [putChannelsDown, withChannels, drop_acquire_inside rfl hheld, ih]

theorem addChannels_books (left : Nat) (hcard : books.held .card ≠ 0)
    (hchannels : books.held .channels ≠ 0) :
    let r := addChannels w left i
      (withChannels i (books.acquire .channelsDir))
    (r.1 ≠ 0 → r.2 = books) ∧
      (r.1 = 0 →
        r.2 = withChannels (i + left) (books.acquire .channelsDir)) := by
  induction left generalizing i with
  | zero => exact ⟨fun h => absurd rfl h, fun _ => rfl⟩
  | succ left ih =>
    rw [addChannels]
    split
    · rename_i herr
      refine ⟨fun _ => ?_, fun h => absurd h herr⟩
      have hheld : (books.acquire .channelsDir).held .channels ≠ 0 := by
        rw [Ledger.acquire_held, if_neg Resource.noConfusion]
        exact hchannels
      dsimp only
      rw [putChannelsDown_withChannels hheld, drop_acquire_inside rfl hcard]
    · have h := ih (i := i + 1)
      rw [Nat.add_right_comm] at h
      exact h

theorem devAddAttributes_books (card : ProbeCard) (books : Books)
    (hcard : books.held .card ≠ 0)
    (hchannels : books.held .channels ≠ 0) :
    let r := sis33DevAddAttributes w card books
    (r.1 ≠ 0 → r.2 = books) ∧
      (r.1 = 0 →
        r.2 = withChannels card.nChannels (books.acquire .channelsDir)) := by
  unfold sis33DevAddAttributes
  split
  · rename_i herr
    exact ⟨fun _ => rfl, fun h => absurd h herr⟩
  · have h := addChannels_books (w := w) (i := 0) card.nChannels hcard hchannels
    rwa [Nat.zero_add] at h

structure SysfsCase (w : ProbeWorld) (card : ProbeCard) (books : Books)
    (r : Int × ProbeCard × Books) : Prop where
  failed : r.1 ≠ 0 → r.2 = (card, books)
  off : w.configSysfs = false → r = (0, card, books)
  created : r.1 = 0 → w.configSysfs = true →
    r.2 = ({ card with sysfsFilesCreated := true },
      withChannels card.nChannels
        ((books.acquire .attrGroup).acquire .channelsDir))

theorem createSysfsFiles_case (card : ProbeCard) (books : Books)
    (hcard : books.held .card ≠ 0) (hchannels : books.held .channels ≠ 0)
    (hdev : books.held .device ≠ 0) :
    SysfsCase w card books (sis33CreateSysfsFiles w card books) := by
  unfold sis33CreateSysfsFiles
  cases hconfig : w.configSysfs with
  | false =>
    exact ⟨fun h => absurd rfl h, fun _ => rfl, fun _ h => by
      rw [hconfig] at h
      cases h⟩
  | true =>
    have hheld : ∀ q, q ≠ .attrGroup →
        (books.acquire .attrGroup).held q = books.held q :=
      fun q hq => by rw [Ledger.acquire_held, if_neg hq]
    have hattrs := devAddAttributes_books (w := w) card
      (books.acquire .attrGroup)
      (by rwa [hheld _ Resource.noConfusion])
      (by rwa [hheld _ Resource.noConfusion])
    have hoff : ∀ r : Int × ProbeCard × Books,
        w.configSysfs = false → r = (0, card, books) :=
      fun r h => by
        rw [hconfig] at h
        cases h
    rw [if_neg (by decide)]
    split
    · rename_i herr
      exact ⟨fun _ => rfl, hoff _, fun h => absurd h herr⟩
    · dsimp only
      split
      · rename_i herr
        refine ⟨fun _ => ?_, hoff _, fun h => absurd h herr⟩
        rw [hattrs.1 herr, drop_acquire_inside rfl hdev]
      · rename_i hok
        refine ⟨fun h => absurd rfl h, hoff _, fun _ _ => ?_⟩
        rw [hattrs.2 (not_not.mp hok)]

/-- The registration from the character device on. When it fails it has undone
what it did, but the owner stays. -/
structure RegisterCase (w : ProbeWorld) (card : ProbeCard) (books : Books)
    (r : Int × ProbeCard × Books) : Prop where
  failed : r.1 ≠ 0 → r.2 = ({ card with cdevOwner := true }, books)
  cdev : w.cdevAdd ≠ 0 ∨ w.deviceCreate ≠ 0 → r.1 ≠ 0
  off : w.cdevAdd = 0 → w.deviceCreate = 0 → w.configSysfs = false →
    r = (0, { card with cdevOwner := true },
      (books.acquire .cdev).acquire .device)
  created : r.1 = 0 → w.configSysfs = true →
    r.2 = ({ card with cdevOwner := true, sysfsFilesCreated := true },
      withChannels card.nChannels
        ((((books.acquire .cdev).acquire .device).acquire
          .attrGroup).acquire .channelsDir))

theorem cardRegister_case (hacq : w.confAcq = 0) (hconf : w.confChannels = 0)
    (hcard : books.held .card ≠ 0) (hchannels : books.held .channels ≠ 0) :
    RegisterCase w card books (sis33CardRegister w card books) := by
  have hcdev : drop .cdev (books.acquire .cdev) = books := drop_acquire_inside rfl hcard
  unfold sis33CardRegister
  rw [if_neg (not_not.mpr hacq), if_neg (not_not.mpr hconf)]
  by_cases hadd : w.cdevAdd = 0
  · by_cases hcreate : w.deviceCreate = 0
    · have heq : sis33CreateCdev w card books =
          (0, { card with cdevOwner := true },
            (books.acquire .cdev).acquire .device) := by
        unfold sis33CreateCdev
        rw [if_neg (not_not.mpr hadd), if_neg (not_not.mpr hcreate)]
      have hheld : ∀ q, q ≠ .cdev → q ≠ .device →
          ((books.acquire .cdev).acquire .device).held q = books.held q :=
        fun q hq hq' => by
          rw [Ledger.acquire_held, if_neg hq', Ledger.acquire_held, if_neg hq]
      have hdev : ((books.acquire .cdev).acquire .device).held .device ≠ 0 := by
        rw [Ledger.acquire_held, if_pos rfl]
        exact Nat.succ_ne_zero _
      have hsysfs := createSysfsFiles_case (w := w)
        { card with cdevOwner := true } ((books.acquire .cdev).acquire .device)
        (by rwa [hheld _ Resource.noConfusion Resource.noConfusion])
        (by rwa [hheld _ Resource.noConfusion Resource.noConfusion]) hdev
      rw [heq]
      dsimp only
      rw [if_neg (not_not.mpr rfl)]
      split
      · rename_i herr
        refine ⟨fun _ => ?_, fun _ => herr, fun _ _ hoff => ?_,
          fun h => absurd h herr⟩
        · rw [hsysfs.failed herr]
          dsimp only [sis33DestroyCdev]
          rw [drop_acquire_of_none rfl, hcdev]
        · rw [hsysfs.off hoff] at herr
          exact absurd rfl herr
      · rename_i hok
        exact ⟨fun h => absurd h hok,
          fun h => h.elim (absurd hadd) (absurd hcreate),
          fun _ _ hoff => hsysfs.off hoff, hsysfs.created⟩
    · have heq : sis33CreateCdev w card books =
          (w.deviceCreate, { card with cdevOwner := true }, books) := by
        unfold sis33CreateCdev
        rw [if_neg (not_not.mpr hadd), if_pos hcreate, hcdev]
      rw [heq]
      dsimp only
      rw [if_pos hcreate]
      exact ⟨fun _ => rfl, fun _ => hcreate, fun _ h => absurd h hcreate,
        fun h => absurd h hcreate⟩
  · have heq : sis33CreateCdev w card books =
        (w.cdevAdd, { card with cdevOwner := true }, books) := by
      unfold sis33CreateCdev
      rw [if_pos hadd]
    rw [heq]
    dsimp only
    rw [if_pos hadd]
    exact ⟨fun _ => rfl, fun _ => hadd, fun h => absurd h hadd,
      fun h => absurd h hadd⟩

/-! ## The module -/

def createdBooks (idx : Nat) : Books := Ledger.acquireAll [.card, .slot idx] {}

def readyBooks (idx : Nat) : Books :=
  Ledger.acquireAll [.card, .slot idx, .priv, .channels, .segments, .irq] {}

theorem balanced_empty : ({} : Books).Balanced := ⟨fun _ => rfl, rfl⟩

theorem cardLock_error {error : Int} (h : sis33CardLock w = .error error) :
    error ≠ 0 := by
  have hne : ∀ x : Int, x ≠ 0 → Except.error x = (.error error : Except Int Nat) →
      error ≠ 0 := by
    rintro x hx heq
    rwa [← Except.error.inj heq]
  unfold sis33CardLock at h
  split at h
  · split at h
    · cases h
    · exact hne _ (by decide) h
  · split at h
    · exact hne _ (by decide) h
    · cases h

theorem cardCreate_cases :
    (∃ error, error ≠ 0 ∧ sis33CardCreate w {} = (.error error, {})) ∨
      ∃ idx, (w.index.any fun idx => idx ≥ SIS33_MAX_DEVICES) = false ∧
        w.kzallocCard = true ∧ sis33CardLock w = .ok idx ∧
        sis33CardCreate w {} = (.ok { number := idx }, createdBooks idx) := by
  unfold sis33CardCreate
  cases hindex : w.index.any fun idx => idx ≥ SIS33_MAX_DEVICES with
  | true => exact .inl ⟨-EINVAL, by decide, rfl⟩
  | false =>
    cases hcard : w.kzallocCard with
    | false => exact .inl ⟨-ENOMEM, by decide, rfl⟩
    | true =>
      cases hslot : sis33CardLock w with
      | error error =>
        refine .inl ⟨error, cardLock_error hslot, ?_⟩
        rw [if_neg (by decide), if_neg (by decide)]
        dsimp only
        rw [drop_acquire_of_none rfl]
      | ok idx => exact .inr ⟨idx, rfl, rfl, rfl, rfl⟩

theorem cardFree_created {idx : Nat} (hnum : card.number = idx)
    (howner : card.cdevOwner = false) (hfiles : card.sysfsFilesCreated = false) :
    (sis33CardFree w card (createdBooks idx)).Balanced := by
  have heq : sis33CardFree w card (createdBooks idx) = {} := by
    have hfree := @cardFree_plain w {} card howner hfiles
    rw [hnum] at hfree
    exact hfree
  rw [heq]
  exact balanced_empty

theorem deviceInit_cases (books : Books) :
    (∃ error, error ≠ 0 ∧ sis3320DeviceInit w books = (error, books)) ∨
      w.identified = true ∧ w.vmeRequestIrq = 0 ∧
        sis3320DeviceInit w books = (0, books.acquire .irq) := by
  unfold sis3320DeviceInit
  cases w.identified with
  | false => exact .inl ⟨-ENODEV, by decide, rfl⟩
  | true =>
    by_cases hirq : w.vmeRequestIrq = 0
    · rw [if_neg (by decide), if_neg (not_not.mpr hirq)]
      exact .inr ⟨rfl, hirq, rfl⟩
    · rw [if_neg (by decide), if_pos hirq]
      exact .inl ⟨_, hirq, rfl⟩

theorem cardRegister_conf (card : ProbeCard) (books : Books)
    (h : ¬(w.confAcq = 0 ∧ w.confChannels = 0)) :
    ∃ error, error ≠ 0 ∧ sis33CardRegister w card books = (error, card, books) := by
  unfold sis33CardRegister
  by_cases hacq : w.confAcq = 0
  · have hconf : w.confChannels ≠ 0 := fun hconf => h ⟨hacq, hconf⟩
    rw [if_neg (not_not.mpr hacq), if_pos hconf]
    exact ⟨_, hconf, rfl⟩
  · rw [if_pos hacq]
    exact ⟨_, hacq, rfl⟩

theorem probe_of_not_reaches (h : ¬ReachesCdev w) :
    (sis3320Probe w).1 ≠ 0 ∧ (sis3320Probe w).2.2.Balanced := by
  unfold sis3320Probe
  obtain ⟨error, hne, hcreate⟩ | ⟨idx, hindex, hcard, hslot, hcreate⟩ :=
    cardCreate_cases (w := w)
  · rw [hcreate]
    exact ⟨hne, balanced_empty⟩
  rw [hcreate]
  dsimp only
  by_cases hpriv : w.kzallocPriv = true
  swap
  · rw [if_pos (by simpa using hpriv)]
    exact ⟨(by decide : -ENOMEM ≠ 0), cardFree_created rfl rfl rfl⟩
  rw [if_neg (by simpa using hpriv)]
  by_cases hchannels : w.kcallocChannels = true
  swap
  · rw [if_pos (by simpa using hchannels), drop_acquire_of_none rfl]
    exact ⟨(by decide : -ENOMEM ≠ 0), cardFree_created rfl rfl rfl⟩
  rw [if_neg (by simpa using hchannels)]
  by_cases hsegments : w.kcallocSegments = true
  swap
  · rw [if_pos (by simpa using hsegments), drop_acquire_of_none rfl,
      drop_acquire_of_none rfl]
    exact ⟨(by decide : -ENOMEM ≠ 0), cardFree_created rfl rfl rfl⟩
  rw [if_neg (by simpa using hsegments)]
  obtain ⟨error, hne, hinit⟩ | ⟨hid, hirq, hinit⟩ := deviceInit_cases (w := w)
    ((((createdBooks idx).acquire .priv).acquire .channels).acquire .segments)
  · rw [hinit]
    dsimp only
    rw [if_pos hne, drop_acquire_of_none rfl, drop_acquire_of_none rfl,
      drop_acquire_of_none rfl]
    exact ⟨hne, cardFree_created rfl rfl rfl⟩
  have hconf : ¬(w.confAcq = 0 ∧ w.confChannels = 0) := fun hconf =>
    h ⟨hindex, hcard, ⟨idx, hslot⟩, hpriv, hchannels, hsegments, hid, hirq,
      hconf.1, hconf.2⟩
  rw [hinit]
  dsimp only
  rw [if_neg (not_not.mpr rfl)]
  obtain ⟨error, hne, hregister⟩ := cardRegister_conf
    { number := idx, nChannels := SIS3320_NR_CHANNELS }
    (((((createdBooks idx).acquire .priv).acquire .channels).acquire
      .segments).acquire .irq) hconf
  rw [hregister]
  dsimp only [sis3320DeviceExit]
  rw [if_neg hne, drop_acquire_of_none rfl, drop_acquire_of_none rfl,
    drop_acquire_of_none rfl, drop_acquire_of_none rfl]
  exact ⟨hne, cardFree_created rfl rfl rfl⟩

theorem probe_of_reaches (h : ReachesCdev w) :
    ∃ idx, sis3320Probe w =
      let r := sis33CardRegister w
        { number := idx, nChannels := SIS3320_NR_CHANNELS } (readyBooks idx)
      if r.1 = 0 then (0, some r.2.1, r.2.2)
      else
        (r.1, none, sis33CardFree w r.2.1
          (drop .priv (drop .channels (drop .segments (drop .irq r.2.2))))) := by
  obtain ⟨idx, hslot⟩ := h.slot
  have hcreate : sis33CardCreate w {} =
      (.ok { number := idx }, createdBooks idx) := by
    unfold sis33CardCreate
    rw [h.index, h.kzallocCard, hslot]
    rfl
  have hinit : ∀ books, sis3320DeviceInit w books = (0, books.acquire .irq) := by
    intro books
    unfold sis3320DeviceInit
    rw [h.identified, if_neg (by decide), if_neg (not_not.mpr h.vmeRequestIrq)]
  refine ⟨idx, ?_⟩
  unfold sis3320Probe
  rw [hcreate, h.kzallocPriv, h.kcallocChannels, h.kcallocSegments]
  dsimp only
  rw [if_neg (by decide), if_neg (by decide), if_neg (by decide), hinit]
  dsimp only
  rw [if_neg (not_not.mpr rfl)]
  rfl

/-! ## Failure and removal -/

theorem readyBooks_held (idx : Nat) :
    (readyBooks idx).held .card = 1 ∧ (readyBooks idx).held .channels = 1 ∧
      (readyBooks idx).held .device = 0 := by
  refine ⟨?_, ?_, ?_⟩ <;>
  · rw [readyBooks, Ledger.acquireAll_held]
    rfl

theorem register_case (h : ReachesCdev w) (idx : Nat) :
    let card : ProbeCard := { number := idx, nChannels := SIS3320_NR_CHANNELS }
    RegisterCase w card (readyBooks idx)
      (sis33CardRegister w card (readyBooks idx)) := by
  obtain ⟨hcard, hchannels, -⟩ := readyBooks_held idx
  exact cardRegister_case h.confAcq h.confChannels (by omega) (by omega)

theorem probe_failed_stray (h : ReachesCdev w) (hfail : (sis3320Probe w).1 ≠ 0) :
    (sis3320Probe w).2.2.stray = true := by
  obtain ⟨idx, hprobe⟩ := probe_of_reaches h
  have hregister := register_case h idx
  rw [hprobe] at hfail ⊢
  dsimp only at hfail hregister ⊢
  generalize sis33CardRegister w _ _ = r at hfail hregister ⊢
  by_cases hok : r.1 = 0
  · rw [if_pos hok] at hfail
    exact absurd rfl hfail
  · rw [if_neg hok, hregister.failed hok]
    apply cardFree_stray rfl rfl
    rw [drop_held_of_ne Resource.noConfusion, drop_held_of_ne Resource.noConfusion,
      drop_held_of_ne Resource.noConfusion, drop_held_of_ne Resource.noConfusion]
    exact (readyBooks_held idx).2.2

theorem foldl_drop_segmentBuffers (books : Books) :
    (segmentBuffers w).foldl (fun books r => drop r books) books =
      Ledger.releaseAll (segmentBuffers w) books := by
  have hnone : ∀ r ∈ segmentBuffers w, r.inside = none := by
    intro r hr
    unfold segmentBuffers at hr
    obtain ⟨i, -, hi⟩ := List.mem_flatMap.mp hr
    obtain hi | hi := List.mem_append.mp hi
    · split at hi
      · rw [List.mem_singleton.mp hi]
        rfl
      · cases hi
    · split at hi
      · rw [List.mem_singleton.mp hi]
        rfl
      · cases hi
  generalize segmentBuffers w = rs at hnone
  induction rs generalizing books with
  | nil => rfl
  | cons r rs ih =>
    rw [List.foldl_cons, Ledger.releaseAll,
      ih _ (fun r hr => hnone r (List.mem_cons_of_mem _ hr)),
      drop_of_none (hnone r List.mem_cons_self)]

theorem notMem_segmentBuffers (he : ∀ i, q ≠ .events i)
    (hp : ∀ i, q ≠ .prevticks i) : q ∉ segmentBuffers w := by
  intro hq
  unfold segmentBuffers at hq
  obtain ⟨i, -, hi⟩ := List.mem_flatMap.mp hq
  obtain hi | hi := List.mem_append.mp hi
  · split at hi
    · exact he i (List.mem_singleton.mp hi)
    · cases hi
  · split at hi
    · exact hp i (List.mem_singleton.mp hi)
    · cases hi

theorem dropChannels_of_stray {is : List Nat} (h : books.stray = true) :
    (is.foldl (fun books i => drop (.channel i) books) books).stray = true := by
  induction is generalizing books with
  | nil => exact h
  | cons i is ih => exact ih (drop_of_stray h)

theorem dropChannels_lost {is : List Nat} (hne : is ≠ [])
    (h : books.held .channels = 0) :
    (is.foldl (fun books i => drop (.channel i) books) books).stray = true := by
  cases is with
  | nil => exact absurd rfl hne
  | cons i is =>
    rw [List.foldl_cons]
    exact dropChannels_of_stray (drop_lost (r := .channel i) rfl h)

theorem remove_stray (hconfig : w.configSysfs = true)
    (hfiles : card.sysfsFilesCreated = true) (hn : card.nChannels ≠ 0)
    (hheld : books.held .channels = 1) :
    (sis3320Remove w card books).stray = true := by
  have hgone : (drop .priv (drop .channels (drop .segments
      ((segmentBuffers w).foldl (fun books r => drop r books)
        (drop .irq books))))).held .channels = 0 := by
    have hone : (drop .segments ((segmentBuffers w).foldl
        (fun books r => drop r books) (drop .irq books))).held .channels = 1 := by
      rw [drop_held_of_ne Resource.noConfusion, foldl_drop_segmentBuffers,
        Ledger.releaseAll_held_of_notMem
          (notMem_segmentBuffers (fun _ => Resource.noConfusion)
            fun _ => Resource.noConfusion),
        drop_held_of_ne Resource.noConfusion, hheld]
    rw [drop_held_of_ne Resource.noConfusion, drop_of_none rfl,
      Ledger.release_held (by omega), if_pos rfl, hone]
  have hsysfs : ∀ books : Books, books.held .channels = 0 →
      (sis33RemoveSysfsFiles w card books).stray = true := by
    intro books hzero
    unfold sis33RemoveSysfsFiles
    rw [hconfig, hfiles, if_neg (by decide), if_neg (by decide)]
    exact drop_of_stray (drop_of_stray
      (dropChannels_lost (fun h => hn (List.range_eq_nil.mp h)) hzero))
  have hlost := hsysfs _ hgone
  unfold sis3320Remove sis33CardFree sis3320DeviceExit
  dsimp only
  apply drop_of_stray
  apply drop_of_stray
  split
  · exact drop_of_stray (drop_of_stray hlost)
  · exact hlost

theorem remove_balanced (hconfig : w.configSysfs = false)
    (howner : card.cdevOwner = true) :
    (sis3320Remove w card (Ledger.acquireAll (segmentBuffers w)
      (((readyBooks card.number).acquire .cdev).acquire .device))).Balanced := by
  have hall : Ledger.acquireAll (segmentBuffers w)
      (((readyBooks card.number).acquire .cdev).acquire .device) =
      Ledger.acquireAll ([.card, .slot card.number, .priv, .channels, .segments,
        .irq, .cdev, .device] ++ segmentBuffers w) {} := by
    rw [Ledger.acquireAll_append]
    rfl
  -- The card is still there when its character device is taken off.
  have hcard : ∀ books : Books, books.held .card ≠ 0 →
      sis33DestroyCdev books = (books.release .device).release .cdev := by
    intro books hheld
    have hdev : drop .device books = books.release .device := drop_of_none rfl
    unfold sis33DestroyCdev
    rw [hdev, drop_of_held (r := .cdev) rfl]
    rwa [Ledger.release_held_of_ne Resource.noConfusion]
  have hremove : ∀ books : Books, books.held .card ≠ 0 →
      sis3320Remove w card books = Ledger.releaseAll
        ([.irq] ++ (segmentBuffers w ++ [.segments, .channels, .priv, .device,
          .cdev, .slot card.number, .card])) books := by
    intro books hheld
    rw [Ledger.releaseAll_append, Ledger.releaseAll_append]
    have hsysfs : ∀ books, sis33RemoveSysfsFiles w card books = books := by
      intro books
      unfold sis33RemoveSysfsFiles
      rw [hconfig]
      rfl
    unfold sis3320Remove sis33CardFree sis3320DeviceExit
    dsimp only
    rw [hsysfs, howner, if_pos rfl, foldl_drop_segmentBuffers, hcard]
    · rw [drop_of_none rfl, drop_of_none rfl, drop_of_none rfl,
        drop_of_none rfl, drop_of_none rfl, drop_of_none rfl]
      rfl
    · rw [drop_held_of_ne Resource.noConfusion,
        drop_held_of_ne Resource.noConfusion,
        drop_held_of_ne Resource.noConfusion,
        Ledger.releaseAll_held_of_notMem
          (notMem_segmentBuffers (fun _ => Resource.noConfusion)
            fun _ => Resource.noConfusion),
        drop_held_of_ne Resource.noConfusion]
      exact hheld
  rw [hall, hremove, Ledger.balanced_iff_perm, List.perm_iff_count]
  · intro q
    simp only [List.count_append, List.count_cons, List.count_nil]
    omega
  · rw [Ledger.acquireAll_held, List.count_append]
    simp

/-- Probing and removing a card leaves the books balanced if and only if the
probe fails before the character device is added, or nothing fails and there is
no sysfs. -/
theorem sis3320Probe_cleansUp_iff (w : ProbeWorld) :
    CleansUp w ↔
      ¬ReachesCdev w ∨
        w.cdevAdd = 0 ∧ w.deviceCreate = 0 ∧ w.configSysfs = false := by
  by_cases hreach : ReachesCdev w
  swap
  · obtain ⟨hne, hbalanced⟩ := probe_of_not_reaches hreach
    exact iff_of_true ⟨fun _ => hbalanced, fun h0 => absurd h0 hne⟩ (.inl hreach)
  obtain ⟨idx, hprobe⟩ := probe_of_reaches hreach
  have hregister := register_case hreach idx
  have hstray := probe_failed_stray hreach
  unfold CleansUp
  rw [hprobe] at hstray ⊢
  dsimp only at hregister hstray ⊢
  generalize sis33CardRegister w _ _ = r at hregister hstray ⊢
  by_cases hok : r.1 = 0
  · rw [if_pos hok]
    have hcdev : w.cdevAdd = 0 ∧ w.deviceCreate = 0 := by
      by_contra hcdev
      exact hregister.cdev (by tauto) hok
    cases hconfig : w.configSysfs with
    | false =>
      refine iff_of_true ⟨fun h => absurd rfl h, fun _ card hcard => ?_⟩
        (.inr ⟨hcdev.1, hcdev.2, rfl⟩)
      have hr := hregister.off hcdev.1 hcdev.2 hconfig
      rw [hr] at hcard ⊢
      obtain rfl := Option.some.inj hcard
      exact remove_balanced hconfig rfl
    | true =>
      refine iff_of_false ?_ (fun h => h.elim (absurd hreach) fun h => by
        cases h.2.2)
      rintro ⟨-, hremove⟩
      have hr := hregister.created hok hconfig
      have hbalanced := hremove rfl r.2.1 rfl
      rw [hr] at hbalanced
      refine Ledger.not_balanced_of_stray
        (remove_stray hconfig rfl (by decide : SIS3320_NR_CHANNELS ≠ 0) ?_)
        hbalanced
      rw [Ledger.acquireAll_held, List.count_eq_zero_of_not_mem
          (notMem_segmentBuffers (fun _ => Resource.noConfusion)
            fun _ => Resource.noConfusion),
        withChannels_held (fun _ => Resource.noConfusion),
        Ledger.acquire_held, if_neg Resource.noConfusion,
        Ledger.acquire_held, if_neg Resource.noConfusion,
        Ledger.acquire_held, if_neg Resource.noConfusion,
        Ledger.acquire_held, if_neg Resource.noConfusion,
        (readyBooks_held idx).2.1]
  · rw [if_neg hok] at hstray ⊢
    refine iff_of_false ?_ ?_
    · rintro ⟨hbalanced, -⟩
      exact Ledger.not_balanced_of_stray (hstray hok) (hbalanced hok)
    · rintro (h | ⟨hadd, hcreate, hoff⟩)
      · exact h hreach
      · rw [hregister.off hadd hcreate hoff] at hok
        exact hok rfl

/-- The first card, for which `cdev_add()` has no memory. -/
theorem sis3320Probe_cdevAdd_fails : ¬∀ w : ProbeWorld, CleansUp w := by
  intro h
  let w : ProbeWorld :=
    { configSysfs := true, index := none, cardsLock := fun _ => false,
      kzallocCard := true, kzallocPriv := true, kcallocChannels := true,
      kcallocSegments := true, identified := true, vmeRequestIrq := 0,
      confAcq := 0, confChannels := 0, cdevAdd := -ENOMEM, deviceCreate := 0,
      sysfsCreateGroup := 0, addChannelsDir := 0, addChannel := fun _ => 0,
      events := fun _ => false, prevticks := fun _ => false }
  have hfail : (sis3320Probe w).1 ≠ 0 := by decide
  have hstray : (sis3320Probe w).2.2.stray = true := by decide
  exact Ledger.not_balanced_of_stray hstray ((h w).1 hfail)

end Books

end Coht.Sis33.Probe
