import Coht.InsLib.InstallFile

/-!
# What an install file describes

`InstallDoc` is a file that keeps to the schema of the `README`: a host with its
drivers, a driver with its modules, and a module with its address, its address
spaces and its interrupt, in any order. `WellNested` says that a tree of nodes is
such a file, with texts and comments anywhere between the elements.

`doElement_wellNested` takes the walk over the nodes apart: it is one step for
each element, in the order of the file. `Outcome.Counts` and `Outcome.Clean` are
the two things to know of a step. The errors never get fewer, and null has its
error; so in a walk that ends without errors there was none at any step.
-/

namespace Coht.InsLib

/-! ## Documents -/

/-- The attributes of an element, with names of their own. -/
structure Attrs where
  list : List XmlAttr
  unique : (list.map XmlAttr.name).Nodup

inductive Item
  | address (k : Kind) (attrs : Attrs)
  | space (k : Kind) (attrs : Attrs)
  | interrupt (attrs : Attrs)

def Item.key : Item → KeyWord
  | .address .pci _ => .pci
  | .address .vme _ => .vme
  | .address .car _ => .carrier
  | .space .pci _ => .pciSpace
  | .space .vme _ => .vmeSpace
  | .space .car _ => .carrierSpace
  | .interrupt _ => .interrupt

def Item.attrs : Item → Attrs
  | .address _ attrs | .space _ attrs | .interrupt attrs => attrs

/-- The interrupts among the items. -/
def interrupts (items : List Item) : List Attrs :=
  items.filterMap fun
    | .interrupt attrs => some attrs
    | _ => none

/-- The address spaces of one kind. -/
def spacesOf (k : Kind) (items : List Item) : List Attrs :=
  items.filterMap fun
    | .space k' attrs => if k' = k then some attrs else none
    | _ => none

structure ModuleDoc where
  attrs : Attrs
  items : List Item
  oneInterrupt : (interrupts items).length ≤ 1

structure DriverDoc where
  attrs : Attrs
  modules : List ModuleDoc

structure InstallDoc where
  attrs : Attrs
  drivers : List DriverDoc

/-! ## Nodes that are a document -/

section Nested

variable {α : Type}

/-- There is no element here, nor inside of what is here. -/
def XmlNode.Bare : XmlNode → Prop
  | .nil => True
  | .element .. => False
  | .other children next => children.Bare ∧ next.Bare

/-- The elements in a row of siblings, each with the meaning that `P` gives it. -/
def XmlNode.Elements (P : KeyWord → List XmlAttr → XmlNode → α → Prop) :
    XmlNode → List α → Prop
  | .nil, l => l = []
  | .element _ _ _ _, [] => False
  | .element name prop children next, a :: l =>
    P (lookUp name) prop children a ∧ next.Elements P l
  | .other children next, l => children.Bare ∧ next.Elements P l

def IsItem (key : KeyWord) (prop : List XmlAttr) (children : XmlNode)
    (item : Item) : Prop :=
  key = item.key ∧ prop = item.attrs.list ∧ children.Bare

def IsModule (key : KeyWord) (prop : List XmlAttr) (children : XmlNode)
    (m : ModuleDoc) : Prop :=
  key = .module ∧ prop = m.attrs.list ∧ children.Elements IsItem m.items

def IsDriver (key : KeyWord) (prop : List XmlAttr) (children : XmlNode)
    (d : DriverDoc) : Prop :=
  key = .driver ∧ prop = d.attrs.list ∧ children.Elements IsModule d.modules

/-- The root of the file is the element `install`, and only comments follow
it. -/
def WellNested : XmlNode → InstallDoc → Prop
  | .element name prop children next, doc =>
    lookUp name = .install ∧ prop = doc.attrs.list ∧
      children.Elements IsDriver doc.drivers ∧ next.Bare
  | _, _ => False

end Nested

/-! ## What holds of any step -/

section After

class HasState (α : Type) where
  state : α → State

instance : HasState State := ⟨id⟩

instance {β : Type} : HasState (State × β) := ⟨Prod.fst⟩

variable {α β R : Type} [HasState α] [HasState β]

/-- From `s` on, the errors do not get fewer and the host stays; where null is
returned, an error is counted. -/
def Outcome.After (s : State) : Outcome α → Prop
  | .ok a => s.errors ≤ (HasState.state a).errors ∧
      (s.hostd.isSome → (HasState.state a).hostd.isSome)
  | .null errors => s.errors < errors
  | .fault errors => s.errors ≤ errors

variable {s : State} {o : Outcome α}

theorem Outcome.After.bind {f : α → Outcome β} (ho : o.After s)
    (hf : ∀ a, (f a).After (HasState.state a)) : (o.bind f).After s := by
  cases o with
  | null e => exact ho
  | fault e => exact ho
  | ok a =>
    have hfa := hf a
    simp only [Outcome.bind]
    cases h : f a with
    | null e =>
      rw [h] at hfa
      exact Nat.lt_of_le_of_lt ho.1 hfa
    | fault e =>
      rw [h] at hfa
      exact Nat.le_trans ho.1 hfa
    | ok b =>
      rw [h] at hfa
      exact ⟨Nat.le_trans ho.1 hfa.1, fun hs => hfa.2 (ho.2 hs)⟩

/-- What is known of a piece of the walk that ends without errors: it comes to an
end as described, or it leads out of memory, and then not `good`. -/
structure Ends (o : Outcome α) (good : Prop) (post : α → Prop) : Prop where
  ok : ∀ a, o = .ok a → (HasState.state a).errors = 0 → post a
  fault : ∀ e, o = .fault e → e = 0 → ¬ good

theorem Ends.bind {good₁ good₂ good : Prop} {post₁ : α → Prop} {post₂ : β → Prop}
    {f : α → Outcome β} (ho : Ends o good₁ post₁)
    (hf : ∀ a, (HasState.state a).errors = 0 → post₁ a → Ends (f a) good₂ post₂)
    (hafter : ∀ a, (f a).After (HasState.state a)) (h₁ : good → good₁)
    (h₂ : good → good₂) : Ends (o.bind f) good post₂ := by
  cases o with
  | null e => exact ⟨fun b hb => (by cases hb), fun e he => (by cases he)⟩
  | fault e =>
    refine ⟨fun b hb => (by cases hb), ?_⟩
    rintro _ ⟨⟩ he hgood
    exact ho.fault e rfl he (h₁ hgood)
  | ok a =>
    have hfa := hafter a
    constructor
    · intro b hb h₀
      rw [show f a = .ok b from hb] at hfa
      have ha : (HasState.state a).errors = 0 :=
        Nat.le_zero.mp (h₀ ▸ hfa.1)
      exact (hf a ha (ho.ok a rfl ha)).ok b hb h₀
    · intro e he h₀ hgood
      rw [show f a = .fault e from he] at hfa
      have ha : (HasState.state a).errors = 0 := Nat.le_zero.mp (h₀ ▸ hfa)
      exact (hf a ha (ho.ok a rfl ha)).fault e he h₀ (h₂ hgood)

theorem after_andThen {rows : List (Row R)} {attrs : List XmlAttr}
    {pvalu : Option CString} {r : R} {n : Nat} {f : R → Nat → Outcome α}
    (hn : s.errors ≤ n) (hf : ∀ r errors, n ≤ errors → (f r errors).After s) :
    ((attrLoop rows attrs pvalu r n).andThen f).After s := by
  have herr : n ≤ (attrLoop rows attrs pvalu r n).errors := attrLoop_errors
  cases h : attrLoop rows attrs pvalu r n with
  | done r' e =>
    rw [h] at herr
    exact hf r' e herr
  | left r' e =>
    rw [h] at herr
    exact hf r' e herr
  | failed e => exact Nat.lt_of_le_of_lt hn (attrLoop_failed h)
  | fault e =>
    rw [h] at herr
    exact Nat.le_trans hn herr

variable {mem : Nat → Bool} {prop : List XmlAttr} {pvalu : Option CString}

theorem handleInstallNode_after : (handleInstallNode mem prop s).After s := by
  unfold handleInstallNode
  split
  · refine after_andThen (Nat.le_refl _) fun r e he => ?_
    exact ⟨Nat.le_trans he (Nat.le_add_right _ _), fun _ => rfl⟩
  · exact Nat.lt_succ_self _

theorem handleDriverNode_after {h : Nat} :
    (handleDriverNode mem prop h s).After s := by
  unfold handleDriverNode
  split
  · refine after_andThen (Nat.le_refl _) fun r e he => ?_
    exact ⟨Nat.le_trans he (Nat.le_add_right _ _), id⟩
  · exact Nat.lt_succ_self _

theorem handleModuleNode_after {d : Nat} :
    (handleModuleNode mem prop d s).After s := by
  unfold handleModuleNode
  split
  · refine after_andThen (Nat.le_refl _) fun r e he => ?_
    exact ⟨Nat.le_trans he (Nat.le_add_right _ _), id⟩
  · exact Nat.lt_succ_self _

theorem doInterrupt_after : (doInterrupt mem prop pvalu s).After s := by
  unfold doInterrupt
  split
  · exact Nat.lt_succ_self _
  · split
    · exact after_andThen (Nat.le_refl _) fun r e he => ⟨he, id⟩
    · exact Nat.lt_succ_self _

theorem parseAddressTag_after {k : Kind} {t : AddressTag k} :
    (parseAddressTag mem t prop s).After s := by
  unfold parseAddressTag
  split
  · split
    · exact Nat.le_succ _
    · exact ⟨Nat.le_succ _, id⟩
  · split
    · exact Nat.le_refl _
    · rename_i md _
      dsimp only
      generalize (!t.accepts md.desc.busType) = wrongBus
      have hle : s.errors ≤ s.errors + wrongBus.toNat := Nat.le_add_right _ _
      split
      · exact ⟨Nat.le_succ _, id⟩
      · split
        · exact ⟨Nat.le_succ_of_le hle, id⟩
        · split
          · exact ⟨Nat.le_succ_of_le hle, id⟩
          · have herr : s.errors + wrongBus.toNat ≤ (attrLoop t.table.rows prop
                none k.noFields (s.errors + wrongBus.toNat)).errors :=
              attrLoop_errors
            split <;> rename_i h <;> rw [h] at herr <;>
              replace herr := Nat.le_trans hle herr
            · exact ⟨herr, id⟩
            · split
              · exact ⟨Nat.le_succ_of_le herr, id⟩
              · exact ⟨herr, id⟩
            · exact ⟨herr, id⟩
            · exact herr

theorem doSpace_after {k : Kind} {t : SpaceTag k} :
    (doSpace mem t prop pvalu s).After s := by
  unfold doSpace
  split
  · exact Nat.lt_succ_self _
  · split
    · exact Nat.le_refl _
    · split
      · refine after_andThen (Nat.le_refl _) fun r e he => ?_
        dsimp only
        split
        · exact Nat.le_trans he (Nat.le_add_right _ _)
        · rename_i hlink
          obtain ⟨modls, last, rfl⟩ := t.links hlink
          exact ⟨Nat.le_trans he (Nat.le_add_right _ _), id⟩
      · exact Nat.lt_succ_self _

theorem after_pair {o : Outcome State} (ho : o.After s) :
    (o.bind fun s => .ok (s, pvalu)).After s :=
  ho.bind fun _ => ⟨Nat.le_refl _, id⟩

theorem doNode_after {key : KeyWord} : (doNode mem key prop pvalu s).After s := by
  unfold doNode
  split
  case h_1 => exact after_pair handleInstallNode_after
  case h_2 =>
    split
    · exact Nat.lt_succ_self _
    · exact after_pair handleDriverNode_after
  case h_3 =>
    split
    · exact Nat.lt_succ_self _
    · exact after_pair handleModuleNode_after
  case h_4 => exact after_pair doInterrupt_after
  case h_5 => exact after_pair parseAddressTag_after
  case h_6 => exact after_pair doSpace_after
  case h_7 => exact after_pair parseAddressTag_after
  case h_8 =>
    split
    · exact Nat.lt_succ_self _
    · exact after_pair doSpace_after
  case h_9 => exact after_pair parseAddressTag_after
  case h_10 => exact after_pair doSpace_after
  case h_11 => exact ⟨Nat.le_add_right _ _, id⟩
  case h_12 => exact ⟨Nat.le_succ _, id⟩

end After

/-! ## The walk, element by element -/

section Walk

variable {α : Type}

def runAll (f : α → State × Option CString → Outcome (State × Option CString)) :
    List α → State × Option CString → Outcome (State × Option CString)
  | [], r => .ok r
  | a :: l, r => (f a r).bind (runAll f l)

variable (mem : Nat → Bool)

def runItem (item : Item) (r : State × Option CString) :
    Outcome (State × Option CString) :=
  doNode mem item.key item.attrs.list r.2 r.1

def within (f : State × Option CString → Outcome (State × Option CString))
    (r : State × Option CString) : Outcome (State × Option CString) :=
  (f (r.1, none)).bind fun r' => .ok (r'.1, r.2)

def runModule (m : ModuleDoc) (r : State × Option CString) :
    Outcome (State × Option CString) :=
  (doNode mem .module m.attrs.list r.2 r.1).bind
    (within (runAll (runItem mem) m.items))

def runDriver (d : DriverDoc) (r : State × Option CString) :
    Outcome (State × Option CString) :=
  (doNode mem .driver d.attrs.list r.2 r.1).bind
    (within (runAll (runModule mem) d.modules))

def runInstall (doc : InstallDoc) (s : State) : Outcome State :=
  (doNode mem .install doc.attrs.list none s).bind fun r =>
    (runAll (runDriver mem) doc.drivers (r.1, none)).bind fun r => .ok r.1

variable {mem} {node : XmlNode} {s : State} {pvalu : Option CString}

theorem doElement_bare (h : node.Bare) (hs : s.hostd.isSome) :
    doElement mem node pvalu s = .ok s := by
  induction node generalizing pvalu with
  | nil => rfl
  | element => exact h.elim
  | other children next ihc ihn =>
    have hnone : s.hostd.isNone = false := by simpa using hs
    rw [doElement, ihc h.1]
    simp only [Outcome.bind, hnone]
    exact ihn h.2

theorem doElement_elements {l : List α}
    {P : KeyWord → List XmlAttr → XmlNode → α → Prop}
    {f : α → State × Option CString → Outcome (State × Option CString)}
    (hstep : ∀ key prop children a (r : State × Option CString),
      P key prop children a → r.1.hostd.isSome →
      ((doNode mem key prop r.2 r.1).bind fun r' =>
        (doElement mem children none r'.1).bind fun s => .ok (s, r'.2)) = f a r)
    (hafter : ∀ a r, (f a r).After r.1)
    (h : node.Elements P l) (hs : s.hostd.isSome) :
    doElement mem node pvalu s =
      (runAll f l (s, pvalu)).bind fun r => .ok r.1 := by
  induction node generalizing l pvalu s with
  | nil =>
    subst h
    rfl
  | other children next _ ihn =>
    have hnone : s.hostd.isNone = false := by simpa using hs
    rw [doElement, doElement_bare h.1 hs]
    simp only [Outcome.bind, hnone]
    exact ihn h.2 hs
  | element name prop children next _ ihn =>
    cases l with
    | nil => exact h.elim
    | cons a l =>
      have hf := hstep (lookUp name) prop children a (s, pvalu) h.1 hs
      have hk := hafter a (s, pvalu)
      rw [runAll, ← hf]
      rw [← hf] at hk
      rw [doElement]
      dsimp only at hk ⊢
      cases hd : doNode mem (lookUp name) prop pvalu s with
      | null e => rfl
      | fault e => rfl
      | ok r' =>
        rw [hd] at hk
        cases hc : doElement mem children none r'.1 with
        | null e => simp only [Outcome.bind, hc]
        | fault e => simp only [Outcome.bind, hc]
        | ok s' =>
          have hk' : Outcome.After s (.ok (s', r'.2)) := by
            simpa only [Outcome.bind, hc] using hk
          have hs' : s'.hostd.isSome := hk'.2 hs
          have hnone : s'.hostd.isNone = false := by simpa using hs'
          simp only [Outcome.bind, hc, hnone]
          exact ihn h.2 hs'

theorem runAll_after {l : List α} {r : State × Option CString}
    {f : α → State × Option CString → Outcome (State × Option CString)}
    (hf : ∀ a r, (f a r).After r.1) : (runAll f l r).After r.1 := by
  induction l generalizing r with
  | nil => exact ⟨Nat.le_refl _, id⟩
  | cons a l ih => exact (hf a r).bind fun r' => ih

theorem within_after {r : State × Option CString}
    {f : State × Option CString → Outcome (State × Option CString)}
    (hf : (f (r.1, none)).After r.1) : (within f r).After r.1 :=
  hf.bind fun _ => ⟨Nat.le_refl _, id⟩

theorem runItem_after {item : Item} {r : State × Option CString} :
    (runItem mem item r).After r.1 := doNode_after

theorem runModule_after {m : ModuleDoc} {r : State × Option CString} :
    (runModule mem m r).After r.1 :=
  doNode_after.bind fun _ => within_after (runAll_after fun _ _ => runItem_after)

theorem runDriver_after {d : DriverDoc} {r : State × Option CString} :
    (runDriver mem d r).After r.1 :=
  doNode_after.bind fun _ =>
    within_after (runAll_after fun _ _ => runModule_after)

theorem doElement_children {l : List α} {children : XmlNode}
    {P : KeyWord → List XmlAttr → XmlNode → α → Prop}
    {f : α → State × Option CString → Outcome (State × Option CString)}
    (hstep : ∀ key prop children a (r : State × Option CString),
      P key prop children a → r.1.hostd.isSome →
      ((doNode mem key prop r.2 r.1).bind fun r' =>
        (doElement mem children none r'.1).bind fun s => .ok (s, r'.2)) = f a r)
    (hafter : ∀ a r, (f a r).After r.1) (h : children.Elements P l)
    {o : Outcome (State × Option CString)} (ho : o.After s)
    (hs : s.hostd.isSome) :
    (o.bind fun r' =>
      (doElement mem children none r'.1).bind fun s => .ok (s, r'.2)) =
    o.bind (within (runAll f l)) := by
  cases o with
  | null e => rfl
  | fault e => rfl
  | ok r' =>
    have hr' : r'.1.hostd.isSome := ho.2 hs
    simp only [Outcome.bind, within]
    rw [doElement_elements hstep hafter h hr']
    cases runAll f l (r'.1, none) <;> rfl

theorem doElement_item (key : KeyWord) (prop : List XmlAttr)
    (children : XmlNode) (item : Item) (r : State × Option CString)
    (h : IsItem key prop children item) (hr : r.1.hostd.isSome) :
    ((doNode mem key prop r.2 r.1).bind fun r' =>
      (doElement mem children none r'.1).bind fun s => .ok (s, r'.2)) =
    runItem mem item r := by
  obtain ⟨rfl, rfl, hbare⟩ := h
  have hafter : (doNode mem item.key item.attrs.list r.2 r.1).After r.1 :=
    doNode_after
  unfold runItem
  cases hd : doNode mem item.key item.attrs.list r.2 r.1 with
  | null e => rfl
  | fault e => rfl
  | ok r' =>
    rw [hd] at hafter
    have hr' : r'.1.hostd.isSome := hafter.2 hr
    simp only [Outcome.bind, doElement_bare hbare hr']

theorem doElement_module (key : KeyWord) (prop : List XmlAttr)
    (children : XmlNode) (m : ModuleDoc) (r : State × Option CString)
    (h : IsModule key prop children m) (hr : r.1.hostd.isSome) :
    ((doNode mem key prop r.2 r.1).bind fun r' =>
      (doElement mem children none r'.1).bind fun s => .ok (s, r'.2)) =
    runModule mem m r := by
  obtain ⟨rfl, rfl, hitems⟩ := h
  exact doElement_children doElement_item (fun _ _ => runItem_after) hitems
    doNode_after hr

theorem doElement_driver (key : KeyWord) (prop : List XmlAttr)
    (children : XmlNode) (d : DriverDoc) (r : State × Option CString)
    (h : IsDriver key prop children d) (hr : r.1.hostd.isSome) :
    ((doNode mem key prop r.2 r.1).bind fun r' =>
      (doElement mem children none r'.1).bind fun s => .ok (s, r'.2)) =
    runDriver mem d r := by
  obtain ⟨rfl, rfl, hmodules⟩ := h
  exact doElement_children doElement_module (fun _ _ => runModule_after) hmodules
    doNode_after hr

theorem handleInstallNode_hostd {prop : List XmlAttr} {s' : State}
    (h : handleInstallNode mem prop s = .ok s') : s'.hostd.isSome := by
  unfold handleInstallNode at h
  split at h
  · unfold Looped.andThen at h
    split at h
    · cases h
      rfl
    · cases h
      rfl
    · cases h
    · cases h
  · cases h

theorem doElement_wellNested {root : XmlNode} {doc : InstallDoc}
    (h : WellNested root doc) (s : State) :
    doElement mem root none s = runInstall mem doc s := by
  cases root with
  | nil => exact h.elim
  | other => exact h.elim
  | element name prop children next =>
    obtain ⟨hname, rfl, hdrivers, hnext⟩ := h
    rw [doElement, hname, runInstall]
    cases hd : doNode mem .install doc.attrs.list none s with
    | null e => rfl
    | fault e => rfl
    | ok r' =>
      have hs' : r'.1.hostd.isSome := by
        simp only [doNode] at hd
        cases hi : handleInstallNode mem doc.attrs.list s with
        | null e => rw [hi] at hd; cases hd
        | fault e => rw [hi] at hd; cases hd
        | ok s' =>
          rw [hi] at hd
          cases hd
          exact handleInstallNode_hostd hi
      have hafter := runAll_after (l := doc.drivers) (r := (r'.1, none))
        (f := runDriver mem) fun _ _ => runDriver_after
      simp only [Outcome.bind]
      rw [doElement_elements doElement_driver (fun _ _ => runDriver_after)
        hdrivers hs']
      cases hall : runAll (runDriver mem) doc.drivers (r'.1, none) with
      | null e => rfl
      | fault e => rfl
      | ok r =>
        rw [hall] at hafter
        have hr : r.1.hostd.isSome := hafter.2 hs'
        have hnone : r.1.hostd.isNone = false := by simpa using hr
        simp only [Outcome.bind, hnone]
        exact doElement_bare hnext hr

end Walk

end Coht.InsLib
