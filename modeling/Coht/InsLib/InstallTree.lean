import Coht.InsLib.InstallDoc
import Mathlib.Data.List.Forall2

/-!
# The tree an install file is read into

`Builds` says that a call has returned the tree that the file describes: the
drivers and modules in their order, and with every element what its attributes
say; the address spaces of a module are on its own address, in any order, for
those of the configuration space are put first.

The code builds it if, and only if, the file is `Readable`. Every attribute has
to be one of the element's with a text that its field holds. A space has to come
after the address of its own module, for the pointer to the address is still that
of an earlier module before it. And a module can have two VME spaces, and more of
them only if they are for the configuration space, since the loop to the end of
the list does not follow the list.
-/

namespace Coht.InsLib

/-! ## The tree a file describes -/

def addressTag : (k : Kind) → AddressTag k
  | .pci => pciTag
  | .vme => vmeTag
  | .car => carTag

def spaceTag : (k : Kind) → SpaceTag k
  | .pci => pciSpaceTag
  | .vme => vmeSpaceTag
  | .car => carSpaceTag

/-- The address spaces that are reached from the module. -/
def ModlNode.spaces (node : ModlNode) (k : Kind) : List k.Space :=
  if node.moduleAddress = some k then (node.address k).spaces else []

/-- The module is as its element says, with the elements inside. -/
structure ModuleDoc.Matches (m : ModuleDoc) (node : ModlNode) : Prop where
  attrs : Described (modlTable true).rows m.attrs.list node.desc
  interrupt : ∀ a, .interrupt a ∈ m.items →
    ∃ isr, node.isr = some isr ∧ Described intrTable.rows a.list isr
  address : ∀ k a, .address k a ∈ m.items → node.moduleAddress = some k ∧
    Described (addressTag k).table.rows a.list (node.address k).fields
  spaces : ∀ k, ∃ l, l.Perm (node.spaces k) ∧
    List.Forall₂ (fun a space => Described (spaceTag k).table.rows a.list
      ((node.address k).fields, space)) (spacesOf k m.items) l

/-- The driver is as its element says. The modules of its list are those of the
element. -/
def DriverDoc.Matches (modls : List ModlNode) (d : DriverDoc)
    (node : DrvrNode) : Prop :=
  Described drvrTable.rows d.attrs.list node.desc ∧
    node.desc.moduleCount.toNat = d.modules.length ∧
    List.Forall₂ (fun m q => ∃ md, modls[q]? = some md ∧ m.Matches md)
      d.modules node.modules

def InstallDoc.Matches (s : State) (doc : InstallDoc) (host : HostNode) : Prop :=
  Described hostTable.rows doc.attrs.list host.desc ∧
    List.Forall₂ (fun d i => ∃ node, s.drvrs[i]? = some node ∧
      d.Matches s.modls node) doc.drivers host.drivers

/-- The call returns the tree that the file describes. -/
def Builds (o : Outcome State) (doc : InstallDoc) : Prop :=
  ∃ s h host, o = .ok s ∧ s.hostd = some h ∧ s.hosts[h]? = some host ∧
    doc.Matches s host

/-- `InsLibErrorCount` in the end. -/
def Outcome.errors : Outcome State → Nat
  | .ok s => s.errors
  | .null errors | .fault errors => errors

/-! ## The files the code can read -/

def Item.Fits : Item → Prop
  | .address k a => Fit (addressTag k).table.rows a.list
  | .space k a => Fit (spaceTag k).table.rows a.list
  | .interrupt a => Fit intrTable.rows a.list

/-- Each address space comes after the address of its kind. -/
def Placed (items : List Item) : Prop :=
  ∀ k pre a post, items = pre ++ .space k a :: post →
    ∃ c, Item.address k c ∈ pre

/-- The space is for the configuration space of the VME bus. -/
def CrCsr (a : Attrs) : Prop :=
  ∃ x ∈ a.list, lookUp x.name = .modifier ∧ HoldsNumber AM_A24_CR_CSR x.value

/-- A VME space that is none for the configuration is the first one or the
second. -/
def AtMostSecond (items : List Item) : Prop :=
  ∀ pre a post, items = pre ++ .space .vme a :: post → ¬ CrCsr a →
    (spacesOf .vme pre).length ≤ 1

structure ModuleDoc.Readable (m : ModuleDoc) : Prop where
  attrs : Fit (modlTable true).rows m.attrs.list
  items : ∀ item ∈ m.items, item.Fits
  placed : Placed m.items
  order : AtMostSecond m.items

structure DriverDoc.Readable (d : DriverDoc) : Prop where
  attrs : Fit drvrTable.rows d.attrs.list
  modules : ∀ m ∈ d.modules, m.Readable
  count : d.modules.length < 2 ^ 32

structure InstallDoc.Readable (doc : InstallDoc) : Prop where
  attrs : Fit hostTable.rows doc.attrs.list
  drivers : ∀ d ∈ doc.drivers, d.Readable

/-! ## Described and fit -/

section Fits

variable {R : Type} {rows : List (Row R)} {t : Table R} {a : Attrs} {r₀ r : R}

def FromLoop (rows : List (Row R)) (attrs : List XmlAttr) (r₀ r : R) : Prop :=
  ∃ pvalu n, (attrLoop rows attrs pvalu r₀ n).record = some r

theorem FromLoop.described (h : FromLoop t.rows a.list r₀ r)
    (hfit : Fit t.rows a.list) : Described t.rows a.list r := by
  obtain ⟨pvalu, n, h⟩ := h
  rcases @Table.attrLoop_described R t a.list pvalu r₀ n a.unique hfit with ⟨r', e, hdone, hdesc⟩ | ⟨e, hfailed⟩
  · rw [hdone] at h
    cases h
    exact hdesc
  · rw [hfailed] at h
    cases h

theorem attrLoop_not_fault (hfit : Fit t.rows a.list) {pvalu : Option CString}
    {n e : Nat} : attrLoop t.rows a.list pvalu r n ≠ .fault e := by
  intro h
  rcases @Table.attrLoop_described R t a.list pvalu r n a.unique hfit with ⟨r', e', hdone, -⟩ | ⟨e', hfailed⟩
  · rw [hdone] at h
    cases h
  · rw [hfailed] at h
    cases h

theorem host_fit {r : HostFields} (h : Described hostTable.rows a.list r) :
    Fit hostTable.rows a.list := by
  refine h.fit ?_
  simp [hostTable]

theorem drvr_fit {r : DrvrFields} (h : Described drvrTable.rows a.list r) :
    Fit drvrTable.rows a.list := by
  have hdrivergen : drivergenRow.Exact := fun v s h => h.imp And.left And.left
  refine h.fit ?_
  simp [drvrTable, hdrivergen]

theorem intr_fit {r : InsLibIntrDesc} (h : Described intrTable.rows a.list r) :
    Fit intrTable.rows a.list := by
  refine h.fit ?_
  simp [intrTable]

theorem modl_fit {r : ModlRec} (h : Described (modlTable true).rows a.list r)
    (hextra : r.extra = none) : Fit (modlTable true).rows a.list := by
  have hnumber : logicalModuleNumberRow.Exact := fun v s h => ⟨v, h⟩
  have hignore : ignoreInstallErrorsRow.Exact := fun _ _ _ => trivial
  have hnone : ∀ s, ¬ (extraRow true).holds ((extraRow true).get r) s := by
    intro s hs
    rw [show r.extra = some s from hs] at hextra
    cases hextra
  refine h.fit ?_
  simp [modlTable, hnumber, hignore, hnone]

theorem address_fit {k : Kind} {r : k.Fields}
    (h : Described (addressTag k).table.rows a.list r) :
    Fit (addressTag k).table.rows a.list := by
  refine h.fit ?_
  cases k
  · simp [addressTag, pciTag, pciTable]
  · simp [addressTag, vmeTag, vmeTable]
  · simp [addressTag, carTag, carTable]

def NoCarComment : (k : Kind) → k.Space → Prop
  | .car, space => space.comment = []
  | _, _ => True

theorem space_fit {k : Kind} {r : k.Fields × k.Space}
    (h : Described (spaceTag k).table.rows a.list r) (hno : NoCarComment k r.2) :
    Fit (spaceTag k).table.rows a.list := by
  refine h.fit ?_
  cases k
  · simp [spaceTag, pciSpaceTag, pciSpaceTable]
  · simp [spaceTag, vmeSpaceTag, vmeSpaceTable, modifierRow]
  · have hnone : ∀ s, ¬ carSpaceCommentRow.holds (carSpaceCommentRow.get r) s := by
      intro s hs
      exact hs.2.1 (hs.1.symm.trans hno)
    simp [spaceTag, carSpaceTag, carSpaceTable, hnone]

end Fits

/-! ## What single rows do -/

section Special

variable {b : Bool} {a : Attrs} {k : Kind}

theorem modl_rows {P : Row ModlRec → Prop}
    (hextra : P (extraRow true) → P (extraRow b)) :
    (∃ row ∈ (modlTable true).rows, P row) → ∃ row ∈ (modlTable b).rows, P row := by
  simp only [modlTable, List.mem_cons, List.not_mem_nil, or_false,
    exists_eq_or_imp, exists_eq_left]
  exact Or.imp_right (Or.imp_right (Or.imp_left hextra))

theorem modl_fit_rows (h : Fit (modlTable true).rows a.list) :
    Fit (modlTable b).rows a.list :=
  fun x hx => modl_rows (fun hP => hP) (h x hx)

theorem modl_described_rows {r : ModlRec}
    (h : Described (modlTable b).rows a.list r) :
    Described (modlTable true).rows a.list r := by
  intro x hx
  have hrow := h x hx
  cases b
  · simp only [modlTable, List.mem_cons, List.not_mem_nil, or_false,
      exists_eq_or_imp, exists_eq_left] at hrow ⊢
    exact hrow.imp_right (Or.imp_right (Or.imp_left fun hP => hP))
  · exact hrow

theorem modl_extra {r : ModlRec}
    (h : FromLoop (modlTable b).rows a.list {} r) : r.extra = none := by
  obtain ⟨pvalu, n, h⟩ := h
  refine attrLoop_keeps (P := fun r => r.extra = none) ?_ rfl h
  intro row hrow _ r p v n htake hr
  simp only [modlTable, List.mem_cons, List.not_mem_nil, or_false] at hrow
  rcases hrow with rfl | rfl | rfl | rfl | rfl | rfl
  case inr.inr.inl =>
    cases p with
    | none => cases htake
    | some s => cases b <;> cases htake
  all_goals exact hr

theorem car_space_comment {r₀ r : CarFields × InsLibCarAddressSpace}
    (h : FromLoop carSpaceTable.rows a.list r₀ r) (h₀ : r₀.2.comment = []) :
    r.2.comment = [] := by
  obtain ⟨pvalu, n, h⟩ := h
  refine attrLoop_keeps (P := fun r => r.2.comment = []) ?_ h₀ h
  intro row hrow _ r p v n _ hr
  simp only [carSpaceTable, List.mem_cons, List.not_mem_nil, or_false] at hrow
  rcases hrow with rfl | rfl | rfl <;> exact hr

theorem space_noCarComment {f : k.Fields} {r : k.Fields × k.Space}
    (h : FromLoop (spaceTag k).table.rows a.list (f, k.noSpace) r) :
    NoCarComment k r.2 := by
  cases k
  · trivial
  · trivial
  · exact car_space_comment h rfl

theorem space_fields {r₀ r : k.Fields × k.Space}
    (h : FromLoop (spaceTag k).table.rows a.list r₀ r)
    (hfit : Fit (spaceTag k).table.rows a.list) : r.1 = r₀.1 := by
  obtain ⟨pvalu, n, h⟩ := h
  refine attrLoop_keeps (P := fun r => r.1 = r₀.1) ?_ rfl h
  intro row hrow hex r p v n _ hr
  cases k
  · simp only [spaceTag, pciSpaceTag, pciSpaceTable, List.mem_cons,
      List.not_mem_nil, or_false] at hrow
    rcases hrow with rfl | rfl | rfl <;> exact hr
  · simp only [spaceTag, vmeSpaceTag, vmeSpaceTable, List.mem_cons,
      List.not_mem_nil, or_false] at hrow
    rcases hrow with rfl | rfl | rfl | rfl | rfl | rfl <;> exact hr
  · obtain ⟨x, hx, hkey⟩ := hex
    obtain ⟨row', hrow', hkey', hfits⟩ := hfit x hx
    have hsame : row' = row :=
      List.inj_on_of_nodup_map carSpaceTable.keys hrow' hrow
        (hkey'.trans hkey.symm)
    simp only [spaceTag, carSpaceTag, carSpaceTable, List.mem_cons,
      List.not_mem_nil, or_false] at hrow
    rcases hrow with rfl | rfl | rfl
    · exact hr
    · exact hr
    · rw [hsame] at hfits
      exact hfits.elim

theorem HoldsNumber.inj {v w : BitVec 32} {s : CString} (hv : HoldsNumber v s)
    (hw : HoldsNumber w s) : v = w := by
  have h : (v.toNat : Int) = w.toNat := Option.some.inj (hv.symm.trans hw)
  exact BitVec.eq_of_toNat_eq (by omega)

theorem modifier_row {row : Row (VmeFields × InsLibVmeAddressSpace)}
    (hrow : row ∈ vmeSpaceTable.rows) (hkey : row.key = .modifier)
    {r : VmeFields × InsLibVmeAddressSpace} {s : CString}
    (hholds : row.holds (row.get r) s) : HoldsNumber r.2.addressModifier s := by
  simp only [vmeSpaceTable, List.mem_cons, List.not_mem_nil, or_false] at hrow
  rcases hrow with rfl | rfl | rfl | rfl | rfl | rfl
  · exact hholds
  all_goals cases hkey

theorem crCsr_iff {f : VmeFields} {r : VmeFields × InsLibVmeAddressSpace}
    (h : FromLoop vmeSpaceTable.rows a.list (f, {}) r)
    (hfit : Fit vmeSpaceTable.rows a.list) :
    r.2.addressModifier = AM_A24_CR_CSR ↔ CrCsr a := by
  have hdesc := h.described hfit
  constructor
  · intro hcr
    by_contra hno
    have hmodifier : ∀ x ∈ a.list, lookUp x.name ≠ .modifier := by
      intro x hx heq
      obtain ⟨row, hrow, hkey, hholds⟩ := hdesc x hx
      have hnum := modifier_row hrow (hkey.trans heq) hholds
      exact hno ⟨x, hx, heq, hcr ▸ hnum⟩
    obtain ⟨pvalu, n, h⟩ := h
    have hrow : modifierRow ∈ vmeSpaceTable.rows := List.mem_cons_self
    have hzero : r.2.addressModifier = 0 :=
      vmeSpaceTable.attrLoop_get hrow hmodifier h
    rw [hzero] at hcr
    exact absurd hcr (by decide)
  · rintro ⟨x, hx, heq, hnum⟩
    obtain ⟨row, hrow, hkey, hholds⟩ := hdesc x hx
    exact (modifier_row hrow (hkey.trans heq) hholds).inj hnum

end Special

/-! ## What each function does -/

section Functions

variable {R α : Type} {rows : List (Row R)} {t : Table R} {a : Attrs} {r : R}
  {pvalu : Option CString} {n e : Nat} {mem : Nat → Bool} {s s' : State}

theorem andThen_cases {f : R → Nat → Outcome α} {out : Outcome α}
    (h : (attrLoop rows a.list pvalu r n).andThen f = out) :
    (∃ r' errors, FromLoop rows a.list r r' ∧ f r' errors = out) ∨
      (∃ errors, out = .null errors) ∨
        ∃ errors, attrLoop rows a.list pvalu r n = .fault errors ∧ out = .fault errors := by
  subst h
  cases hl : attrLoop rows a.list pvalu r n with
  | done r' errors => exact .inl ⟨r', errors, ⟨pvalu, n, by rw [hl]; rfl⟩, rfl⟩
  | left r' errors => exact .inl ⟨r', errors, ⟨pvalu, n, by rw [hl]; rfl⟩, rfl⟩
  | failed errors => exact .inr (.inl ⟨errors, rfl⟩)
  | fault errors => exact .inr (.inr ⟨errors, rfl, rfl⟩)

theorem andThen_ok {f : R → Nat → Outcome α} {x : α}
    (h : (attrLoop rows a.list pvalu r n).andThen f = .ok x) :
    ∃ r' errors, FromLoop rows a.list r r' ∧ f r' errors = .ok x := by
  rcases andThen_cases h with hfrom | ⟨errors, hnull⟩ | ⟨errors, -, hfault⟩
  · exact hfrom
  · cases hnull
  · cases hfault

theorem andThen_fault {f : R → Nat → Outcome α} (hfit : Fit t.rows a.list)
    (h : (attrLoop t.rows a.list pvalu r n).andThen f = .fault e) :
    ∃ r' errors, FromLoop t.rows a.list r r' ∧ f r' errors = .fault e := by
  rcases andThen_cases h with hfrom | ⟨errors, hnull⟩ | ⟨errors, hloop, -⟩
  · exact hfrom
  · cases hnull
  · exact absurd hloop (attrLoop_not_fault hfit)

theorem handleInstallNode_ok
    (h : handleInstallNode mem a.list s = .ok s') :
    ∃ desc errors allocs, FromLoop hostTable.rows a.list {} desc ∧
      s' = { s with
        errors := errors
        allocs := allocs
        hosts := s.hosts ++ [⟨desc, []⟩]
        hostd := some s.hosts.length } := by
  unfold handleInstallNode at h
  split at h
  · obtain ⟨desc, errors, hloop, h⟩ := andThen_ok h
    cases h
    exact ⟨desc, _, _, hloop, rfl⟩
  · cases h

theorem handleInstallNode_fault
    (h : handleInstallNode mem a.list s = .fault e) :
    ¬ Fit hostTable.rows a.list := by
  intro hfit
  unfold handleInstallNode at h
  split at h
  · obtain ⟨_, _, _, h⟩ := andThen_fault hfit h
    cases h
  · cases h

theorem handleDriverNode_ok {hostd : Nat}
    (h : handleDriverNode mem a.list hostd s = .ok s') :
    ∃ desc errors allocs, FromLoop drvrTable.rows a.list { isdg := -1 } desc ∧
      s' = { s with
        errors := errors
        allocs := allocs
        hosts := s.hosts.modify hostd (addDriverNode s.drvrs.length)
        drvrs := s.drvrs ++ [⟨desc, []⟩]
        drvrd := some s.drvrs.length } := by
  unfold handleDriverNode at h
  split at h
  · obtain ⟨desc, errors, hloop, h⟩ := andThen_ok h
    cases h
    exact ⟨desc, _, _, hloop, rfl⟩
  · cases h

theorem handleDriverNode_fault {hostd : Nat}
    (h : handleDriverNode mem a.list hostd s = .fault e) :
    ¬ Fit drvrTable.rows a.list := by
  intro hfit
  unfold handleDriverNode at h
  split at h
  · obtain ⟨_, _, _, h⟩ := andThen_fault hfit h
    cases h
  · cases h

theorem handleModuleNode_ok {drvrd : Nat}
    (h : handleModuleNode mem a.list drvrd s = .ok s') :
    ∃ b desc errors allocs, FromLoop (modlTable b).rows a.list {} desc ∧
      s' = { s with
        errors := errors
        allocs := allocs
        drvrs := s.drvrs.modify drvrd (addModuleNode s.modls.length)
        modls := s.modls ++ [{ desc }]
        modld := some s.modls.length } := by
  unfold handleModuleNode at h
  split at h
  · obtain ⟨desc, errors, hloop, h⟩ := andThen_ok h
    cases h
    exact ⟨_, desc, _, _, hloop, rfl⟩
  · cases h

theorem handleModuleNode_fault {drvrd : Nat}
    (h : handleModuleNode mem a.list drvrd s = .fault e) :
    ¬ Fit (modlTable true).rows a.list := by
  intro hfit
  unfold handleModuleNode at h
  split at h
  · obtain ⟨_, _, _, h⟩ := andThen_fault (modl_fit_rows hfit) h
    cases h
  · cases h

theorem doInterrupt_ok (h : doInterrupt mem a.list pvalu s = .ok s') :
    ∃ i isr errors allocs, s.modld = some i ∧
      FromLoop intrTable.rows a.list { isrFlag := 1 } isr ∧
      s' = { s with
        errors := errors
        allocs := allocs
        modls := s.modls.modify i fun m => { m with isr := some isr } } := by
  unfold doInterrupt at h
  split at h
  · cases h
  · rename_i i hi
    split at h
    · obtain ⟨isr, errors, hloop, h⟩ := andThen_ok h
      cases h
      exact ⟨i, isr, _, _, hi, hloop, rfl⟩
    · cases h

theorem doInterrupt_fault (h : doInterrupt mem a.list pvalu s = .fault e) :
    ¬ Fit intrTable.rows a.list := by
  intro hfit
  unfold doInterrupt at h
  split at h
  · cases h
  · split at h
    · obtain ⟨_, _, _, h⟩ := andThen_fault hfit h
      cases h
    · cases h

theorem parseAddressTag_ok {k : Kind} {t : AddressTag k}
    (h : parseAddressTag mem t a.list s = .ok s') (h₀ : s'.errors = 0) :
    ∃ i md fields allocs, s.modld = some i ∧ s.modls[i]? = some md ∧
      md.moduleAddress = none ∧
      FromLoop t.table.rows a.list k.noFields fields ∧
      s' = { s.setMa k (some i) with
        errors := 0
        allocs := allocs
        modls := s.modls.modify i fun m =>
          { m.setAddress (k := k) ⟨fields, []⟩ with
            moduleAddress := some k } } := by
  unfold parseAddressTag at h
  split at h
  · split at h
    · cases h
    · cases h
      cases h₀
  · rename_i i hi
    split at h
    · cases h
    · rename_i md hmd
      dsimp only at h
      split at h
      · cases h
        cases h₀
      · split at h
        · cases h
          cases h₀
        · split at h
          · cases h
            cases h₀
          · rename_i haddress
            have hnone : md.moduleAddress = none := by simpa using haddress
            split at h
            · rename_i fields errors hl
              cases h
              exact ⟨i, md, fields, _, hi, hmd, hnone,
                ⟨none, _, by rw [hl]; rfl⟩, by rw [show errors = 0 from h₀]⟩
            · rename_i fields errors hl
              split at h
              · cases h
                cases h₀
              · cases h
                exact ⟨i, md, fields, _, hi, hmd, hnone,
                  ⟨none, _, by rw [hl]; rfl⟩, by rw [show errors = 0 from h₀]⟩
            · rename_i errors hl
              cases h
              have hpos := attrLoop_failed hl
              rw [show errors = 0 from h₀] at hpos
              cases hpos
            · cases h

theorem parseAddressTag_fault {k : Kind} {t : AddressTag k} {i : Nat}
    (hi : s.modld = some i) (hlt : i < s.modls.length)
    (h : parseAddressTag mem t a.list s = .fault e) :
    ¬ Fit t.table.rows a.list := by
  intro hfit
  unfold parseAddressTag at h
  rw [hi] at h
  dsimp only at h
  rw [List.getElem?_eq_getElem hlt] at h
  dsimp only at h
  split at h
  · cases h
  · split at h
    · cases h
    · split at h
      · cases h
      · split at h
        · cases h
        · split at h
          · cases h
          · cases h
        · cases h
        · rename_i hl
          exact attrLoop_not_fault hfit hl

theorem doSpace_ok {k : Kind} {t : SpaceTag k}
    (h : doSpace mem t a.list pvalu s = .ok s') :
    ∃ q m r errors allocs, s.ma k = some q ∧ s.modls[q]? = some m ∧
      FromLoop t.table.rows a.list ((m.address k).fields, k.noSpace) r ∧
      t.link { s with
          errors := errors
          allocs := allocs
          modls := s.modls.set q
            (m.setAddress (k := k) { m.address k with fields := r.1 }) } q
        (m.setAddress (k := k) { m.address k with fields := r.1 }) r.2 =
        some s' := by
  unfold doSpace at h
  split at h
  · cases h
  · rename_i q hq
    split at h
    · cases h
    · rename_i m hm
      split at h
      · obtain ⟨r, errors, hloop, h⟩ := andThen_ok h
        dsimp only at h
        split at h
        · cases h
        · rename_i s'' hlink
          cases h
          exact ⟨q, m, r, _, _, hq, hm, hloop, hlink⟩
      · cases h

theorem doSpace_fault {k : Kind} {t : SpaceTag k} {q : Nat} {m : ModlNode}
    (hq : s.ma k = some q) (hm : s.modls[q]? = some m)
    (hfit : Fit t.table.rows a.list)
    (h : doSpace mem t a.list pvalu s = .fault e) :
    ∃ r errors allocs,
      FromLoop t.table.rows a.list ((m.address k).fields, k.noSpace) r ∧
      t.link { s with
          errors := errors
          allocs := allocs
          modls := s.modls.set q
            (m.setAddress (k := k) { m.address k with fields := r.1 }) } q
        (m.setAddress (k := k) { m.address k with fields := r.1 }) r.2 =
        none := by
  unfold doSpace at h
  simp only [hq, hm] at h
  split at h
  · obtain ⟨r, errors, hloop, h⟩ := andThen_fault hfit h
    split at h
    · rename_i hlink
      exact ⟨r, _, _, hloop, hlink⟩
    · cases h
  · cases h

end Functions

/-! ## Putting a space into a list -/

section Link

variable {s s' : State} {q : Nat} {m : ModlNode}

/-- The space goes to the address it is for, or, behind the space before it, to
that one's. -/
def Linked (k : Kind) (s : State) (q : Nat) (m : ModlNode) (space : k.Space)
    (s' : State) : Prop :=
  ∃ q' m' l p, (q' = q ∧ m' = m ∨ k ≠ .vme ∧ (m.address k).spaces ≠ [] ∧
      s.last k = some q' ∧ s.modls[q']? = some m') ∧
    l.Perm ((m'.address k).spaces ++ [space]) ∧
    (p = some q ∨ p = s.last k) ∧
    (k ≠ .vme → (m.address k).spaces = [] → p = some q) ∧
    s' = { s.setAddress q' (k := k) { m'.address k with spaces := l } with
      last := Function.update s.last k p }

theorem linkLast_linked {k : Kind} {space : k.Space} (hk : k ≠ .vme)
    (h : linkLast s q m space = some s') : Linked k s q m space s' := by
  unfold linkLast at h
  split at h
  · rename_i hempty
    cases h
    have hnil : (m.address k).spaces = [] := List.isEmpty_iff.mp hempty
    exact ⟨q, m, [space], some q, .inl ⟨rfl, rfl⟩, by rw [hnil]; exact .rfl,
      .inl rfl, fun _ _ => rfl, rfl⟩
  · rename_i hempty
    have hne : (m.address k).spaces ≠ [] := fun h => hempty (List.isEmpty_iff.mpr h)
    obtain ⟨q', hq', h⟩ := Option.bind_eq_some_iff.mp h
    obtain ⟨m', hm', h⟩ := Option.bind_eq_some_iff.mp h
    cases h
    refine ⟨q', m', _, s.last k, .inr ⟨hk, hne, hq', hm'⟩, .rfl, .inr rfl,
      fun _ hnil => absurd hnil hne, ?_⟩
    rw [Function.update_eq_self]
    rfl

theorem addVmeAddrSpace_perm {spaces l : List InsLibVmeAddressSpace}
    {space : InsLibVmeAddressSpace} (h : addVmeAddrSpace spaces space = some l) :
    l.Perm (spaces ++ [space]) := by
  unfold addVmeAddrSpace at h
  split at h
  · cases h
    exact .rfl
  · rename_i first rest
    split at h
    · split at h
      · rename_i hrest
        rw [List.isEmpty_iff.mp hrest]
        cases h
        exact .rfl
      · cases h
    · cases h
      exact (List.perm_append_singleton _ _).symm

theorem linkVme_linked {space : InsLibVmeAddressSpace}
    (h : linkVme s q m space = some s') : Linked .vme s q m space s' := by
  obtain ⟨l, hl, h⟩ := Option.bind_eq_some_iff.mp h
  cases h
  refine ⟨q, m, l, s.last .vme, .inl ⟨rfl, rfl⟩, addVmeAddrSpace_perm hl, .inr rfl,
    fun hk => absurd rfl hk, ?_⟩
  rw [Function.update_eq_self]
  rfl

theorem spaceTag_linked {k : Kind} {space : k.Space}
    (h : (spaceTag k).link s q m space = some s') : Linked k s q m space s' := by
  cases k
  · exact linkLast_linked (by decide) h
  · exact linkVme_linked h
  · exact linkLast_linked (by decide) h

theorem linkVme_some {space : InsLibVmeAddressSpace}
    (h : linkVme s q m space = some s')
    (hne : space.addressModifier ≠ AM_A24_CR_CSR) :
    (m.address .vme).spaces.length ≤ 1 := by
  obtain ⟨l, hl, -⟩ := Option.bind_eq_some_iff.mp h
  unfold addVmeAddrSpace at hl
  simp only [if_pos hne] at hl
  split at hl
  · rename_i hnil
    rw [hnil]
    exact Nat.zero_le _
  · rename_i first rest hcons
    split at hl
    · rename_i hrest
      rw [hcons, List.isEmpty_iff.mp hrest]
      exact Nat.le_refl _
    · cases hl

theorem linkVme_none {space : InsLibVmeAddressSpace}
    (h : linkVme s q m space = none) :
    space.addressModifier ≠ AM_A24_CR_CSR ∧ 1 < (m.address .vme).spaces.length := by
  unfold linkVme at h
  rw [Option.bind_eq_bind, Option.bind_eq_none_iff] at h
  cases hl : addVmeAddrSpace (m.address .vme).spaces space with
  | some l => cases h l hl
  | none =>
    unfold addVmeAddrSpace at hl
    split at hl
    · cases hl
    · rename_i first rest hcons
      split at hl
      · rename_i hne
        refine ⟨hne, ?_⟩
        rw [hcons]
        cases rest with
        | nil => cases hl
        | cons _ _ =>
          simp only [List.length_cons]
          omega
      · cases hl

theorem linkLast_none {k : Kind} {space : k.Space}
    (h : linkLast s q m space = none) :
    (m.address k).spaces ≠ [] ∧
      ∀ q', s.last k = some q' → s.modls[q']? = none := by
  unfold linkLast at h
  split at h
  · cases h
  · rename_i hempty
    refine ⟨fun hnil => hempty (List.isEmpty_iff.mpr hnil), ?_⟩
    intro q' hq'
    rw [hq'] at h
    cases hm : s.modls[q']? with
    | none => rfl
    | some m' =>
      rw [Option.bind_eq_bind, Option.bind_some, hm] at h
      cases h

end Link

end Coht.InsLib
