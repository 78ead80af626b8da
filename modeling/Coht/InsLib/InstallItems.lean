import Coht.InsLib.InstallTree
import Mathlib.Data.List.TakeWhile

/-!
# The elements of one module

While the elements of a module are walked over, its descriptor is the last one in
memory, and the descriptors before it are those of earlier modules. `Hangs` says
what is known then: an address space that comes after the address of its kind
hangs on it, and one that comes before hangs on an earlier module.

`own` are the spaces that come after. If there are as many of them as there are
spaces at all, each space is `Placed`, and this is how the tree shows it.
-/

namespace Coht.InsLib

/-! ## Own spaces -/

section Own

variable {k : Kind} {items done rest : List Item} {x : Item}

def Item.opens (k : Kind) : Item → Bool
  | .address k' _ => k' = k
  | _ => false

def Opened (k : Kind) (items : List Item) : Prop :=
  ∃ c, Item.address k c ∈ items

def own (k : Kind) (items : List Item) : List Attrs :=
  spacesOf k (items.dropWhile fun x => !x.opens k)

theorem opens_iff : x.opens k = true ↔ ∃ c, x = .address k c := by
  constructor
  · intro h
    cases x with
    | address k' c =>
      obtain rfl : k' = k := by simpa [Item.opens] using h
      exact ⟨c, rfl⟩
    | space => cases h
    | interrupt => cases h
  · rintro ⟨c, rfl⟩
    simp [Item.opens]

theorem spacesOf_append :
    spacesOf k (done ++ rest) = spacesOf k done ++ spacesOf k rest :=
  List.filterMap_append

theorem mem_spacesOf {a : Attrs} : a ∈ spacesOf k items ↔ .space k a ∈ items := by
  unfold spacesOf
  rw [List.mem_filterMap]
  constructor
  · rintro ⟨x, hx, h⟩
    cases x with
    | space k' a' =>
      dsimp only at h
      split at h
      · rename_i hk
        cases h
        exact hk ▸ hx
      · cases h
    | address => cases h
    | interrupt => cases h
  · intro h
    exact ⟨_, h, if_pos rfl⟩

theorem own_append_of_opened (h : Opened k done) :
    own k (done ++ rest) = own k done ++ spacesOf k rest := by
  obtain ⟨c, hc⟩ := h
  have hne : (done.dropWhile fun x => !x.opens k).isEmpty = false := by
    rw [List.isEmpty_eq_false_iff, Ne, List.dropWhile_eq_nil_iff]
    intro hall
    have := hall _ hc
    simp [Item.opens] at this
  rw [own, List.dropWhile_append, hne, if_neg Bool.false_ne_true,
    spacesOf_append]
  rfl

theorem dropWhile_of_not_opened (h : ¬ Opened k done) :
    (done.dropWhile fun x => !x.opens k) = [] := by
  rw [List.dropWhile_eq_nil_iff]
  intro x hx
  rw [Bool.not_eq_true', Bool.eq_false_iff]
  intro hopens
  obtain ⟨c, rfl⟩ := opens_iff.mp hopens
  exact h ⟨c, hx⟩

theorem own_of_not_opened (h : ¬ Opened k done) : own k done = [] := by
  rw [own, dropWhile_of_not_opened h]
  rfl

theorem own_append_of_not_opened (h : ¬ Opened k done) :
    own k (done ++ rest) = own k rest := by
  rw [own, List.dropWhile_append, dropWhile_of_not_opened h]
  rfl

theorem own_length_le : (own k items).length ≤ (spacesOf k items).length := by
  conv => rhs; rw [← List.takeWhile_append_dropWhile (p := fun x => !x.opens k)
    (l := items), spacesOf_append, List.length_append]
  exact Nat.le_add_left _ _

theorem Placed.prefix (h : Placed (done ++ rest)) : Placed done := by
  intro k pre a post hpre
  refine h k pre a (post ++ rest) ?_
  rw [hpre, List.append_assoc, List.cons_append]

theorem Placed.own_eq (h : Placed items) : own k items = spacesOf k items := by
  have hsplit := List.takeWhile_append_dropWhile (p := fun x => !x.opens k)
    (l := items)
  have hnone : spacesOf k (items.takeWhile fun x => !x.opens k) = [] := by
    rw [List.eq_nil_iff_forall_not_mem]
    intro a ha
    obtain ⟨pre, post, hpre⟩ := List.append_of_mem (mem_spacesOf.mp ha)
    have hplaced : Placed (items.takeWhile fun x => !x.opens k) := by
      rw [← hsplit] at h
      exact h.prefix
    obtain ⟨c, hc⟩ := hplaced k pre a post hpre
    have hmem : Item.address k c ∈ items.takeWhile fun x => !x.opens k := by
      rw [hpre]
      exact List.mem_append_left _ hc
    have := List.mem_takeWhile_imp hmem
    simp [Item.opens] at this
  conv => rhs; rw [← hsplit, spacesOf_append, hnone, List.nil_append]
  rfl

theorem placed_of_length
    (h : ∀ k, (spacesOf k items).length ≤ (own k items).length) :
    Placed items := by
  intro k pre a post hitems
  by_contra hno
  have hlen := h k
  have hown : own k (.space k a :: post) = own k post := by
    rw [own, List.dropWhile_cons_of_pos (by rfl)]
    rfl
  rw [hitems, own_append_of_not_opened hno, hown, spacesOf_append,
    List.length_append] at hlen
  have hcons : spacesOf k (.space k a :: post) = a :: spacesOf k post := by
    simp [spacesOf]
  rw [hcons, List.length_cons] at hlen
  have hle : (own k post).length ≤ (spacesOf k post).length := own_length_le
  omega

theorem split_last {α : Type} {l pre post : List α} {x y : α}
    (h : l ++ [x] = pre ++ y :: post) :
    (l = pre ∧ x = y) ∨ ∃ post', l = pre ++ y :: post' := by
  rcases List.eq_nil_or_concat post with rfl | ⟨post', z, rfl⟩
  · obtain ⟨hl, hx⟩ := List.append_inj' h rfl
    exact .inl ⟨hl, List.head_eq_of_cons_eq hx⟩
  · refine .inr ⟨post', ?_⟩
    rw [List.concat_eq_append, ← List.cons_append, ← List.append_assoc] at h
    exact (List.append_inj' h rfl).1

end Own

/-! ## What hangs where -/

structure SameTop (s s' : State) : Prop where
  hosts : s'.hosts = s.hosts
  drvrs : s'.drvrs = s.drvrs
  hostd : s'.hostd = s.hostd
  drvrd : s'.drvrd = s.drvrd
  modld : s'.modld = s.modld

/-- The pointers to addresses and spaces lead to the first `n` modules. -/
def Reaches (n : Nat) (s : State) : Prop :=
  ∀ k q, s.ma k = some q ∨ s.last k = some q → q < n

def SpaceFrom (k : Kind) (a : Attrs) (space : k.Space) : Prop :=
  ∃ f f', FromLoop (spaceTag k).table.rows a.list (f, k.noSpace) (f', space)

/-- The elements `done` of a module have been walked over. `M` is the memory
before the module, `M'` what has become of it, and `node` the module. -/
structure Hangs (M : List ModlNode) (desc : ModlRec) (s₀ : State)
    (done : List Item) (s : State) (M' : List ModlNode) (node : ModlNode) :
    Prop where
  top : SameTop s₀ s
  modld : s.modld = some M.length
  modls : s.modls = M' ++ [node]
  length : M'.length = M.length
  before : Placed done → M' = M
  desc : node.desc = desc
  interrupt : ∀ a, interrupts done = [a] → ∃ isr, node.isr = some isr ∧
    FromLoop intrTable.rows a.list { isrFlag := 1 } isr
  address : ∀ k a, .address k a ∈ done → node.moduleAddress = some k ∧
    ((∀ item ∈ done, item.Fits) → FromLoop (addressTag k).table.rows a.list
      k.noFields (node.address k).fields)
  opened : ∀ k, Opened k done → s.ma k = some M.length
  closed : ∀ k, ¬ Opened k done →
    s.ma k ≠ some M.length ∧ s.last k ≠ some M.length
  reaches : Reaches (M.length + 1) s
  last : ∀ k, k ≠ .vme → (node.address k).spaces ≠ [] →
    s.last k = some M.length
  spaces : ∀ k, ∃ l, l.Perm (node.address k).spaces ∧
    List.Forall₂ (SpaceFrom k) (own k done) l
  order : ∀ pre a post, done = pre ++ .space .vme a :: post →
    Opened .vme pre → Fit vmeSpaceTable.rows a.list → ¬ CrCsr a →
    (own .vme pre).length ≤ 1

section Steps

variable {mem : Nat → Bool} {M M' : List ModlNode} {desc : ModlRec}
  {s₀ s s' : State} {done : List Item} {node : ModlNode} {a : Attrs} {k : Kind}
  {x : Item}

theorem Hangs.start (hmodls : s.modls = M ++ [{ desc := desc }])
    (hmodld : s.modld = some M.length) (hreaches : Reaches M.length s) :
    Hangs M desc s [] s M { desc := desc } where
  top := ⟨rfl, rfl, rfl, rfl, rfl⟩
  modld := hmodld
  modls := hmodls
  length := rfl
  before _ := rfl
  desc := rfl
  interrupt a h := by cases h
  address k a h := by cases h
  opened := by
    rintro k ⟨c, hc⟩
    cases hc
  closed k _ := by
    constructor
    · intro h
      exact Nat.lt_irrefl _ (hreaches k _ (.inl h))
    · intro h
      exact Nat.lt_irrefl _ (hreaches k _ (.inr h))
  reaches k q h := Nat.lt_succ_of_lt (hreaches k q h)
  last k _ h := absurd rfl h
  spaces k := ⟨[], .rfl, .nil⟩
  order pre a post h := by cases pre <;> cases h

theorem modify_concat {α : Type} {l : List α} {y : α} (f : α → α) :
    (l ++ [y]).modify l.length f = l ++ [f y] := by
  induction l with
  | nil => rfl
  | cons z l ih =>
    rw [List.cons_append, List.length_cons, List.modify_succ_cons, ih]
    rfl

theorem modify_before {l : List ModlNode} {y : ModlNode} {n : Nat}
    (hn : n < l.length) (f : ModlNode → ModlNode) :
    (l ++ [y]).modify n f = l.modify n f ++ [y] := by
  induction l generalizing n with
  | nil => cases hn
  | cons z l ih =>
    cases n with
    | zero => rfl
    | succ n =>
      rw [List.cons_append, List.modify_succ_cons, List.modify_succ_cons,
        ih (Nat.lt_of_succ_lt_succ hn)]
      rfl

theorem opened_append (hx : x.opens k = false) :
    Opened k (done ++ [x]) ↔ Opened k done := by
  constructor
  · rintro ⟨c, hc⟩
    rcases List.mem_append.mp hc with hc | hc
    · exact ⟨c, hc⟩
    · rw [← List.mem_singleton.mp hc] at hx
      simp [Item.opens] at hx
  · rintro ⟨c, hc⟩
    exact ⟨c, List.mem_append_left _ hc⟩

theorem own_append_other (hx : x.opens k = false)
    (hspace : spacesOf k [x] = []) : own k (done ++ [x]) = own k done := by
  by_cases h : Opened k done
  · rw [own_append_of_opened h, hspace, List.append_nil]
  · rw [own_append_of_not_opened h, own_of_not_opened h, own,
      List.dropWhile_cons_of_pos (by rw [hx]; rfl)]
    rfl

theorem order_append {P : List Item → Attrs → Prop}
    (h : ∀ pre a post, done = pre ++ .space .vme a :: post → P pre a)
    (hx : ∀ a, x = .space .vme a → P done a) :
    ∀ pre a post, done ++ [x] = pre ++ .space .vme a :: post → P pre a := by
  intro pre a post hsplit
  rcases split_last hsplit with ⟨rfl, hlast⟩ | ⟨post', hdone⟩
  · exact hx a hlast
  · exact h pre a post' hdone

theorem Hangs.interrupt_step (h : Hangs M desc s₀ done s M' node)
    {pvalu : Option CString}
    (hok : doInterrupt mem a.list pvalu s = .ok s') :
    ∃ node', Hangs M desc s₀ (done ++ [.interrupt a]) s' M' node' := by
  obtain ⟨i, isr, errors, allocs, hi, hloop, rfl⟩ := doInterrupt_ok hok
  obtain rfl : i = M.length := Option.some.inj (hi.symm.trans h.modld)
  refine ⟨{ node with isr := some isr }, ?_⟩
  have hspaces : ∀ k, own k (done ++ [.interrupt a]) = own k done :=
    fun k => own_append_other rfl rfl
  exact {
    top := ⟨h.top.hosts, h.top.drvrs, h.top.hostd, h.top.drvrd, h.top.modld⟩
    modld := h.modld
    modls := by
      rw [show _ = s.modls.modify M.length _ from rfl, h.modls,
        ← h.length, modify_concat]
    length := h.length
    before := fun hp => h.before hp.prefix
    desc := h.desc
    interrupt := by
      intro b hb
      have happ : interrupts (done ++ [.interrupt a]) = interrupts done ++ [a] :=
        List.filterMap_append
      rw [happ] at hb
      obtain ⟨-, hlast⟩ := List.append_inj'
        (show interrupts done ++ [a] = [] ++ [b] from hb) rfl
      obtain rfl := List.head_eq_of_cons_eq hlast
      exact ⟨isr, rfl, hloop⟩
    address := by
      intro k c hc
      rcases List.mem_append.mp hc with hc | hc
      · obtain ⟨hkind, hfields⟩ := h.address k c hc
        exact ⟨hkind, fun hfits =>
          hfields fun item hitem => hfits item (List.mem_append_left _ hitem)⟩
      · cases List.mem_singleton.mp hc
    opened := fun k hk => h.opened k ((opened_append rfl).mp hk)
    closed := fun k hk => h.closed k fun ho => hk ((opened_append rfl).mpr ho)
    reaches := h.reaches
    last := h.last
    spaces := fun k => by rw [hspaces]; exact h.spaces k
    order := order_append h.order fun b hb => by cases hb }

theorem Hangs.address_step (h : Hangs M desc s₀ done s M' node)
    (hok : parseAddressTag mem (addressTag k) a.list s = .ok s')
    (h₀ : s'.errors = 0) :
    ∃ node', Hangs M desc s₀ (done ++ [.address k a]) s' M' node' := by
  obtain ⟨i, md, fields, allocs, hi, hmd, hnone, hloop, rfl⟩ :=
    parseAddressTag_ok hok h₀
  obtain rfl : i = M.length := Option.some.inj (hi.symm.trans h.modld)
  have hnode : md = node := by
    rw [h.modls, ← h.length, List.getElem?_concat_length] at hmd
    exact (Option.some.inj hmd).symm
  subst hnode
  have hclosed : ∀ k', ¬ Opened k' done := by
    rintro k' ⟨c, hc⟩
    rw [(h.address k' c hc).1] at hnone
    cases hnone
  have hempty : ∀ k', (md.address k').spaces = [] := by
    intro k'
    obtain ⟨l, hperm, hl⟩ := h.spaces k'
    rw [own_of_not_opened (hclosed k')] at hl
    cases hl
    exact List.nil_perm.mp hperm
  have hspaces : ∀ k', ((md.setAddress (k := k) ⟨fields, []⟩).address k').spaces =
      [] := by
    intro k'
    by_cases hk : k' = k
    · subst hk
      simp [ModlNode.setAddress]
    · simp only [ModlNode.setAddress, Function.update_of_ne hk]
      exact hempty k'
  have hopens : ∀ k', Opened k' (done ++ [.address k a]) → k' = k := by
    rintro k' ⟨c, hc⟩
    rcases List.mem_append.mp hc with hc | hc
    · exact absurd ⟨c, hc⟩ (hclosed k')
    · cases List.mem_singleton.mp hc
      rfl
  refine ⟨{ md.setAddress (k := k) ⟨fields, []⟩ with moduleAddress := some k }, ?_⟩
  exact {
    top := ⟨h.top.hosts, h.top.drvrs, h.top.hostd, h.top.drvrd, h.top.modld⟩
    modld := h.modld
    modls := by
      rw [show _ = s.modls.modify M.length _ from rfl, h.modls,
        ← h.length, modify_concat]
    length := h.length
    before := fun hp => h.before hp.prefix
    desc := h.desc
    interrupt := by
      intro b hb
      have happ : interrupts (done ++ [.address k a]) = interrupts done := by
        simp [interrupts]
      rw [happ] at hb
      exact h.interrupt b hb
    address := by
      intro k' c hc
      obtain rfl := hopens k' ⟨c, hc⟩
      refine ⟨rfl, fun _ => ?_⟩
      rcases List.mem_append.mp hc with hc | hc
      · exact absurd ⟨c, hc⟩ (hclosed k')
      · cases List.mem_singleton.mp hc
        simpa [ModlNode.setAddress] using hloop
    opened := by
      intro k' hk
      obtain rfl := hopens k' hk
      exact Function.update_self k' _ _
    closed := by
      intro k' hk
      have hne : k' ≠ k := by
        rintro rfl
        exact hk ⟨a, List.mem_append_right _ List.mem_cons_self⟩
      have hk' := h.closed k' (hclosed k')
      exact ⟨fun hq =>
        hk'.1 ((Function.update_of_ne hne _ _).symm.trans hq), hk'.2⟩
    reaches := by
      rintro k' q (hq | hq)
      · by_cases hk : k' = k
        · subst hk
          have hq' := (Function.update_self k' _ s.ma).symm.trans hq
          cases hq'
          exact Nat.lt_succ_self _
        · exact h.reaches k' q (.inl ((Function.update_of_ne hk _ _).symm.trans hq))
      · exact h.reaches k' q (.inr hq)
    last := fun k' _ hne => absurd (hspaces k') hne
    spaces := by
      intro k'
      refine ⟨[], ?_, ?_⟩
      · rw [show (_ : List k'.Space) = _ from hspaces k']
      · rw [own_append_of_not_opened (hclosed k')]
        have hown : own k' [.address k a] = [] := by
          unfold own
          rw [List.dropWhile_cons]
          split <;> rfl
        rw [hown]
        exact .nil
    order := order_append h.order fun b hb => by cases hb }

@[simp] theorem setAddress_address (m : ModlNode) (d : k.Address) :
    (m.setAddress d).address k = d := by
  simp [ModlNode.setAddress]

theorem setAddress_address_of_ne {k' : Kind} (hk : k' ≠ k) (m : ModlNode)
    (d : k.Address) : (m.setAddress d).address k' = m.address k' := by
  simp [ModlNode.setAddress, hk]

theorem spacesOf_space : spacesOf k [.space k a] = [a] := by
  simp [spacesOf]

theorem spacesOf_space_of_ne {k' : Kind} (hk : k' ≠ k) :
    spacesOf k' [.space k a] = [] := by
  simp [spacesOf, Ne.symm hk]

theorem interrupts_space : interrupts (done ++ [.space k a]) = interrupts done := by
  simp [interrupts]

theorem fits_of_concat (hfits : ∀ item ∈ done ++ [x], item.Fits) :
    ∀ item ∈ done, item.Fits :=
  fun item hitem => hfits item (List.mem_append_left _ hitem)

theorem Hangs.own_space_step (h : Hangs M desc s₀ done s M' node)
    {pvalu : Option CString} (hopened : Opened k done)
    (hok : doSpace mem (spaceTag k) a.list pvalu s = .ok s') :
    ∃ node', Hangs M desc s₀ (done ++ [.space k a]) s' M' node' := by
  obtain ⟨q, m, r, errors, allocs, hq, hm, hloop, hlink⟩ := doSpace_ok hok
  obtain rfl : q = M.length := Option.some.inj (hq.symm.trans (h.opened k hopened))
  have hnode : m = node := by
    rw [h.modls, ← h.length, List.getElem?_concat_length] at hm
    exact (Option.some.inj hm).symm
  subst hnode
  have hset : s.modls.set M.length
      (m.setAddress (k := k) { m.address k with fields := r.1 }) =
      M' ++ [m.setAddress (k := k) { m.address k with fields := r.1 }] := by
    rw [h.modls, ← h.length, List.set_append_right _ _ (Nat.le_refl _),
      Nat.sub_self]
    rfl
  rw [hset] at hlink
  have hvme := fun hk : k = .vme => hlink
  obtain ⟨q', m', l, p, hcase, hperm, hp, hpe, rfl⟩ := spaceTag_linked hlink
  have hlast : m' = m.setAddress (k := k) { m.address k with fields := r.1 } ∧
      q' = M.length := by
    rcases hcase with ⟨rfl, rfl⟩ | ⟨hk, hne, hq', hm'⟩
    · exact ⟨rfl, rfl⟩
    · rw [setAddress_address] at hne
      obtain rfl : q' = M.length :=
        Option.some.inj (hq'.symm.trans (h.last k hk hne))
      dsimp only at hm'
      rw [← h.length, List.getElem?_concat_length] at hm'
      exact ⟨(Option.some.inj hm').symm, rfl⟩
  obtain ⟨rfl, rfl⟩ := hlast
  rw [setAddress_address] at hperm
  generalize hnode' : (m.setAddress (k := k)
    { m.address k with fields := r.1 }).setAddress (k := k)
    { fields := r.1, spaces := l } = node'
  have hself : node'.address k = { fields := r.1, spaces := l } := by
    rw [← hnode', setAddress_address]
  have hother : ∀ k', k' ≠ k → node'.address k' = m.address k' := by
    intro k' hk
    rw [← hnode', setAddress_address_of_ne hk, setAddress_address_of_ne hk]
  refine ⟨node', ?_⟩
  exact {
    top := ⟨h.top.hosts, h.top.drvrs, h.top.hostd, h.top.drvrd, h.top.modld⟩
    modld := h.modld
    modls := by
      rw [← hnode', setAddress_address]
      exact h.length ▸ modify_concat _
    length := h.length
    before := fun hp => h.before hp.prefix
    desc := by rw [← hnode']; exact h.desc
    interrupt := by
      intro b hb
      rw [interrupts_space] at hb
      rw [← hnode']
      exact h.interrupt b hb
    address := by
      intro k' c hc
      rcases List.mem_append.mp hc with hc | hc
      · obtain ⟨hkind, hfields⟩ := h.address k' c hc
        refine ⟨by rw [← hnode']; exact hkind, fun hfits => ?_⟩
        have hfields := hfields (fits_of_concat hfits)
        by_cases hk : k' = k
        · subst hk
          have hfit : (Item.space k' a).Fits :=
            hfits _ (List.mem_append_right _ List.mem_cons_self)
          rw [hself, space_fields hloop hfit]
          exact hfields
        · rw [hother k' hk]
          exact hfields
      · cases List.mem_singleton.mp hc
    opened := fun k' hk => h.opened k' ((opened_append rfl).mp hk)
    closed := by
      intro k' hk
      have hk' : ¬ Opened k' done := fun ho => hk ((opened_append rfl).mpr ho)
      have hne : k' ≠ k := fun heq => hk' (heq ▸ hopened)
      obtain ⟨hma, hla⟩ := h.closed k' hk'
      exact ⟨hma, fun hl => hla ((Function.update_of_ne hne _ _).symm.trans hl)⟩
    reaches := by
      rintro k' q (hq | hq)
      · exact h.reaches k' q (.inl hq)
      · by_cases hk : k' = k
        · subst hk
          have hq' := (Function.update_self k' _ s.last).symm.trans hq
          rcases hp with hp | hp
          · rw [hp] at hq'
            cases hq'
            exact Nat.lt_succ_self _
          · exact h.reaches k' q (.inr (hp.symm.trans hq'))
        · exact h.reaches k' q (.inr ((Function.update_of_ne hk _ _).symm.trans hq))
    last := by
      intro k' hk hne
      by_cases heq : k' = k
      · subst heq
        refine (Function.update_self k' _ s.last).trans ?_
        rw [setAddress_address] at hpe
        by_cases hnil : (m.address k').spaces = []
        · exact hpe hk hnil
        · rcases hp with hp | hp
          · exact hp
          · exact hp.trans (h.last k' hk hnil)
      · rw [hother k' heq] at hne
        exact (Function.update_of_ne heq _ _).trans (h.last k' hk hne)
    spaces := by
      intro k'
      obtain ⟨l₀, hperm₀, hl₀⟩ := h.spaces k'
      by_cases heq : k' = k
      · subst heq
        refine ⟨l₀ ++ [r.2], ?_, ?_⟩
        · rw [hself]
          exact (hperm₀.append_right _).trans hperm.symm
        · rw [own_append_of_opened hopened, spacesOf_space]
          exact List.rel_append hl₀ (.cons ⟨_, _, hloop⟩ .nil)
      · refine ⟨l₀, ?_, ?_⟩
        · rw [hother k' heq]
          exact hperm₀
        · rw [own_append_other rfl (spacesOf_space_of_ne heq)]
          exact hl₀
    order := by
      refine order_append h.order ?_
      rintro b hb hopen hfit hno
      cases hb
      have hne : r.2.addressModifier ≠ AM_A24_CR_CSR :=
        fun heq => hno ((crCsr_iff hloop hfit).mp heq)
      have hlen := linkVme_some (hvme rfl) hne
      obtain ⟨l₀, hperm₀, hl₀⟩ := h.spaces .vme
      rw [setAddress_address] at hlen
      rw [hl₀.length_eq, hperm₀.length_eq]
      exact hlen }

theorem Hangs.early_space_step (h : Hangs M desc s₀ done s M' node)
    {pvalu : Option CString} (hclosed : ¬ Opened k done)
    (hok : doSpace mem (spaceTag k) a.list pvalu s = .ok s') :
    ∃ M'', Hangs M desc s₀ (done ++ [.space k a]) s' M'' node := by
  obtain ⟨q, m, r, errors, allocs, hq, hm, hloop, hlink⟩ := doSpace_ok hok
  have hbefore : ∀ q, q ≠ M.length → q < M.length + 1 → q < M'.length := by
    intro q hne hlt
    have hlen := h.length
    omega
  have hqlt : q < M'.length := by
    refine hbefore q ?_ (h.reaches k q (.inl hq))
    rintro rfl
    exact (h.closed k hclosed).1 hq
  rw [h.modls, List.set_append_left _ _ hqlt] at hlink
  obtain ⟨q', m', l, p, hcase, -, hp, -, rfl⟩ := spaceTag_linked hlink
  have hqlt' : q' < (M'.set q (m.setAddress (k := k)
      { m.address k with fields := r.1 })).length := by
    rw [List.length_set]
    rcases hcase with ⟨rfl, -⟩ | ⟨-, -, hq', -⟩
    · exact hqlt
    · refine hbefore q' ?_ (h.reaches k q' (.inr hq'))
      rintro rfl
      exact (h.closed k hclosed).2 hq'
  have hspaces : ∀ k', own k' (done ++ [.space k a]) = own k' done := by
    intro k'
    by_cases heq : k' = k
    · subst heq
      rw [own_append_of_not_opened hclosed, own_of_not_opened hclosed]
      rfl
    · exact own_append_other rfl (spacesOf_space_of_ne heq)
  have hp' : p ≠ some M.length ∧ ∀ q', p = some q' → q' < M.length + 1 := by
    rcases hp with rfl | rfl
    · have hlen := h.length
      refine ⟨fun heq => ?_, fun q' heq => ?_⟩
      · cases heq
        omega
      · cases heq
        omega
    · exact ⟨(h.closed k hclosed).2, fun q' hq' => h.reaches k q' (.inr hq')⟩
  refine ⟨(M'.set q (m.setAddress (k := k)
    { m.address k with fields := r.1 })).modify q'
    (·.setAddress (k := k) { m'.address k with spaces := l }), ?_⟩
  exact {
    top := ⟨h.top.hosts, h.top.drvrs, h.top.hostd, h.top.drvrd, h.top.modld⟩
    modld := h.modld
    modls := modify_before hqlt' _
    length := by
      rw [List.length_modify, List.length_set, h.length]
    before := by
      intro hplaced
      exact absurd (hplaced k done a [] rfl) hclosed
    desc := h.desc
    interrupt := by
      intro b hb
      rw [interrupts_space] at hb
      exact h.interrupt b hb
    address := by
      intro k' c hc
      rcases List.mem_append.mp hc with hc | hc
      · obtain ⟨hkind, hfields⟩ := h.address k' c hc
        exact ⟨hkind, fun hfits => hfields (fits_of_concat hfits)⟩
      · cases List.mem_singleton.mp hc
    opened := fun k' hk => h.opened k' ((opened_append rfl).mp hk)
    closed := by
      intro k' hk
      have hk' : ¬ Opened k' done := fun ho => hk ((opened_append rfl).mpr ho)
      obtain ⟨hma, hla⟩ := h.closed k' hk'
      refine ⟨hma, fun hl => ?_⟩
      by_cases heq : k' = k
      · subst heq
        exact hp'.1 ((Function.update_self k' _ s.last).symm.trans hl)
      · exact hla ((Function.update_of_ne heq _ _).symm.trans hl)
    reaches := by
      rintro k' q (hq | hq)
      · exact h.reaches k' q (.inl hq)
      · by_cases heq : k' = k
        · subst heq
          exact hp'.2 q ((Function.update_self k' _ s.last).symm.trans hq)
        · exact h.reaches k' q
            (.inr ((Function.update_of_ne heq _ _).symm.trans hq))
    last := by
      intro k' hk hne
      by_cases heq : k' = k
      · subst heq
        obtain ⟨l, hperm, hl⟩ := h.spaces k'
        rw [own_of_not_opened hclosed] at hl
        cases hl
        exact absurd (List.nil_perm.mp hperm) hne
      · exact (Function.update_of_ne heq _ _).trans (h.last k' hk hne)
    spaces := fun k' => by rw [hspaces]; exact h.spaces k'
    order := by
      refine order_append h.order ?_
      rintro b hb hopen
      cases hb
      exact absurd hopen hclosed }

/-! ## A run over the elements -/

theorem runItem_address {r : State × Option CString} :
    runItem mem (.address k a) r =
      (parseAddressTag mem (addressTag k) a.list r.1).bind
        fun s => .ok (s, r.2) := by
  cases k <;> rfl

theorem runItem_space {r : State × Option CString} (hmodld : r.1.modld.isSome) :
    ∃ p p', runItem mem (.space k a) r =
      (doSpace mem (spaceTag k) a.list p r.1).bind fun s => .ok (s, p') := by
  cases k with
  | pci => exact ⟨_, _, rfl⟩
  | vme =>
    obtain ⟨i, hi⟩ := Option.isSome_iff_exists.mp hmodld
    refine ⟨none, r.2, ?_⟩
    simp only [runItem, Item.key, doNode, hi]
    split
    · rename_i hnone
      cases hnone
    · rfl
  | car => exact ⟨_, _, rfl⟩

theorem bind_pair_ok {o : Outcome State} {p : Option CString}
    {r : State × Option CString}
    (h : (o.bind fun s => .ok (s, p)) = .ok r) : o = .ok r.1 := by
  cases o with
  | ok s =>
    cases h
    rfl
  | null => cases h
  | fault => cases h

theorem bind_pair_fault {o : Outcome State} {p : Option CString} {e : Nat}
    (h : (o.bind fun s => .ok (s, p)) = .fault e) : o = .fault e := by
  cases o with
  | ok s => cases h
  | null => cases h
  | fault =>
    cases h
    rfl

theorem Hangs.step {r r' : State × Option CString}
    (h : Hangs M desc s₀ done r.1 M' node) (hok : runItem mem x r = .ok r')
    (h₀ : r'.1.errors = 0) :
    ∃ M'' node', Hangs M desc s₀ (done ++ [x]) r'.1 M'' node' := by
  cases x with
  | interrupt a => exact ⟨_, h.interrupt_step (bind_pair_ok hok)⟩
  | address k a =>
    rw [runItem_address] at hok
    exact ⟨_, h.address_step (bind_pair_ok hok) h₀⟩
  | space k a =>
    obtain ⟨p, p', heq⟩ : ∃ p p', runItem mem (.space k a) r =
        (doSpace mem (spaceTag k) a.list p r.1).bind fun s => .ok (s, p') :=
      runItem_space (by rw [h.modld]; rfl)
    rw [heq] at hok
    by_cases hopened : Opened k done
    · exact ⟨_, h.own_space_step hopened (bind_pair_ok hok)⟩
    · obtain ⟨M'', h'⟩ := h.early_space_step hopened (bind_pair_ok hok)
      exact ⟨M'', node, h'⟩

theorem Hangs.no_fault {r : State × Option CString} {e : Nat} {rest : List Item}
    (h : Hangs M desc s₀ done r.1 M' node)
    (hplaced : Placed (done ++ x :: rest))
    (horder : AtMostSecond (done ++ x :: rest)) (hfits : x.Fits) :
    runItem mem x r ≠ .fault e := by
  intro hfault
  have hlt : M.length < r.1.modls.length := by
    rw [h.modls, List.length_append, h.length]
    exact Nat.lt_succ_self _
  cases x with
  | interrupt a => exact doInterrupt_fault (bind_pair_fault hfault) hfits
  | address k a =>
    rw [runItem_address] at hfault
    exact parseAddressTag_fault h.modld hlt (bind_pair_fault hfault) hfits
  | space k a =>
    obtain ⟨p, p', heq⟩ : ∃ p p', runItem mem (.space k a) r =
        (doSpace mem (spaceTag k) a.list p r.1).bind fun s => .ok (s, p') :=
      runItem_space (by rw [h.modld]; rfl)
    rw [heq] at hfault
    have hopened : Opened k done := hplaced k done a rest rfl
    have hnode : r.1.modls[M.length]? = some node := by
      rw [h.modls, ← h.length, List.getElem?_concat_length]
    obtain ⟨rec, errors, allocs, hloop, hlink⟩ :=
      doSpace_fault (h.opened k hopened) hnode hfits (bind_pair_fault hfault)
    have hlast : ∀ hk : k ≠ .vme, linkLast (k := k) { r.1 with
          errors := errors
          allocs := allocs
          modls := r.1.modls.set M.length (node.setAddress (k := k)
            { node.address k with fields := rec.1 }) } M.length
        (node.setAddress (k := k) { node.address k with fields := rec.1 })
        rec.2 ≠ none := by
      intro hk hnone
      obtain ⟨hne, hgone⟩ := linkLast_none hnone
      rw [setAddress_address] at hne
      have hgone := hgone M.length (h.last k hk hne)
      dsimp only at hgone
      rw [List.getElem?_set_self hlt] at hgone
      cases hgone
    cases k with
    | pci => exact hlast (by decide) hlink
    | car => exact hlast (by decide) hlink
    | vme =>
      obtain ⟨hne, hlen⟩ := linkVme_none hlink
      have hno : ¬ CrCsr a := fun hcr => hne ((crCsr_iff hloop hfits).mpr hcr)
      have hle := horder done a rest rfl hno
      obtain ⟨l, hperm, hl⟩ := h.spaces .vme
      rw [setAddress_address] at hlen
      rw [← hplaced.prefix.own_eq, hl.length_eq, hperm.length_eq] at hle
      dsimp only at hlen
      omega

theorem Hangs.run {r : State × Option CString} {rest : List Item}
    (h : Hangs M desc s₀ done r.1 M' node) :
    Ends (runAll (runItem mem) rest r)
      (Placed (done ++ rest) ∧ AtMostSecond (done ++ rest) ∧
        ∀ item ∈ rest, item.Fits)
      (fun r' => ∃ M'' node', Hangs M desc s₀ (done ++ rest) r'.1 M'' node') := by
  induction rest generalizing done r M' node with
  | nil =>
    rw [List.append_nil]
    refine ⟨?_, fun e he => by cases he⟩
    rintro _ ⟨⟩ _
    exact ⟨M', node, h⟩
  | cons x rest ih =>
    have hx : Ends (runItem mem x r)
        (Placed (done ++ x :: rest) ∧ AtMostSecond (done ++ x :: rest) ∧
          ∀ item ∈ x :: rest, item.Fits)
        (fun r' => ∃ M'' node', Hangs M desc s₀ (done ++ [x]) r'.1 M'' node') := by
      refine ⟨fun r' hok h₀ => h.step hok h₀, fun e he _ hgood => ?_⟩
      exact h.no_fault hgood.1 hgood.2.1 (hgood.2.2 x List.mem_cons_self) he
    have hrest : ∀ r' : State × Option CString,
        (∃ M'' node', Hangs M desc s₀ (done ++ [x]) r'.1 M'' node') →
        Ends (runAll (runItem mem) rest r')
          (Placed (done ++ x :: rest) ∧ AtMostSecond (done ++ x :: rest) ∧
            ∀ item ∈ rest, item.Fits)
          (fun r' => ∃ M'' node',
            Hangs M desc s₀ (done ++ x :: rest) r'.1 M'' node') := by
      rintro r' ⟨M'', node', h'⟩
      have hends := ih h'
      rw [List.append_assoc, List.singleton_append] at hends
      exact hends
    refine hx.bind (fun r' _ h' => hrest r' h')
      (fun r' => runAll_after fun _ _ => runItem_after) id ?_
    intro hgood
    exact ⟨hgood.1, hgood.2.1, fun item hitem =>
      hgood.2.2 item (List.mem_cons_of_mem _ hitem)⟩

end Steps

/-! ## The module in the end -/

section Matched

variable {α β : Type} {P : α → β → Prop} {l : List α} {u : List β}

theorem forall₂_mem_left (h : List.Forall₂ P l u) {a : α} (ha : a ∈ l) :
    ∃ b ∈ u, P a b := by
  induction h with
  | nil => cases ha
  | cons hhead _ ih =>
    rcases List.mem_cons.mp ha with rfl | ha
    · exact ⟨_, List.mem_cons_self, hhead⟩
    · obtain ⟨b, hb, hP⟩ := ih ha
      exact ⟨b, List.mem_cons_of_mem _ hb, hP⟩

theorem forall₂_mem_right (h : List.Forall₂ P l u) {b : β} (hb : b ∈ u) :
    ∃ a ∈ l, P a b := forall₂_mem_left h.flip hb

end Matched

section Module

variable {M M' : List ModlNode} {desc : ModlRec} {s₀ s : State} {m : ModuleDoc}
  {node : ModlNode} {b : Bool}

theorem Hangs.noCarComment (h : Hangs M desc s₀ m.items s M' node) {k : Kind}
    {space : k.Space} (hspace : space ∈ (node.address k).spaces) :
    NoCarComment k space := by
  obtain ⟨l, hperm, hl⟩ := h.spaces k
  have hmem : space ∈ l := hperm.mem_iff.mpr hspace
  obtain ⟨a, -, f, f', hloop⟩ := forall₂_mem_right hl hmem
  exact space_noCarComment hloop

theorem mem_spaces {k : Kind} {space : k.Space} (h : space ∈ node.spaces k) :
    space ∈ (node.address k).spaces := by
  unfold ModlNode.spaces at h
  split at h
  · exact h
  · cases h

theorem spaces_length_le {k : Kind} :
    (node.spaces k).length ≤ (node.address k).spaces.length := by
  unfold ModlNode.spaces
  split
  · exact Nat.le_refl _
  · exact Nat.zero_le _

theorem Hangs.readable (h : Hangs M desc s₀ m.items s M' node)
    (hloop : FromLoop (modlTable b).rows m.attrs.list {} desc)
    (hmatch : m.Matches node) : m.Readable := by
  have hfits : ∀ item ∈ m.items, item.Fits := by
    intro item hitem
    cases item with
    | address k a => exact address_fit (hmatch.address k a hitem).2
    | interrupt a =>
      obtain ⟨isr, -, hdesc⟩ := hmatch.interrupt a hitem
      exact intr_fit hdesc
    | space k a =>
      obtain ⟨l, hperm, hl⟩ := hmatch.spaces k
      obtain ⟨space, hspace, hdesc⟩ :=
        forall₂_mem_left hl (mem_spacesOf.mpr hitem)
      exact space_fit hdesc
        (h.noCarComment (mem_spaces (hperm.mem_iff.mp hspace)))
  have hplaced : Placed m.items := by
    refine placed_of_length fun k => ?_
    obtain ⟨l, hperm, hl⟩ := hmatch.spaces k
    obtain ⟨l₀, hperm₀, hl₀⟩ := h.spaces k
    rw [hl.length_eq, hperm.length_eq, hl₀.length_eq, hperm₀.length_eq]
    exact spaces_length_le
  refine ⟨?_, hfits, hplaced, ?_⟩
  · have hattrs := hmatch.attrs
    rw [h.desc] at hattrs
    exact modl_fit hattrs (modl_extra hloop)
  · intro pre a post hitems hno
    have hpre : Placed pre := by
      rw [hitems] at hplaced
      exact hplaced.prefix
    rw [← hpre.own_eq]
    refine h.order pre a post hitems (hplaced _ _ _ _ hitems) ?_ hno
    refine hfits (.space .vme a) ?_
    rw [hitems]
    exact List.mem_append_right _ List.mem_cons_self

theorem described_space {k : Kind} {a : Attrs} {f f' : k.Fields} {space : k.Space}
    (h : Described (spaceTag k).table.rows a.list (f, space)) :
    Described (spaceTag k).table.rows a.list (f', space) := by
  intro x hx
  obtain ⟨row, hrow, hkey, hholds⟩ := h x hx
  refine ⟨row, hrow, hkey, ?_⟩
  have hget : row.get (f', space) = row.get (f, space) := by
    cases k
    · simp only [spaceTag, pciSpaceTag, pciSpaceTable, List.mem_cons,
        List.not_mem_nil, or_false] at hrow
      rcases hrow with rfl | rfl | rfl <;> rfl
    · simp only [spaceTag, vmeSpaceTag, vmeSpaceTable, List.mem_cons,
        List.not_mem_nil, or_false] at hrow
      rcases hrow with rfl | rfl | rfl | rfl | rfl | rfl <;> rfl
    · simp only [spaceTag, carSpaceTag, carSpaceTable, List.mem_cons,
        List.not_mem_nil, or_false] at hrow
      rcases hrow with rfl | rfl | rfl <;> rfl
  rw [hget]
  exact hholds

theorem interrupts_eq {a : Attrs} (h : .interrupt a ∈ m.items) :
    interrupts m.items = [a] := by
  have hmem : a ∈ interrupts m.items := by
    unfold interrupts
    exact List.mem_filterMap.mpr ⟨_, h, rfl⟩
  have hone := m.oneInterrupt
  match hi : interrupts m.items with
  | [] =>
    rw [hi] at hmem
    cases hmem
  | [c] =>
    rw [hi] at hmem
    rw [List.mem_singleton.mp hmem]
  | c :: d :: l =>
    rw [hi] at hone
    simp at hone

theorem Hangs.matches (h : Hangs M desc s₀ m.items s M' node)
    (hloop : FromLoop (modlTable b).rows m.attrs.list {} desc)
    (hread : m.Readable) : M' = M ∧ m.Matches node := by
  refine ⟨h.before hread.placed, ?_, ?_, ?_, ?_⟩
  · rw [h.desc]
    exact modl_described_rows (hloop.described (modl_fit_rows hread.attrs))
  · intro a ha
    obtain ⟨isr, hisr, hfrom⟩ := h.interrupt a (interrupts_eq ha)
    exact ⟨isr, hisr, hfrom.described (hread.items _ ha)⟩
  · intro k a ha
    obtain ⟨hkind, hfrom⟩ := h.address k a ha
    exact ⟨hkind, (hfrom hread.items).described (hread.items _ ha)⟩
  · intro k
    obtain ⟨l, hperm, hl⟩ := h.spaces k
    have hspaces : (node.address k).spaces = node.spaces k := by
      unfold ModlNode.spaces
      split
      · rfl
      · rename_i hno
        have hclosed : ¬ Opened k m.items := by
          rintro ⟨c, hc⟩
          exact hno (h.address k c hc).1
        rw [own_of_not_opened hclosed] at hl
        cases hl
        exact List.nil_perm.mp hperm
    refine ⟨l, hspaces ▸ hperm, ?_⟩
    rw [hread.placed.own_eq] at hl
    have hfits : ∀ a ∈ spacesOf k m.items, Fit (spaceTag k).table.rows a.list :=
      fun a ha => hread.items _ (mem_spacesOf.mp ha)
    refine ((List.forall₂_and_left _ _).mpr ⟨hfits, hl⟩).imp ?_
    rintro a space ⟨hfit, f, f', hfrom⟩
    exact described_space (hfrom.described hfit)

end Module

end Coht.InsLib
