import Coht.Lib.Count
import Coht.Tpci200.Carrier

/-!
# What the sections keep of a carrier (`carrier_tpci200.c`)

`Wf` is a carrier as the drivers should find it: slots and records name each other, the
handlers are there, and a slot with a handler has a `slot_id` with its I/O space mapped.
That the kernel's mappings are those of the records is a part of it, so that a record that
is freed with a space still mapped breaks it. Each section keeps `Wf` under a condition of
its own, and `Done` is what `ip_slot_unregister()` has to get done before it frees the
record.
-/

namespace Coht.Tpci200

open Coht.Lib

/-- What a driver does with a slot, and what `ip_slot_unregister()` does with it too. -/
inductive Op
  | map (space : Space) (memorySize : Nat)
  | unmap (space : Space)
  | request (irq : SlotIrq)
  | free
  deriving DecidableEq

namespace Carrier

variable {c : Carrier} {p p' : Ptr} {r r' : SlotId} {i : Nat} {space : Space}

def serve (c : Carrier) (p : Ptr) (r : SlotId) (memory : Bool) (remapped : Option Nat) :
    Op → Except Errno Unit × Carrier
  | .map space memorySize => c.mapSpace p r space memorySize remapped
  | .unmap space => c.unmapSpace p r space
  | .request irq => c.requestIrq r irq memory
  | .free => c.freeIrq r

structure Wf (c : Carrier) : Prop where
  registered : ∀ i p, c.slotId i = some p → ∃ r, c.slotIds p = some r ∧ r.position = i
  owner : ∀ p r, c.slotIds p = some r → c.slotId r.position = some p
  bound : ∀ p r, c.slotIds p = some r → r.position < TPCI200_NB_SLOT
  irqLive : ∀ i q, c.irq i = some q → c.irqs q ≠ none
  irqOwn : ∀ i j q, c.irq i = some q → c.irq j = some q → i = j
  served : ∀ i, c.irq i ≠ none →
    ∃ p r, c.slotId i = some p ∧ c.slotIds p = some r ∧ r.io.address ≠ none
  counted : ∀ p r space, c.slotIds p = some r →
    c.maps r.position space = oneMapping (r.space space).address
  unmapped : ∀ i space, c.slotId i = none → c.maps i space = 0
  fresh : ∀ p, c.next ≤ p → c.slotIds p = none ∧ c.irqs p = none

theorem Wf.position_inj (h : c.Wf) (hp : c.slotIds p = some r) (hp' : c.slotIds p' = some r')
    (heq : r.position = r'.position) : p = p' := by
  have howner := h.owner p r hp
  rw [heq, h.owner p' r' hp'] at howner
  exact (Option.some.inj howner).symm

theorem Wf.irq_eq_none (h : c.Wf) (hi : c.slotId i = none) : c.irq i = none := by
  by_contra hne
  obtain ⟨p, r, hslot, -⟩ := h.served i hne
  exact absurd (hi.symm.trans hslot) nofun

theorem Wf.ready (h : c.Wf) (hi : c.irq i ≠ none) : c.Ready i := by
  obtain ⟨q, hq⟩ := Option.ne_none_iff_exists'.mp hi
  obtain ⟨irq, hirq⟩ := Option.ne_none_iff_exists'.mp (h.irqLive i q hq)
  exact ⟨⟨q, irq, hq, hirq⟩, h.served i hi⟩

def Done (c : Carrier) (p : Ptr) : Op → Prop
  | .free => ∀ r, c.slotIds p = some r → c.irq r.position = none
  | .unmap space => ∀ r, c.slotIds p = some r → (r.space space).address = none
  | _ => True

end Carrier

/-! ## Address spaces -/

namespace SlotId

variable (r : SlotId) (a : AddrSpace) (space space' : Space)

@[simp] theorem setSpace_position : (r.setSpace a space).position = r.position := by
  cases space <;> rfl

@[simp] theorem setSpace_self : (r.setSpace a space).space space = a := by
  cases space <;> rfl

variable {space space'} in
theorem setSpace_of_ne (h : space' ≠ space) :
    (r.setSpace a space).space space' = r.space space' := by
  cases space <;> cases space' <;> first | rfl | exact absurd rfl h

end SlotId

namespace Carrier

section

variable {c : Carrier} {p p' : Ptr} {r r' : SlotId} {space : Space} {a : AddrSpace}

def setSpace (c : Carrier) (p : Ptr) (r : SlotId) (space : Space) (a : AddrSpace) : Carrier :=
  { c with
    slotIds := Function.update c.slotIds p (some (r.setSpace a space))
    maps := Function.update c.maps r.position
      (Function.update (c.maps r.position) space (oneMapping a.address)) }

theorem mapSpace_eq (h : c.Wf) (hp : c.slotIds p = some r) (memorySize : Nat)
    (remapped : Option Nat) :
    (c.mapSpace p r space memorySize remapped).2 = c ∨
      (r.space space).address = none ∧ ¬ (space = .mem ∧ TPCI200_MEM8_SIZE < memorySize) ∧
        (c.mapSpace p r space memorySize remapped).2 =
          c.setSpace p r space
            { address := remapped, size := sizeToMap memorySize space } := by
  unfold mapSpace
  split
  · exact .inl rfl
  · next hnone =>
    split
    · exact .inl rfl
    · next hsize =>
      refine .inr ⟨not_not.mp hnone, hsize, ?_⟩
      have hmaps : c.maps r.position space = 0 := by
        rw [h.counted p r space hp, not_not.mp hnone]
        rfl
      unfold setSpace
      rw [hmaps, Nat.zero_add]

theorem unmapSpace_eq (h : c.Wf) (hp : c.slotIds p = some r) :
    (c.unmapSpace p r space).2 = c ∧ (r.space space).address = none ∨
      (c.unmapSpace p r space).2 = c.setSpace p r space {} := by
  unfold unmapSpace
  split
  · next hnone => exact .inl ⟨rfl, hnone⟩
  · next hsome =>
    have hmaps : c.maps r.position space = 1 := by
      rw [h.counted p r space hp]
      exact if_pos (Option.isSome_iff_ne_none.mpr hsome)
    refine .inr ?_
    unfold setSpace
    rw [hmaps]
    rfl

theorem setSpace_slotIds (hp' : (c.setSpace p r space a).slotIds p' = some r') :
    p' = p ∧ r' = r.setSpace a space ∨ p' ≠ p ∧ c.slotIds p' = some r' := by
  rcases update_cases hp' with ⟨heq, hr'⟩ | hother
  · exact .inl ⟨heq, (Option.some.inj hr').symm⟩
  · exact .inr hother

theorem setSpace_maps_self : (c.setSpace p r space a).maps r.position =
    Function.update (c.maps r.position) space (oneMapping a.address) :=
  Function.update_self ..

theorem setSpace_maps_of_ne {i : Nat} (h : i ≠ r.position) :
    (c.setSpace p r space a).maps i = c.maps i := Function.update_of_ne h ..

theorem setSpace_wf (h : c.Wf) (hp : c.slotIds p = some r)
    (hio : space = .io → a.address = none → c.irq r.position = none) :
    (c.setSpace p r space a).Wf := by
  have hself : (c.setSpace p r space a).slotIds p = some (r.setSpace a space) :=
    Function.update_self ..
  have hother {p' : Ptr} (hne : p' ≠ p) : (c.setSpace p r space a).slotIds p' = c.slotIds p' :=
    Function.update_of_ne hne ..
  constructor
  · intro i p' hi
    obtain ⟨r', hr', hpos⟩ := h.registered i p' hi
    by_cases hne : p' = p
    · subst hne
      rw [hp] at hr'
      refine ⟨_, hself, ?_⟩
      rw [r.setSpace_position, Option.some.inj hr', hpos]
    · exact ⟨r', (hother hne).trans hr', hpos⟩
  · intro p' r' hr'
    rcases setSpace_slotIds hr' with ⟨rfl, rfl⟩ | ⟨-, hr'⟩
    · rw [r.setSpace_position]
      exact h.owner p' r hp
    · exact h.owner p' r' hr'
  · intro p' r' hr'
    rcases setSpace_slotIds hr' with ⟨rfl, rfl⟩ | ⟨-, hr'⟩
    · rw [r.setSpace_position]
      exact h.bound p' r hp
    · exact h.bound p' r' hr'
  · exact h.irqLive
  · exact h.irqOwn
  · intro i hi
    obtain ⟨p', r', hslot, hr', haddr⟩ := h.served i hi
    by_cases hne : p' = p
    · subst hne
      rw [hp] at hr'
      obtain rfl := Option.some.inj hr'
      refine ⟨p', _, hslot, hself, ?_⟩
      by_cases hs : space = .io
      · subst hs
        intro hnone
        have hpos := h.owner p' r hp
        obtain ⟨r'', hr'', hpos'⟩ := h.registered i p' hslot
        rw [hp] at hr''
        obtain rfl := Option.some.inj hr''
        exact hi (hpos' ▸ hio rfl hnone)
      · have hio' := r.setSpace_of_ne a (Ne.symm hs)
        change (r.setSpace a space).io = r.io at hio'
        rw [hio']
        exact haddr
    · exact ⟨p', r', hslot, (hother hne).trans hr', haddr⟩
  · intro p' r' space' hr'
    rcases setSpace_slotIds hr' with ⟨rfl, rfl⟩ | ⟨hne, hr'⟩
    · rw [r.setSpace_position, setSpace_maps_self]
      by_cases hs : space' = space
      · subst hs
        rw [Function.update_self, r.setSpace_self]
      · rw [Function.update_of_ne hs, r.setSpace_of_ne a hs]
        exact h.counted p' r space' hp
    · have hpos : r'.position ≠ r.position := fun heq => hne (h.position_inj hr' hp heq)
      rw [setSpace_maps_of_ne hpos]
      exact h.counted p' r' space' hr'
  · intro i space' hi
    have hpos : i ≠ r.position := by
      rintro rfl
      exact absurd ((h.owner p r hp).symm.trans hi) nofun
    rw [setSpace_maps_of_ne hpos]
    exact h.unmapped i space' hi
  · intro p' hle
    refine ⟨?_, (h.fresh p' hle).2⟩
    rw [hother]
    · exact (h.fresh p' hle).1
    · rintro rfl
      exact absurd ((h.fresh p' hle).1.symm.trans hp) nofun

theorem setSpace_done {op : Op} (hp : c.slotIds p = some r) (hop : c.Done p' op)
    (hundo : p' = p → op = .unmap space → a.address = none) :
    (c.setSpace p r space a).Done p' op := by
  cases op with
  | map => trivial
  | request => trivial
  | free =>
    intro r' hr'
    rcases setSpace_slotIds hr' with ⟨rfl, rfl⟩ | ⟨-, hr'⟩
    · rw [r.setSpace_position]
      exact hop r hp
    · exact hop r' hr'
  | unmap space' =>
    intro r' hr'
    rcases setSpace_slotIds hr' with ⟨rfl, rfl⟩ | ⟨-, hr'⟩
    · by_cases hs : space' = space
      · subst hs
        rw [r.setSpace_self]
        exact hundo rfl rfl
      · rw [r.setSpace_of_ne a hs]
        exact hop r hp
    · exact hop r' hr'

/-! ## Interrupt handlers -/

theorem requestIrq_eq (irq : SlotIrq) (memory : Bool) :
    (c.requestIrq r irq memory).2 = c ∨
      c.irq r.position = none ∧ memory = true ∧
        (c.requestIrq r irq memory).2 =
          { c with
            irq := Function.update c.irq r.position (some c.next)
            irqs := Function.update c.irqs c.next (some irq)
            control := Function.update c.control r.position
              (TPCI200_INT0_EN ||| TPCI200_INT1_EN)
            next := c.next + 1 } := by
  unfold requestIrq
  split
  · exact .inl rfl
  · next hnone =>
    cases memory with
    | false => exact .inl rfl
    | true => exact .inr ⟨not_not.mp hnone, rfl, rfl⟩

theorem requestIrq_wf (h : c.Wf) (hp : c.slotIds p = some r) (irq : SlotIrq) (memory : Bool)
    (hio : c.irq r.position = none → memory = true → r.io.address ≠ none) :
    (c.requestIrq r irq memory).2.Wf := by
  rcases c.requestIrq_eq irq memory with heq | ⟨hnone, hmem, heq⟩
  · rw [heq]
    exact h
  rw [heq]
  have hlive {q : Ptr} {i : Nat} (hq : c.irq i = some q) : q ≠ c.next := by
    rintro rfl
    exact h.irqLive i _ hq (h.fresh _ (Nat.le_refl _)).2
  constructor
  · exact h.registered
  · exact h.owner
  · exact h.bound
  · intro i q hq
    rcases update_cases hq with ⟨-, hq⟩ | ⟨-, hq⟩
    · obtain rfl := Option.some.inj hq
      show Function.update c.irqs c.next (some irq) c.next ≠ none
      rw [Function.update_self]
      nofun
    · show Function.update c.irqs c.next (some irq) q ≠ none
      rw [Function.update_of_ne (hlive hq)]
      exact h.irqLive i q hq
  · intro i j q hi hj
    rcases update_cases hi with ⟨rfl, hq⟩ | ⟨-, hi⟩
    · rcases update_cases hj with ⟨rfl, -⟩ | ⟨-, hj⟩
      · rfl
      · exact absurd (Option.some.inj hq).symm (hlive hj)
    · rcases update_cases hj with ⟨rfl, hq⟩ | ⟨-, hj⟩
      · exact absurd (Option.some.inj hq).symm (hlive hi)
      · exact h.irqOwn i j q hi hj
  · intro i hi
    by_cases hpos : i = r.position
    · subst hpos
      exact ⟨p, r, h.owner p r hp, hp, hio hnone hmem⟩
    · apply h.served i
      change Function.update c.irq r.position (some c.next) i ≠ none at hi
      rwa [Function.update_of_ne hpos] at hi
  · exact h.counted
  · exact h.unmapped
  · intro p' hle
    have hlt : c.next < p' := hle
    refine ⟨(h.fresh p' (Nat.le_of_lt hlt)).1, ?_⟩
    show Function.update c.irqs c.next (some irq) p' = none
    rw [Function.update_of_ne (Nat.ne_of_gt hlt)]
    exact (h.fresh p' (Nat.le_of_lt hlt)).2

theorem requestIrq_done (h : c.Wf) (hp : c.slotIds p = some r) (irq : SlotIrq)
    (memory : Bool) {op : Op} (hop : c.Done p' op)
    (hundo : c.irq r.position = none → memory = true → p' = p → op ≠ .free) :
    (c.requestIrq r irq memory).2.Done p' op := by
  rcases c.requestIrq_eq irq memory with heq | ⟨hnone, hmem, heq⟩
  · rw [heq]
    exact hop
  rw [heq]
  cases op with
  | map => trivial
  | request => trivial
  | unmap => exact hop
  | free =>
    intro r' hr'
    by_cases hpos : r'.position = r.position
    · exact absurd rfl (hundo hnone hmem (h.position_inj hr' hp hpos))
    · show Function.update c.irq r.position (some c.next) r'.position = none
      rw [Function.update_of_ne hpos]
      exact hop r' hr'

theorem freeIrq_eq :
    c.irq r.position = none ∧ (c.freeIrq r).2 = c ∨ ∃ q, c.irq r.position = some q ∧
      (c.freeIrq r).2 =
        { c with
          irq := Function.update c.irq r.position none
          irqs := Function.update c.irqs q none
          control := Function.update c.control r.position 0 } := by
  unfold freeIrq
  cases hirq : c.irq r.position with
  | none => exact .inl ⟨rfl, rfl⟩
  | some q => exact .inr ⟨q, rfl, rfl⟩

theorem freeIrq_wf (h : c.Wf) : (c.freeIrq r).2.Wf := by
  rcases c.freeIrq_eq (r := r) with ⟨-, heq⟩ | ⟨q, hq, heq⟩
  · rw [heq]
    exact h
  rw [heq]
  -- a slot that still has a handler is another one
  have hother {i : Nat} {q' : Ptr} (hi : Function.update c.irq r.position none i = some q') :
      i ≠ r.position ∧ c.irq i = some q' := by
    rcases update_cases hi with ⟨-, hi⟩ | hi
    · cases hi
    · exact hi
  constructor
  · exact h.registered
  · exact h.owner
  · exact h.bound
  · intro i q' hi
    obtain ⟨hne, hold⟩ := hother hi
    have hq' : q' ≠ q := by
      rintro rfl
      exact hne (h.irqOwn _ _ _ hold hq)
    show Function.update c.irqs q none q' ≠ none
    rw [Function.update_of_ne hq']
    exact h.irqLive i q' hold
  · intro i j q' hi hj
    exact h.irqOwn i j q' (hother hi).2 (hother hj).2
  · intro i hi
    obtain ⟨q', hq'⟩ := Option.ne_none_iff_exists'.mp hi
    refine h.served i ?_
    rw [(hother hq').2]
    nofun
  · exact h.counted
  · exact h.unmapped
  · intro p' hle
    refine ⟨(h.fresh p' hle).1, ?_⟩
    show Function.update c.irqs q none p' = none
    by_cases hp' : p' = q
    · rw [hp', Function.update_self]
    · rw [Function.update_of_ne hp']
      exact (h.fresh p' hle).2

theorem freeIrq_done {op : Op} (hop : c.Done p' op) : (c.freeIrq r).2.Done p' op := by
  rcases c.freeIrq_eq (r := r) with ⟨-, heq⟩ | ⟨q, hq, heq⟩
  · rw [heq]
    exact hop
  rw [heq]
  cases op with
  | map => trivial
  | request => trivial
  | unmap => exact hop
  | free =>
    intro r' hr'
    show Function.update c.irq r.position none r'.position = none
    by_cases hpos : r'.position = r.position
    · rw [hpos, Function.update_self]
    · rw [Function.update_of_ne hpos]
      exact hop r' hr'

theorem freeIrq_done_self (hp : c.slotIds p = some r) : (c.freeIrq r).2.Done p .free := by
  intro r' hr'
  rcases c.freeIrq_eq (r := r) with ⟨hnone, heq⟩ | ⟨q, hq, heq⟩
  · rw [heq] at hr' ⊢
    rw [hp] at hr'
    obtain rfl := Option.some.inj hr'
    exact hnone
  · rw [heq] at hr' ⊢
    obtain rfl := Option.some.inj (hp.symm.trans hr')
    exact Function.update_self ..

/-! ## Registration -/

theorem register_eq (i : Nat) (memory : Bool) :
    (c.register i memory).2 = c ∨ i < TPCI200_NB_SLOT ∧ c.slotId i = none ∧
      (c.register i memory).2 =
        { c with
          slotId := Function.update c.slotId i (some c.next)
          slotIds := Function.update c.slotIds c.next (some { position := i })
          next := c.next + 1 } := by
  unfold register
  split
  · exact .inl rfl
  · next hcond =>
    simp only [not_or, Nat.not_le, not_not] at hcond
    exact .inr ⟨hcond.1, hcond.2.1, rfl⟩

theorem register_wf (h : c.Wf) (i : Nat) (memory : Bool) : (c.register i memory).2.Wf := by
  rcases c.register_eq i memory with heq | ⟨hbound, hfree, heq⟩
  · rw [heq]
    exact h
  rw [heq]
  have hslot {j : Nat} {p' : Ptr} (hj : c.slotId j = some p') : j ≠ i := by
    rintro rfl
    exact absurd (hfree.symm.trans hj) nofun
  have hlive {p' : Ptr} {r' : SlotId} (hp' : c.slotIds p' = some r') : p' ≠ c.next := by
    rintro rfl
    exact absurd ((h.fresh _ (Nat.le_refl _)).1.symm.trans hp') nofun
  have hold {p' : Ptr} {r' : SlotId} (hp' : c.slotIds p' = some r') :
      Function.update c.slotIds c.next (some ({ position := i } : SlotId)) p' = some r' := by
    rw [Function.update_of_ne (hlive hp'), hp']
  constructor
  · intro j p' hj
    rcases update_cases hj with ⟨rfl, hp'⟩ | ⟨-, hj⟩
    · obtain rfl := Option.some.inj hp'
      exact ⟨_, Function.update_self .., rfl⟩
    · obtain ⟨r', hr', hpos⟩ := h.registered j p' hj
      exact ⟨r', hold hr', hpos⟩
  · intro p' r' hr'
    show Function.update c.slotId i (some c.next) r'.position = some p'
    rcases update_cases hr' with ⟨rfl, hnew⟩ | ⟨-, hr'⟩
    · obtain rfl := Option.some.inj hnew
      exact Function.update_self ..
    · rw [Function.update_of_ne (hslot (h.owner p' r' hr'))]
      exact h.owner p' r' hr'
  · intro p' r' hr'
    rcases update_cases hr' with ⟨-, hr'⟩ | ⟨-, hr'⟩
    · obtain rfl := Option.some.inj hr'
      exact hbound
    · exact h.bound p' r' hr'
  · exact h.irqLive
  · exact h.irqOwn
  · intro j hj
    obtain ⟨p', r', hslot', hr', haddr⟩ := h.served j hj
    refine ⟨p', r', ?_, hold hr', haddr⟩
    show Function.update c.slotId i (some c.next) j = some p'
    rw [Function.update_of_ne (hslot hslot')]
    exact hslot'
  · intro p' r' space hr'
    rcases update_cases hr' with ⟨-, hr'⟩ | ⟨-, hr'⟩
    · obtain rfl := Option.some.inj hr'
      show c.maps i space = _
      rw [h.unmapped i space hfree]
      cases space <;> rfl
    · exact h.counted p' r' space hr'
  · intro j space hj
    rcases update_cases hj with ⟨-, hj⟩ | ⟨-, hj⟩
    · cases hj
    · exact h.unmapped j space hj
  · intro p' hle
    have hlt : c.next < p' := hle
    refine ⟨?_, (h.fresh p' (Nat.le_of_lt hlt)).2⟩
    show Function.update c.slotIds c.next _ p' = none
    rw [Function.update_of_ne (Nat.ne_of_gt hlt)]
    exact (h.fresh p' (Nat.le_of_lt hlt)).1

theorem register_done (h : c.Wf) (i : Nat) (memory : Bool) {op : Op} (hop : c.Done p op) :
    (c.register i memory).2.Done p op := by
  rcases c.register_eq i memory with heq | ⟨hbound, hfree, heq⟩
  · rw [heq]
    exact hop
  rw [heq]
  cases op with
  | map => trivial
  | request => trivial
  | unmap space =>
    intro r' hr'
    rcases update_cases hr' with ⟨-, hr'⟩ | ⟨-, hr'⟩
    · obtain rfl := Option.some.inj hr'
      cases space <;> rfl
    · exact hop r' hr'
  | free =>
    intro r' hr'
    rcases update_cases hr' with ⟨-, hr'⟩ | ⟨-, hr'⟩
    · obtain rfl := Option.some.inj hr'
      exact h.irq_eq_none hfree
    · exact hop r' hr'

theorem remove_wf (h : c.Wf) (hp : c.slotIds p = some r) (hirq : c.irq r.position = none)
    (hmaps : ∀ space, (r.space space).address = none) : (c.remove p r).Wf := by
  have hother {p' : Ptr} {r' : SlotId} (hr' : Function.update c.slotIds p none p' = some r') :
      p' ≠ p ∧ c.slotIds p' = some r' := by
    rcases update_cases hr' with ⟨-, hr'⟩ | hr'
    · cases hr'
    · exact hr'
  constructor
  · intro i p' hi
    rcases update_cases hi with ⟨-, hi⟩ | ⟨hne, hi⟩
    · cases hi
    · obtain ⟨r', hr', hpos⟩ := h.registered i p' hi
      have hp' : p' ≠ p := by
        rintro rfl
        obtain rfl := Option.some.inj (hp.symm.trans hr')
        exact hne hpos.symm
      exact ⟨r', (Function.update_of_ne hp' ..).trans hr', hpos⟩
  · intro p' r' hr'
    obtain ⟨hne, hold⟩ := hother hr'
    have hpos : r'.position ≠ r.position := fun heq => hne (h.position_inj hold hp heq)
    exact (Function.update_of_ne hpos ..).trans (h.owner p' r' hold)
  · intro p' r' hr'
    exact h.bound p' r' (hother hr').2
  · exact h.irqLive
  · exact h.irqOwn
  · intro i hi
    obtain ⟨p', r', hslot, hr', haddr⟩ := h.served i hi
    have hne : i ≠ r.position := by
      rintro rfl
      exact hi hirq
    have hp' : p' ≠ p := by
      rintro rfl
      obtain ⟨r'', hr'', hpos⟩ := h.registered i p' hslot
      obtain rfl := Option.some.inj (hp.symm.trans hr'')
      exact hne hpos.symm
    exact ⟨p', r', (Function.update_of_ne hne ..).trans hslot,
      (Function.update_of_ne hp' ..).trans hr', haddr⟩
  · intro p' r' space hr'
    exact h.counted p' r' space (hother hr').2
  · intro i space hi
    rcases update_cases hi with ⟨rfl, -⟩ | ⟨-, hi⟩
    · show c.maps r.position space = 0
      rw [h.counted p r space hp, hmaps space]
      rfl
    · exact h.unmapped i space hi
  · intro p' hle
    refine ⟨?_, (h.fresh p' hle).2⟩
    show Function.update c.slotIds p none p' = none
    by_cases hp' : p' = p
    · rw [hp', Function.update_self]
    · rw [Function.update_of_ne hp']
      exact (h.fresh p' hle).1

theorem remove_done {op : Op} (hop : c.Done p' op) : (c.remove p r).Done p' op := by
  have hother {r' : SlotId} (hr' : Function.update c.slotIds p none p' = some r') :
      c.slotIds p' = some r' := by
    rcases update_cases hr' with ⟨-, hr'⟩ | ⟨-, hr'⟩
    · cases hr'
    · exact hr'
  cases op with
  | map => trivial
  | request => trivial
  | unmap space => exact fun r' hr' => hop r' (hother hr')
  | free => exact fun r' hr' => hop r' (hother hr')

theorem remove_cleared (h : c.Wf) (hp : c.slotIds p = some r)
    (hirq : c.irq r.position = none) (hmaps : ∀ space, (r.space space).address = none) :
    (c.remove p r).Cleared r.position where
  slotId := Function.update_self ..
  irq := hirq
  maps space := by
    show c.maps r.position space = 0
    rw [h.counted p r space hp, hmaps space]
    rfl

/-! ## Interrupts -/

theorem interrupt_wf (h : c.Wf) (status : U16) : (c.interrupt status).Wf :=
  ⟨h.registered, h.owner, h.bound, h.irqLive, h.irqOwn, h.served, h.counted, h.unmapped, h.fresh⟩

theorem interrupt_done {op : Op} (hop : c.Done p op) (status : U16) :
    (c.interrupt status).Done p op := by
  cases op <;> exact hop

end

end Carrier

end Coht.Tpci200
