import Coht.InsLib.InstallItems

/-!
# The whole file

The modules of all drivers are one row in memory, and each driver has a stretch
of it. `Built` says of such a row that it is as its elements say if all of them
can be read, and only then: if the last element cannot, its module shows it, and
if it can, it has left the modules before it alone.

`insLibParseInstallFile_builds_iff` puts the rows of the drivers together.
-/

namespace Coht.InsLib

/-! ## Modules in a row -/

structure Built (M : List ModlNode) (ms : List ModuleDoc)
    (modls : List ModlNode) : Prop where
  length : modls.length = M.length + ms.length
  described : (∀ m ∈ ms, m.Readable) →
    ∃ nodes, modls = M ++ nodes ∧ List.Forall₂ ModuleDoc.Matches ms nodes
  readable : ∀ M' nodes, modls = M' ++ nodes → M'.length = M.length →
    List.Forall₂ ModuleDoc.Matches ms nodes → ∀ m ∈ ms, m.Readable

section Rows

variable {M modls modls' : List ModlNode} {ms ms' : List ModuleDoc}

theorem Built.nil : Built M [] M where
  length := rfl
  described _ := ⟨[], (List.append_nil M).symm, .nil⟩
  readable _ _ _ _ _ m hm := by cases hm

theorem forall₂_append_split {α β : Type} {P : α → β → Prop} {l₁ l₂ : List α}
    {u : List β} (h : List.Forall₂ P (l₁ ++ l₂) u) :
    ∃ u₁ u₂, u = u₁ ++ u₂ ∧ List.Forall₂ P l₁ u₁ ∧ List.Forall₂ P l₂ u₂ := by
  induction l₁ generalizing u with
  | nil => exact ⟨[], u, rfl, .nil, h⟩
  | cons a l₁ ih =>
    cases h with
    | cons hhead htail =>
      obtain ⟨u₁, u₂, rfl, h₁, h₂⟩ := ih htail
      exact ⟨_ :: u₁, u₂, rfl, .cons hhead h₁, h₂⟩

theorem Built.append (h : Built M ms modls) (h' : Built modls ms' modls') :
    Built M (ms ++ ms') modls' where
  length := by
    rw [h'.length, h.length, List.length_append, Nat.add_assoc]
  described hread := by
    obtain ⟨nodes, hnodes, hmatch⟩ :=
      h.described fun m hm => hread m (List.mem_append_left _ hm)
    obtain ⟨nodes', hnodes', hmatch'⟩ :=
      h'.described fun m hm => hread m (List.mem_append_right _ hm)
    refine ⟨nodes ++ nodes', ?_, List.rel_append hmatch hmatch'⟩
    rw [hnodes', hnodes, List.append_assoc]
  readable M' nodes hsplit hlen hmatch := by
    obtain ⟨nodes₁, nodes₂, rfl, hmatch₁, hmatch₂⟩ := forall₂_append_split hmatch
    rw [← List.append_assoc] at hsplit
    have hlen₁ : (M' ++ nodes₁).length = modls.length := by
      rw [List.length_append, h.length, hlen, hmatch₁.length_eq]
    -- The second row can be read, so it has left the first one alone.
    have hread₂ := h'.readable _ nodes₂ hsplit hlen₁ hmatch₂
    obtain ⟨nodes', hnodes', -⟩ := h'.described hread₂
    have hfirst : modls = M' ++ nodes₁ :=
      (List.append_inj (hnodes'.symm.trans hsplit) hlen₁.symm).1
    have hread₁ := h.readable M' nodes₁ hfirst hlen hmatch₁
    intro m hm
    rcases List.mem_append.mp hm with hm | hm
    · exact hread₁ m hm
    · exact hread₂ m hm

theorem Hangs.built {M' : List ModlNode} {desc : ModlRec} {s₀ s : State}
    {m : ModuleDoc} {node : ModlNode} {b : Bool}
    (h : Hangs M desc s₀ m.items s M' node)
    (hloop : FromLoop (modlTable b).rows m.attrs.list {} desc) :
    Built M [m] s.modls where
  length := by
    rw [h.modls, List.length_append, h.length]
    rfl
  described hread := by
    obtain ⟨rfl, hmatch⟩ := h.matches hloop (hread m List.mem_cons_self)
    exact ⟨[node], h.modls, .cons hmatch .nil⟩
  readable M'' nodes hsplit hlen hmatch := by
    cases hmatch with
    | cons hhead htail =>
      cases htail
      rw [h.modls] at hsplit
      obtain ⟨-, hnode⟩ := List.append_inj' hsplit rfl
      obtain rfl := List.head_eq_of_cons_eq hnode
      intro m' hm'
      rw [List.mem_singleton.mp hm']
      exact h.readable hloop hhead

end Rows

/-! ## Runs over modules -/

def addModuleNodes (n count : Nat) (dd : DrvrNode) : DrvrNode :=
  { desc := { dd.desc with
      moduleCount := dd.desc.moduleCount + BitVec.ofNat 32 count }
    modules := dd.modules ++ List.range' n count }

theorem addModuleNodes_zero {n : Nat} : addModuleNodes n 0 = id := by
  funext dd
  simp [addModuleNodes]

theorem addModuleNodes_one {n : Nat} : addModuleNodes n 1 = addModuleNode n := by
  funext dd
  simp [addModuleNodes, addModuleNode]

theorem addModuleNodes_comp {n count count' : Nat} :
    addModuleNodes (n + count) count' ∘ addModuleNodes n count =
      addModuleNodes n (count + count') := by
  funext dd
  simp only [Function.comp, addModuleNodes, List.append_assoc,
    List.range'_append_1, BitVec.ofNat_add, BitVec.add_assoc]

structure AddsModules (d : Nat) (ms : List ModuleDoc) (s s' : State) : Prop where
  built : Built s.modls ms s'.modls
  reaches : Reaches s'.modls.length s'
  drvrs : s'.drvrs =
    s.drvrs.modify d (addModuleNodes s.modls.length ms.length)
  drvrd : s'.drvrd = s.drvrd
  hosts : s'.hosts = s.hosts
  hostd : s'.hostd = s.hostd

section Modules

variable {mem : Nat → Bool} {d : Nat} {ms ms' : List ModuleDoc} {s s' s'' : State}

theorem AddsModules.nil (h : Reaches s.modls.length s) :
    AddsModules d [] s s where
  built := .nil
  reaches := h
  drvrs := by
    rw [List.length_nil, addModuleNodes_zero, List.modify_id]
  drvrd := rfl
  hosts := rfl
  hostd := rfl

theorem AddsModules.append (h : AddsModules d ms s s')
    (h' : AddsModules d ms' s' s'') : AddsModules d (ms ++ ms') s s'' where
  built := h.built.append h'.built
  reaches := h'.reaches
  drvrs := by
    rw [h'.drvrs, h.drvrs, List.modify_modify_eq, h.built.length,
      addModuleNodes_comp, List.length_append]
  drvrd := h'.drvrd.trans h.drvrd
  hosts := h'.hosts.trans h.hosts
  hostd := h'.hostd.trans h.hostd

theorem Ends.within {r : State × Option CString} {good : Prop}
    {post : State → Prop}
    {f : State × Option CString → Outcome (State × Option CString)}
    (h : Ends (f (r.1, none)) good fun r' => post r'.1) :
    Ends (within f r) good fun r' => post r'.1 := by
  unfold InsLib.within
  cases hf : f (r.1, none) with
  | null e => exact ⟨fun b hb => (by cases hb), fun e he => (by cases he)⟩
  | fault e =>
    refine ⟨fun b hb => (by cases hb), ?_⟩
    rintro _ ⟨⟩
    exact h.fault e hf
  | ok r' =>
    refine ⟨?_, fun e he => (by cases he)⟩
    rintro _ ⟨⟩
    exact h.ok r' hf

theorem module_ends {m : ModuleDoc} {r : State × Option CString}
    (hd : r.1.drvrd = some d) :
    Ends (doNode mem .module m.attrs.list r.2 r.1)
      (Fit (modlTable true).rows m.attrs.list)
      (fun r' => ∃ b desc errors allocs,
        FromLoop (modlTable b).rows m.attrs.list {} desc ∧
        r'.1 = { r.1 with
          errors := errors
          allocs := allocs
          drvrs := r.1.drvrs.modify d (addModuleNode r.1.modls.length)
          modls := r.1.modls ++ [{ desc := desc }]
          modld := some r.1.modls.length }) := by
  have heq : doNode mem .module m.attrs.list r.2 r.1 =
      (handleModuleNode mem m.attrs.list d r.1).bind fun s => .ok (s, r.2) := by
    simp only [doNode, hd]
  rw [heq]
  constructor
  · intro r' hok _
    exact handleModuleNode_ok (bind_pair_ok hok)
  · intro e hfault _
    exact handleModuleNode_fault (bind_pair_fault hfault)

theorem runModule_ends {m : ModuleDoc} {r : State × Option CString}
    (hd : r.1.drvrd = some d) (hreach : Reaches r.1.modls.length r.1) :
    Ends (runModule mem m r) m.Readable
      (fun r' => AddsModules d [m] r.1 r'.1) := by
  refine (module_ends hd).bind ?_
    (fun r' => within_after (runAll_after fun _ _ => runItem_after))
    ModuleDoc.Readable.attrs id
  rintro r' _ ⟨b, desc, errors, allocs, hloop, hr'⟩
  have hstart : Hangs r.1.modls desc r'.1 [] r'.1 r.1.modls { desc := desc } := by
    refine Hangs.start ?_ ?_ ?_ <;> rw [hr']
    exact hreach
  refine Ends.within ⟨?_, ?_⟩
  · intro r'' hok h₀
    obtain ⟨M'', node, h⟩ := (hstart.run (r := (r'.1, none))).ok r'' hok h₀
    exact {
      built := Hangs.built h hloop
      reaches := by
        rw [h.modls, List.length_append, h.length]
        exact h.reaches
      drvrs := by
        rw [h.top.drvrs, hr', List.length_singleton, addModuleNodes_one]
      drvrd := by rw [h.top.drvrd, hr']
      hosts := by rw [h.top.hosts, hr']
      hostd := by rw [h.top.hostd, hr'] }
  · intro e hfault he hread
    exact (hstart.run (r := (r'.1, none))).fault e hfault he
      ⟨hread.placed, hread.order, hread.items⟩

theorem runModules_ends {ms : List ModuleDoc} {r : State × Option CString}
    (hd : r.1.drvrd = some d) (hreach : Reaches r.1.modls.length r.1) :
    Ends (runAll (runModule mem) ms r) (∀ m ∈ ms, m.Readable)
      (fun r' => AddsModules d ms r.1 r'.1) := by
  induction ms generalizing r with
  | nil =>
    refine ⟨?_, fun e he => by cases he⟩
    rintro _ ⟨⟩ _
    exact .nil hreach
  | cons m ms ih =>
    have hrest : ∀ r' : State × Option CString, AddsModules d [m] r.1 r'.1 →
        Ends (runAll (runModule mem) ms r') (∀ m ∈ ms, m.Readable)
          (fun r'' => AddsModules d (m :: ms) r.1 r''.1) := by
      intro r' h
      have hends := ih (h.drvrd.trans hd) h.reaches
      exact ⟨fun r'' hok h₀ => h.append (hends.ok r'' hok h₀), hends.fault⟩
    refine (runModule_ends hd hreach).bind (fun r' _ h => hrest r' h)
      (fun r' => runAll_after fun _ _ => runModule_after)
      (fun hread => hread m List.mem_cons_self) ?_
    exact fun hread m' hm' => hread m' (List.mem_cons_of_mem _ hm')

end Modules

/-! ## Runs over drivers -/

def DriverFrom (n : Nat) (d : DriverDoc) (node : DrvrNode) : Prop :=
  ∃ desc, FromLoop drvrTable.rows d.attrs.list { isdg := -1 } desc ∧
    node = addModuleNodes n d.modules.length ⟨desc, []⟩

def Stretches : Nat → List DriverDoc → List DrvrNode → Prop
  | _, [], [] => True
  | n, d :: ds, node :: nodes =>
    DriverFrom n d node ∧ Stretches (n + d.modules.length) ds nodes
  | _, _, _ => False

def addDriverNodes (n count : Nat) (hd : HostNode) : HostNode :=
  { hd with drivers := hd.drivers ++ List.range' n count }

structure AddsDrivers (h : Nat) (ds : List DriverDoc) (s s' : State) : Prop where
  built : Built s.modls (ds.flatMap (·.modules)) s'.modls
  reaches : Reaches s'.modls.length s'
  drvrs : ∃ nodes, s'.drvrs = s.drvrs ++ nodes ∧
    Stretches s.modls.length ds nodes
  hosts : s'.hosts = s.hosts.modify h (addDriverNodes s.drvrs.length ds.length)
  hostd : s'.hostd = s.hostd

section Drivers

variable {mem : Nat → Bool} {h : Nat} {d : DriverDoc} {ds : List DriverDoc}
  {s s' s'' : State}

theorem Stretches.length {n : Nat} {nodes : List DrvrNode}
    (h : Stretches n ds nodes) : nodes.length = ds.length := by
  induction ds generalizing n nodes with
  | nil =>
    cases nodes with
    | nil => rfl
    | cons => exact h.elim
  | cons d ds ih =>
    cases nodes with
    | nil => exact h.elim
    | cons node nodes => rw [List.length_cons, ih h.2, List.length_cons]

theorem AddsDrivers.nil (hreach : Reaches s.modls.length s) :
    AddsDrivers h [] s s where
  built := .nil
  reaches := hreach
  drvrs := ⟨[], (List.append_nil _).symm, trivial⟩
  hosts := by
    have hid : addDriverNodes s.drvrs.length 0 = id := by
      funext hd
      simp [addDriverNodes]
    rw [List.length_nil, hid, List.modify_id]
  hostd := rfl

theorem AddsDrivers.cons (hd : AddsDrivers h [d] s s')
    (hds : AddsDrivers h ds s' s'') : AddsDrivers h (d :: ds) s s'' where
  built := by
    have hone : [d].flatMap (·.modules) = d.modules := List.append_nil _
    exact (hone ▸ hd.built).append hds.built
  reaches := hds.reaches
  drvrs := by
    obtain ⟨nodes, hnodes, hstretch⟩ := hd.drvrs
    obtain ⟨nodes', hnodes', hstretch'⟩ := hds.drvrs
    have hlen := hd.built.length
    match nodes, hstretch with
    | [node], hstretch =>
      refine ⟨node :: nodes', ?_, hstretch.1, ?_⟩
      · rw [hnodes', hnodes, List.append_assoc]
        rfl
      · rw [hlen] at hstretch'
        simpa using hstretch'
  hosts := by
    obtain ⟨nodes, hnodes, hstretch⟩ := hd.drvrs
    have hlen := hstretch.length
    rw [hds.hosts, hd.hosts, List.modify_modify_eq, hnodes, List.length_append,
      hlen]
    congr 1
    funext hd
    simp only [Function.comp, addDriverNodes, List.append_assoc,
      List.length_cons, List.length_nil, Nat.zero_add]
    rw [List.range'_append_1, Nat.add_comm 1]
  hostd := hds.hostd.trans hd.hostd

theorem driver_ends {r : State × Option CString} (hh : r.1.hostd = some h) :
    Ends (doNode mem .driver d.attrs.list r.2 r.1)
      (Fit drvrTable.rows d.attrs.list)
      (fun r' => ∃ desc errors allocs,
        FromLoop drvrTable.rows d.attrs.list { isdg := -1 } desc ∧
        r'.1 = { r.1 with
          errors := errors
          allocs := allocs
          hosts := r.1.hosts.modify h (addDriverNode r.1.drvrs.length)
          drvrs := r.1.drvrs ++ [⟨desc, []⟩]
          drvrd := some r.1.drvrs.length }) := by
  have heq : doNode mem .driver d.attrs.list r.2 r.1 =
      (handleDriverNode mem d.attrs.list h r.1).bind fun s => .ok (s, r.2) := by
    simp only [doNode, hh]
  rw [heq]
  constructor
  · intro r' hok _
    exact handleDriverNode_ok (bind_pair_ok hok)
  · intro e hfault _
    exact handleDriverNode_fault (bind_pair_fault hfault)

theorem runDriver_ends {r : State × Option CString} (hh : r.1.hostd = some h)
    (hreach : Reaches r.1.modls.length r.1) :
    Ends (runDriver mem d r) (Fit drvrTable.rows d.attrs.list ∧
        ∀ m ∈ d.modules, m.Readable)
      (fun r' => AddsDrivers h [d] r.1 r'.1) := by
  refine (driver_ends hh).bind ?_
    (fun r' => within_after (runAll_after fun _ _ => runModule_after))
    And.left And.right
  rintro r' _ ⟨desc, errors, allocs, hloop, hr'⟩
  have hends : Ends (runAll (runModule mem) d.modules (r'.1, none))
      (∀ m ∈ d.modules, m.Readable)
      (fun r'' => AddsModules r.1.drvrs.length d.modules r'.1 r''.1) :=
    runModules_ends (by rw [hr']) (by dsimp only; rw [hr']; exact hreach)
  refine Ends.within ⟨?_, hends.fault⟩
  intro r'' hok h₀
  have hadds := hends.ok r'' hok h₀
  exact {
    built := by
      have hone : [d].flatMap (·.modules) = d.modules := List.append_nil _
      rw [hone]
      have hbuilt := hadds.built
      rw [show r'.1.modls = r.1.modls by rw [hr']] at hbuilt
      exact hbuilt
    reaches := hadds.reaches
    drvrs := by
      refine ⟨[addModuleNodes r.1.modls.length d.modules.length ⟨desc, []⟩], ?_,
        ⟨desc, hloop, rfl⟩, trivial⟩
      rw [hadds.drvrs]
      rw [hr']
      exact modify_concat _
    hosts := by
      rw [hadds.hosts]
      rw [hr']
      rfl
    hostd := by
      rw [hadds.hostd]
      rw [hr'] }

theorem runDrivers_ends {r : State × Option CString} (hh : r.1.hostd = some h)
    (hreach : Reaches r.1.modls.length r.1) :
    Ends (runAll (runDriver mem) ds r)
      (∀ d ∈ ds, Fit drvrTable.rows d.attrs.list ∧
        ∀ m ∈ d.modules, m.Readable)
      (fun r' => AddsDrivers h ds r.1 r'.1) := by
  induction ds generalizing r with
  | nil =>
    refine ⟨?_, fun e he => by cases he⟩
    rintro _ ⟨⟩ _
    exact .nil hreach
  | cons d ds ih =>
    have hrest : ∀ r' : State × Option CString, AddsDrivers h [d] r.1 r'.1 →
        Ends (runAll (runDriver mem) ds r')
          (∀ d ∈ ds, Fit drvrTable.rows d.attrs.list ∧
            ∀ m ∈ d.modules, m.Readable)
          (fun r'' => AddsDrivers h (d :: ds) r.1 r''.1) := by
      intro r' hd
      have hends := ih (hd.hostd.trans hh) hd.reaches
      exact ⟨fun r'' hok h₀ => hd.cons (hends.ok r'' hok h₀), hends.fault⟩
    refine (runDriver_ends hh hreach).bind (fun r' _ hd => hrest r' hd)
      (fun r' => runAll_after fun _ _ => runDriver_after)
      (fun hread => hread d List.mem_cons_self) ?_
    exact fun hread d' hd' => hread d' (List.mem_cons_of_mem _ hd')

end Drivers

/-! ## The tree and the rows -/

section Tree

variable {α β : Type}

theorem forall₂_range' {P : α → β → Prop} {l : List α} {A nodes B : List β}
    (hlen : nodes.length = l.length) :
    List.Forall₂ (fun a i => ∃ x, (A ++ nodes ++ B)[i]? = some x ∧ P a x) l
      (List.range' A.length l.length) ↔ List.Forall₂ P l nodes := by
  induction l generalizing A nodes with
  | nil =>
    rw [List.length_eq_zero_iff.mp hlen]
    exact ⟨fun _ => .nil, fun _ => .nil⟩
  | cons a l ih =>
    cases nodes with
    | nil => cases hlen
    | cons y nodes =>
      have hshift : A ++ y :: nodes ++ B = (A ++ [y]) ++ nodes ++ B := by
        simp
      have hget : (A ++ y :: nodes ++ B)[A.length]? = some y := by simp
      have hrest := @ih (A ++ [y]) nodes (Nat.succ.inj hlen)
      rw [← hshift, List.length_append, List.length_singleton] at hrest
      rw [List.length_cons, List.range'_succ, List.forall₂_cons,
        List.forall₂_cons, hrest, hget]
      constructor
      · rintro ⟨⟨x, hx, hP⟩, htail⟩
        cases hx
        exact ⟨hP, htail⟩
      · rintro ⟨hP, htail⟩
        exact ⟨⟨y, rfl, hP⟩, htail⟩

theorem drvr_moduleCount {a : Attrs} {desc : DrvrFields}
    (h : FromLoop drvrTable.rows a.list { isdg := -1 } desc) :
    desc.moduleCount = 0 := by
  obtain ⟨pvalu, n, h⟩ := h
  refine attrLoop_keeps (P := fun r => r.moduleCount = 0) ?_ rfl h
  intro row hrow _ r p v n _ hr
  simp only [drvrTable, List.mem_cons, List.not_mem_nil, or_false] at hrow
  rcases hrow with rfl | rfl | rfl | rfl | rfl <;> exact hr

theorem drvr_described_count {a : Attrs} {desc : DrvrFields} {count : BitVec 32} :
    Described drvrTable.rows a.list { desc with moduleCount := count } ↔
      Described drvrTable.rows a.list desc := by
  have hget : ∀ row ∈ drvrTable.rows,
      row.get { desc with moduleCount := count } = row.get desc := by
    intro row hrow
    simp only [drvrTable, List.mem_cons, List.not_mem_nil, or_false] at hrow
    rcases hrow with rfl | rfl | rfl | rfl | rfl <;> rfl
  constructor
  · intro h x hx
    obtain ⟨row, hrow, hkey, hholds⟩ := h x hx
    exact ⟨row, hrow, hkey, hget row hrow ▸ hholds⟩
  · intro h x hx
    obtain ⟨row, hrow, hkey, hholds⟩ := h x hx
    exact ⟨row, hrow, hkey, (hget row hrow).symm ▸ hholds⟩

theorem DriverFrom.matches_iff {d : DriverDoc} {node : DrvrNode}
    {A nodes B : List ModlNode} (h : DriverFrom A.length d node)
    (hlen : nodes.length = d.modules.length) :
    d.Matches (A ++ nodes ++ B) node ↔ Fit drvrTable.rows d.attrs.list ∧
      d.modules.length < 2 ^ 32 ∧
      List.Forall₂ ModuleDoc.Matches d.modules nodes := by
  obtain ⟨desc, hloop, rfl⟩ := h
  have hattrs : Described drvrTable.rows d.attrs.list
      (addModuleNodes A.length d.modules.length ⟨desc, []⟩).desc ↔
      Fit drvrTable.rows d.attrs.list :=
    drvr_described_count.trans ⟨drvr_fit, hloop.described⟩
  have hcount : (addModuleNodes A.length d.modules.length
      ⟨desc, []⟩).desc.moduleCount.toNat = d.modules.length ↔
      d.modules.length < 2 ^ 32 := by
    simp only [addModuleNodes, drvr_moduleCount hloop, BitVec.ofNat_eq_ofNat,
      BitVec.zero_add, BitVec.toNat_ofNat]
    exact Nat.mod_eq_iff_lt (by decide)
  have hmodules : (addModuleNodes A.length d.modules.length
      ⟨desc, []⟩).modules = List.range' A.length d.modules.length := rfl
  unfold DriverDoc.Matches
  rw [hattrs, hcount, hmodules, forall₂_range' hlen]

theorem Stretches.matches_iff {ds : List DriverDoc} {nodes : List DrvrNode}
    {A mnodes : List ModlNode} (h : Stretches A.length ds nodes)
    (hlen : mnodes.length = (ds.flatMap (·.modules)).length) :
    List.Forall₂ (DriverDoc.Matches (A ++ mnodes)) ds nodes ↔
      (∀ d ∈ ds, Fit drvrTable.rows d.attrs.list ∧ d.modules.length < 2 ^ 32) ∧
      List.Forall₂ ModuleDoc.Matches (ds.flatMap (·.modules)) mnodes := by
  induction ds generalizing A nodes mnodes with
  | nil =>
    cases nodes with
    | cons => exact h.elim
    | nil =>
      rw [List.length_eq_zero_iff.mp hlen]
      exact ⟨fun _ => ⟨fun d hd => (by cases hd), .nil⟩, fun _ => .nil⟩
  | cons d ds ih =>
    cases nodes with
    | nil => exact h.elim
    | cons node nodes =>
      rw [List.flatMap_cons, List.length_append] at hlen
      obtain ⟨m₁, m₂, rfl, hlen₁⟩ : ∃ m₁ m₂, mnodes = m₁ ++ m₂ ∧
          m₁.length = d.modules.length := by
        refine ⟨mnodes.take d.modules.length, mnodes.drop d.modules.length,
          (List.take_append_drop _ _).symm, ?_⟩
        rw [List.length_take]
        omega
      have hlen₂ : m₂.length = (ds.flatMap (·.modules)).length := by
        rw [List.length_append] at hlen
        omega
      have htail : Stretches (A ++ m₁).length ds nodes := by
        rw [List.length_append, hlen₁]
        exact h.2
      have hfirst := h.1.matches_iff (B := m₂) hlen₁
      have hrest := ih htail hlen₂
      rw [← List.append_assoc, List.forall₂_cons, hfirst, hrest,
        List.flatMap_cons]
      constructor
      · rintro ⟨⟨hfit, hcount, hmatch⟩, hall, hmatch'⟩
        refine ⟨?_, List.rel_append hmatch hmatch'⟩
        rw [List.forall_mem_cons]
        exact ⟨⟨hfit, hcount⟩, hall⟩
      · rintro ⟨hall, hmatch⟩
        rw [List.forall_mem_cons] at hall
        obtain ⟨u₁, u₂, hu, h₁, h₂⟩ := forall₂_append_split hmatch
        obtain ⟨rfl, rfl⟩ := List.append_inj hu
          (hlen₁.trans h₁.length_eq)
        exact ⟨⟨hall.1.1, hall.1.2, h₁⟩, hall.2, h₂⟩

end Tree

/-! ## A whole file -/

section File

variable {mem : Nat → Bool} {doc : InstallDoc} {s : State}

theorem install_ends {r : State × Option CString} :
    Ends (doNode mem .install doc.attrs.list r.2 r.1)
      (Fit hostTable.rows doc.attrs.list)
      (fun r' => ∃ desc errors allocs,
        FromLoop hostTable.rows doc.attrs.list {} desc ∧
        r'.1 = { r.1 with
          errors := errors
          allocs := allocs
          hosts := r.1.hosts ++ [⟨desc, []⟩]
          hostd := some r.1.hosts.length }) := by
  constructor
  · intro r' hok _
    exact handleInstallNode_ok (bind_pair_ok hok)
  · intro e hfault _
    exact handleInstallNode_fault (bind_pair_fault hfault)

theorem runInstall_ends (hreach : Reaches s.modls.length s) :
    Ends (runInstall mem doc s) (Fit hostTable.rows doc.attrs.list ∧
        ∀ d ∈ doc.drivers, Fit drvrTable.rows d.attrs.list ∧
          ∀ m ∈ d.modules, m.Readable)
      (fun s' => ∃ desc nodes,
        FromLoop hostTable.rows doc.attrs.list {} desc ∧
        s'.hostd = some s.hosts.length ∧
        s'.hosts = s.hosts ++ [⟨desc, List.range' s.drvrs.length
          doc.drivers.length⟩] ∧
        s'.drvrs = s.drvrs ++ nodes ∧
        Stretches s.modls.length doc.drivers nodes ∧
        Built s.modls (doc.drivers.flatMap (·.modules)) s'.modls) := by
  have hrest : ∀ r' : State × Option CString,
      (∃ desc errors allocs,
        FromLoop hostTable.rows doc.attrs.list {} desc ∧
        r'.1 = { s with
          errors := errors
          allocs := allocs
          hosts := s.hosts ++ [⟨desc, []⟩]
          hostd := some s.hosts.length }) →
      Ends ((runAll (runDriver mem) doc.drivers (r'.1, none)).bind
          fun r => .ok r.1)
        (∀ d ∈ doc.drivers, Fit drvrTable.rows d.attrs.list ∧
          ∀ m ∈ d.modules, m.Readable)
        (fun s' => ∃ desc nodes,
          FromLoop hostTable.rows doc.attrs.list {} desc ∧
          s'.hostd = some s.hosts.length ∧
          s'.hosts = s.hosts ++ [⟨desc, List.range' s.drvrs.length
            doc.drivers.length⟩] ∧
          s'.drvrs = s.drvrs ++ nodes ∧
          Stretches s.modls.length doc.drivers nodes ∧
          Built s.modls (doc.drivers.flatMap (·.modules)) s'.modls) := by
    rintro r' ⟨desc, errors, allocs, hloop, hr'⟩
    have hends := @runDrivers_ends mem s.hosts.length doc.drivers (r'.1, none)
      (by rw [hr']) (by dsimp only; rw [hr']; exact hreach)
    cases hall : runAll (runDriver mem) doc.drivers (r'.1, none) with
    | null e => exact ⟨fun b hb => (by cases hb), fun e he => (by cases he)⟩
    | fault e =>
      refine ⟨fun b hb => (by cases hb), ?_⟩
      rintro _ ⟨⟩
      exact hends.fault e hall
    | ok r'' =>
      refine ⟨?_, fun e he => (by cases he)⟩
      rintro _ ⟨⟩ h₀
      obtain ⟨hbuilt, -, ⟨nodes, hnodes, hstretch⟩, hhosts, hhostd⟩ :=
        hends.ok r'' hall h₀
      dsimp only at hbuilt hnodes hstretch hhosts hhostd
      rw [hr'] at hbuilt hnodes hstretch hhosts hhostd
      dsimp only at hbuilt hnodes hstretch hhosts hhostd
      refine ⟨desc, nodes, hloop, hhostd, ?_, hnodes, hstretch, hbuilt⟩
      rw [hhosts, modify_concat]
      rfl
  refine (install_ends (r := (s, none))).bind (fun r' _ h => hrest r' h) ?_
    And.left And.right
  intro r'
  exact (runAll_after fun _ _ => runDriver_after).bind
    fun _ => ⟨Nat.le_refl _, id⟩

theorem runInstall_after : (runInstall mem doc s).After s :=
  doNode_after.bind fun _ =>
    (runAll_after fun _ _ => runDriver_after).bind
      fun _ => ⟨Nat.le_refl _, id⟩

/-- A call that ends without errors has returned the tree that the file describes
if, and only if, the file is one the code can read. -/
theorem insLibParseInstallFile_builds_iff {root : XmlNode}
    (hnest : WellNested root doc) (hreach : Reaches s.modls.length s)
    (h₀ : (insLibParseInstallFile mem (some root) s).errors = 0) :
    Builds (insLibParseInstallFile mem (some root) s) doc ↔ doc.Readable := by
  have heq : insLibParseInstallFile mem (some root) s = runInstall mem doc s :=
    doElement_wellNested hnest s
  rw [heq] at h₀ ⊢
  have hends := @runInstall_ends mem doc s hreach
  cases hrun : runInstall mem doc s with
  | null e =>
    have hafter : (runInstall mem doc s).After s := runInstall_after
    rw [hrun] at hafter h₀
    exact absurd (h₀ : e = 0) (Nat.ne_of_gt (Nat.zero_lt_of_lt hafter))
  | fault e =>
    rw [hrun] at h₀
    have hno := hends.fault e hrun h₀
    constructor
    · rintro ⟨s', h, host, hok, -⟩
      cases hok
    · intro hread
      exact absurd ⟨hread.attrs, fun d hd => ⟨(hread.drivers d hd).attrs,
        (hread.drivers d hd).modules⟩⟩ hno
  | ok s' =>
    rw [hrun] at h₀
    obtain ⟨desc, nodes, hloop, hhostd, hhosts, hdrvrs, hstretch, hbuilt⟩ :=
      hends.ok s' hrun h₀
    have hget : s'.hosts[s.hosts.length]? = some ⟨desc,
        List.range' s.drvrs.length doc.drivers.length⟩ := by
      rw [hhosts, List.getElem?_concat_length]
    have hdrivers : List.Forall₂ (fun d i => ∃ node, s'.drvrs[i]? = some node ∧
          d.Matches s'.modls node) doc.drivers
        (List.range' s.drvrs.length doc.drivers.length) ↔
        List.Forall₂ (DriverDoc.Matches s'.modls) doc.drivers nodes := by
      rw [hdrvrs, ← List.append_nil (s.drvrs ++ nodes)]
      exact forall₂_range' hstretch.length
    constructor
    · rintro ⟨_, h, host, ⟨⟩, hh, hhost, hdesc, hmatch⟩
      obtain rfl : h = s.hosts.length := Option.some.inj (hh.symm.trans hhostd)
      obtain rfl := Option.some.inj (hhost.symm.trans hget)
      have hmatch := hdrivers.mp hmatch
      have hlen := hbuilt.length
      have hsplit := List.take_append_drop s.modls.length s'.modls
      have hfirst : (s'.modls.take s.modls.length).length = s.modls.length := by
        rw [List.length_take]
        omega
      have hsecond : (s'.modls.drop s.modls.length).length =
          (doc.drivers.flatMap (·.modules)).length := by
        rw [List.length_drop]
        omega
      rw [← hsplit, Stretches.matches_iff (hfirst.symm ▸ hstretch) hsecond]
        at hmatch
      have hread := hbuilt.readable _ _ hsplit.symm hfirst hmatch.2
      refine ⟨host_fit hdesc, fun d hd => ⟨(hmatch.1 d hd).1, ?_,
        (hmatch.1 d hd).2⟩⟩
      exact fun m hm => hread m (List.mem_flatMap.mpr ⟨d, hd, hm⟩)
    · intro hread
      obtain ⟨mnodes, hmodls, hmatch⟩ := hbuilt.described fun m hm => by
        obtain ⟨d, hd, hm⟩ := List.mem_flatMap.mp hm
        exact (hread.drivers d hd).modules m hm
      refine ⟨s', _, _, rfl, hhostd, hget, hloop.described hread.attrs, ?_⟩
      rw [hdrivers, hmodls, hstretch.matches_iff hmatch.length_eq.symm]
      exact ⟨fun d hd => ⟨(hread.drivers d hd).attrs,
        (hread.drivers d hd).count⟩, hmatch⟩

end File

/-! ## A module with so many spaces -/

def attr (name value : String) : XmlAttr := ⟨ascii name, some (ascii value)⟩

def spaceAttrs : Attrs :=
  ⟨[attr "modifier" "0x39", attr "data_width" "16", attr "window_size" "0x100",
    attr "address" "0x1000"], by decide⟩

/-- A host with one driver for one VME module with `n` address spaces. -/
def vmeDoc (n : Nat) : InstallDoc where
  attrs := ⟨[attr "host" "dsccts"], by decide⟩
  drivers :=
    [{ attrs := ⟨[attr "name" "CVORG"], by decide⟩
       modules :=
         [{ attrs := ⟨[attr "bus_type" "VME"], by decide⟩
            items := .address .vme ⟨[], by decide⟩ ::
              List.replicate n (.space .vme spaceAttrs)
            oneInterrupt := by
              simp [interrupts] }] }]

def vmeSpaces : Nat → XmlNode
  | 0 => .nil
  | n + 1 => .element (ascii "vme_space") spaceAttrs.list .nil (vmeSpaces n)

def vmeFile (n : Nat) : XmlNode :=
  .element (ascii "install") [attr "host" "dsccts"]
    (.element (ascii "driver") [attr "name" "CVORG"]
      (.element (ascii "module") [attr "bus_type" "VME"]
        (.element (ascii "vme") [] .nil (vmeSpaces n)) .nil) .nil) .nil

theorem vmeFile_wellNested (n : Nat) : WellNested (vmeFile n) (vmeDoc n) := by
  have hspaces : ∀ n, (vmeSpaces n).Elements IsItem
      (List.replicate n (.space .vme spaceAttrs)) := by
    intro n
    induction n with
    | zero => rfl
    | succ n ih => exact ⟨⟨by decide, rfl, trivial⟩, ih⟩
  have hitems : ((XmlNode.element (ascii "vme") [] .nil (vmeSpaces n)).Elements
      IsItem (.address .vme ⟨[], by decide⟩ ::
        List.replicate n (.space .vme spaceAttrs))) :=
    ⟨⟨by decide, rfl, trivial⟩, hspaces n⟩
  exact ⟨by decide, rfl, ⟨⟨by decide, rfl, ⟨by decide, rfl, hitems⟩, rfl⟩, rfl⟩,
    trivial⟩

def Outcome.faulted : Outcome State → Bool
  | .fault _ => true
  | _ => false

theorem not_builds_of_faulted {o : Outcome State} {doc : InstallDoc}
    (h : o.faulted = true) : ¬ Builds o doc := by
  rintro ⟨s, hostd, host, rfl, -⟩
  cases h

/-- With the third space the walk along the list leaves it. -/
theorem three_spaces_lost :
    WellNested (vmeFile 3) (vmeDoc 3) ∧
      (insLibParseInstallFile (fun _ => true) (some (vmeFile 3)) {}).errors = 0 ∧
      ¬ Builds (insLibParseInstallFile (fun _ => true) (some (vmeFile 3)) {})
        (vmeDoc 3) := by
  have hparsed : (insLibParseInstallFile (fun _ => true) (some (vmeFile 3)) {}).errors = 0 ∧
      (insLibParseInstallFile (fun _ => true) (some (vmeFile 3)) {}).faulted = true := by
    decide +kernel
  exact ⟨vmeFile_wellNested 3, hparsed.1, not_builds_of_faulted hparsed.2⟩

theorem insLibParseInstallFile_builds_iff_two :
    (insLibParseInstallFile (fun _ => true) (some (vmeFile 2)) {}).errors = 0 ∧
      (Builds (insLibParseInstallFile (fun _ => true) (some (vmeFile 2)) {})
        (vmeDoc 2) ↔ (vmeDoc 2).Readable) := by
  have h₀ : (insLibParseInstallFile (fun _ => true) (some (vmeFile 2))
      {}).errors = 0 := by decide +kernel
  have hreach : Reaches ([] : List ModlNode).length {} := by
    rintro k q (h | h) <;> cases h
  exact ⟨h₀, insLibParseInstallFile_builds_iff (vmeFile_wellNested 2) hreach h₀⟩

end Coht.InsLib
