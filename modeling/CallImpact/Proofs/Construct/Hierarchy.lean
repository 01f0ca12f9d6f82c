import CallImpact.Construct.Hierarchy
import CallImpact.Proofs.Construct.Budget
import CallImpact.Proofs.Ordered

/-!
# Direct calls and the type hierarchy

A construction finds the callees of every call of every function. `edgesOf` puts such a table into
edges: they come in increasing order (`pairwise_edgesOf`), and a table with fewer callees gives part
of the edges (`edgesOf_sublist`). The constructions from direct calls and from the type hierarchy
give the edges of two tables that depend on the dispatch of each call alone
(`buildDirect_costs`, `buildHierarchy_costs`); what is remembered between calls does not show
(`hierarchyTable_eq`).
-/

namespace CallImpact

/-! ## Tables of callees -/

/-- The edges of the calls of one function, from its callees by call. -/
def edgesFrom (caller : Nat) (sites : List (List Nat)) : List Edge :=
  sites.zipIdx.flatMap fun (callees, site) => edgesTo caller site callees

/-- The edges of all functions, from their callees by function and call. -/
def edgesOf (table : List (List (List Nat))) : List Edge :=
  table.zipIdx.flatMap fun (sites, caller) => edgesFrom caller sites

/-- The edges of a call to some callees are those of the call with one of the callees. -/
theorem mem_edgesTo {caller site : Nat} {callees : List Nat} {e : Edge} :
    e ∈ edgesTo caller site callees ↔ e.caller = caller ∧ e.site = site ∧ e.callee ∈ callees := by
  cases e
  simp [edgesTo, eq_comm, and_left_comm]

/-- An edge of a table is in the cell of its call. -/
theorem mem_edgesOf {table : List (List (List Nat))} {e : Edge} :
    e ∈ edgesOf table ↔ ∃ sites callees, table[e.caller]? = some sites ∧
      sites[e.site]? = some callees ∧ e.callee ∈ callees := by
  simp only [edgesOf, edgesFrom, List.mem_flatMap, Prod.exists, List.mem_zipIdx_iff_getElem?,
    mem_edgesTo]
  constructor
  · rintro ⟨sites, caller, hsites, callees, site, hcallees, rfl, rfl, hmem⟩
    exact ⟨sites, callees, hsites, hcallees, hmem⟩
  · rintro ⟨sites, callees, hsites, hcallees, hmem⟩
    exact ⟨sites, e.caller, hsites, callees, e.site, hcallees, rfl, rfl, hmem⟩

/-- The edges of a call, from its callees. -/
theorem mem_edgesOf_of_getElem? {table : List (List (List Nat))} {sites : List (List Nat)}
    {cs : List Nat} {caller site callee : Nat} (hsites : table[caller]? = some sites)
    (hcs : sites[site]? = some cs) : ⟨caller, site, callee⟩ ∈ edgesOf table ↔ callee ∈ cs := by
  rw [mem_edgesOf]
  constructor
  · rintro ⟨sites', cs', hsites', hcs', hmem⟩
    obtain rfl : sites' = sites := Option.some.inj (hsites'.symm.trans hsites)
    obtain rfl : cs' = cs := Option.some.inj (hcs'.symm.trans hcs)
    exact hmem
  · exact fun hmem => ⟨sites, cs, hsites, hcs, hmem⟩

/-! ## Order -/

/-- Edges in order, none twice. -/
def Edge.Lt (a b : Edge) : Prop :=
  a.caller < b.caller ∨ a.caller = b.caller ∧
    (a.site < b.site ∨ a.site = b.site ∧ a.callee < b.callee)

instance : Std.Irrefl Edge.Lt where
  irrefl a h := by
    unfold Edge.Lt at h
    omega

instance : Std.Antisymm Edge.Lt where
  antisymm a b hab hba := by
    unfold Edge.Lt at hab hba
    omega

/-- What is listed for each element of a list in order is in order when it is in order for each
element and elements of later ones are greater. -/
theorem pairwise_flatMap_zipIdx {α β : Type} {r : β → β → Prop} {f : α × Nat → List β} {xs : List α}
    (hself : ∀ x ∈ xs, ∀ i, (f (x, i)).Pairwise r)
    (hlater : ∀ x y i j a b, i < j → a ∈ f (x, i) → b ∈ f (y, j) → r a b) :
    (xs.zipIdx.flatMap f).Pairwise r := by
  rw [List.pairwise_flatMap]
  refine ⟨fun x hx => hself x.1 (List.fst_mem_of_mem_zipIdx hx) x.2, ?_⟩
  have hidx : (xs.zipIdx.map (·.2)).Pairwise (· < ·) := by
    rw [List.zipIdx_map_snd]
    exact List.pairwise_lt_range'
  refine (List.pairwise_map.mp hidx).imp fun {x y} hij a ha b hb => ?_
  exact hlater x.1 y.1 x.2 y.2 a b hij ha hb

/-- The edges of a table are in order when the callees of each call are. -/
theorem pairwise_edgesOf {table : List (List (List Nat))}
    (h : ∀ sites ∈ table, ∀ callees ∈ sites, callees.Pairwise (· < ·)) :
    (edgesOf table).Pairwise Edge.Lt := by
  refine pairwise_flatMap_zipIdx (fun sites hsites caller => ?_) ?_
  · refine pairwise_flatMap_zipIdx (fun callees hcallees site => ?_) ?_
    · refine List.pairwise_map.mpr ((h sites hsites callees hcallees).imp fun hlt => ?_)
      exact .inr ⟨rfl, .inr ⟨rfl, hlt⟩⟩
    · intro x y i j a b hij ha hb
      obtain ⟨hac, has, -⟩ := mem_edgesTo.mp ha
      obtain ⟨hbc, hbs, -⟩ := mem_edgesTo.mp hb
      exact .inr ⟨hac.trans hbc.symm, .inl (by rw [has, hbs]; exact hij)⟩
  · intro x y i j a b hij ha hb
    obtain ⟨s, -, ha⟩ := List.mem_flatMap.mp ha
    obtain ⟨t, -, hb⟩ := List.mem_flatMap.mp hb
    exact .inl (by rw [(mem_edgesTo.mp ha).1, (mem_edgesTo.mp hb).1]; exact hij)

/-! ## Fewer callees -/

/-- A list of parts, element by element, gives part of what the whole lists give. -/
theorem flatMap_zipIdx_sublist {α β γ : Type} {R : α → β → Prop} {f : α × Nat → List γ}
    {g : β × Nat → List γ} (hfg : ∀ a b i, R a b → (f (a, i)).Sublist (g (b, i)))
    {xs : List α} {ys : List β} (h : List.Forall₂ R xs ys) :
    (xs.zipIdx.flatMap f).Sublist (ys.zipIdx.flatMap g) := by
  have hall : ∀ k, ((xs.zipIdx k).flatMap f).Sublist ((ys.zipIdx k).flatMap g) := by
    induction h with
    | nil => exact fun k => List.Sublist.refl _
    | cons hab _ ih =>
      intro k
      rw [List.zipIdx_cons, List.zipIdx_cons, List.flatMap_cons, List.flatMap_cons]
      exact (hfg _ _ k hab).append (ih (k + 1))
  exact hall 0

/-- A table with fewer callees gives part of the edges. -/
theorem edgesOf_sublist {fewer more : List (List (List Nat))}
    (h : List.Forall₂ (List.Forall₂ List.Sublist) fewer more) :
    (edgesOf fewer).Sublist (edgesOf more) := by
  refine flatMap_zipIdx_sublist (fun sites sites' caller hsites => ?_) h
  refine flatMap_zipIdx_sublist (fun callees callees' site hcallees => ?_) hsites
  exact hcallees.map _

/-! ## Direct calls -/

/-- What a call calls directly. -/
def directTargets : Dispatch → List Nat
  | .static callee => [callee]
  | .interface _ _ | .dynamic _ | .external => []

/-- A dynamic call calls nothing directly. -/
theorem directTargets_of_method {d : Dispatch} {method : String} (h : d.method? = some method) :
    directTargets d = [] := by
  cases d with
  | static callee => cases h
  | interface iface method => rfl
  | dynamic method => rfl
  | external => rfl

/-- The direct edges of a function are those to the direct targets of its calls. -/
theorem directEdges_eq (caller : Nat) (sites : List Dispatch) :
    directEdges caller sites = edgesFrom caller (sites.map directTargets) := by
  rw [directEdges, edgesFrom, List.zipIdx_map, List.flatMap_map]
  refine List.flatMap_congr fun x _ => ?_
  obtain ⟨d, site⟩ := x
  cases d <;> rfl

/-- The construction from direct calls costs a step for each function, and gives the edges of what
calls call directly. -/
theorem buildDirect_costs (p : Program) : Costs (buildDirect p) p.size
    { edges := edgesOf ((dispatchTable p).map (List.map directTargets)) } := by
  have hrow : ∀ x ∈ (dispatchTable p).zipIdx,
      Costs (do tick; return directEdges x.2 x.1) 1 (directEdges x.2 x.1) := fun x _ =>
    Costs.tick.bind_pure
  have hsum : ((dispatchTable p).zipIdx.map fun _ => 1).sum = p.size := by
    simp [dispatchTable, Program.size]
  have hedges : ((dispatchTable p).zipIdx.map fun x => directEdges x.2 x.1).flatten =
      edgesOf ((dispatchTable p).map (List.map directTargets)) := by
    rw [edgesOf, List.zipIdx_map, List.flatMap_map, List.flatMap_def]
    simp only [directEdges_eq]
    rfl
  rw [← hsum, ← hedges]
  exact (Costs.mapM hrow).bind_pure

/-! ## The type hierarchy -/

/-- All that a call can reach by the type hierarchy. -/
def hierarchyTargets (p : Program) (d : Dispatch) : List Nat :=
  match d with
  | .static callee => [callee]
  | .interface _ method | .dynamic method =>
    methodsOf p (p.concreteTypes.filter (admits p d)) method
  | .external => []

/-- What a call calls directly it reaches by the type hierarchy. -/
theorem directTargets_sublist (p : Program) (d : Dispatch) :
    (directTargets d).Sublist (hierarchyTargets p d) := by
  cases d with
  | static callee => exact List.Sublist.refl _
  | interface iface method => exact List.nil_sublist _
  | dynamic method => exact List.nil_sublist _
  | external => exact List.nil_sublist _

namespace Hierarchy

/-- Whether what is remembered is what would be found again. -/
structure Faithful (p : Program) (h : Hierarchy) : Prop where
  byInterface : ∀ iface method found, h.byInterface.lookup (iface, method) = some found →
    found = hierarchyTargets p (.interface iface method)
  byMethod : ∀ method found, h.byMethod.lookup method = some found →
    found = hierarchyTargets p (.dynamic method)

/-- Nothing is remembered at first. -/
theorem faithful_empty (p : Program) : Faithful p {} where
  byInterface _ _ _ h := by cases h
  byMethod _ _ h := by cases h

/-- Looking up the targets of a call finds what the type hierarchy has. -/
theorem targets_spec {p : Program} {h : Hierarchy} (hf : Faithful p h) (d : Dispatch) :
    (targets p d h).1 = hierarchyTargets p d ∧ Faithful p (targets p d h).2 := by
  cases d with
  | static callee => exact ⟨rfl, hf⟩
  | external => exact ⟨rfl, hf⟩
  | interface iface method =>
    unfold targets
    dsimp only
    split
    · rename_i found hfound
      exact ⟨hf.byInterface iface method found hfound, hf⟩
    · refine ⟨rfl, fun iface' method' found hfound => ?_, hf.byMethod⟩
      rw [List.lookup_cons] at hfound
      split at hfound
      · rename_i heq
        obtain ⟨rfl, rfl⟩ : iface' = iface ∧ method' = method := by simpa using heq
        cases hfound
        rfl
      · exact hf.byInterface iface' method' found hfound
  | dynamic method =>
    unfold targets
    dsimp only
    split
    · rename_i found hfound
      exact ⟨hf.byMethod method found hfound, hf⟩
    · refine ⟨rfl, hf.byInterface, fun method' found hfound => ?_⟩
      rw [List.lookup_cons] at hfound
      split at hfound
      · rename_i heq
        obtain rfl : method' = method := by simpa using heq
        cases hfound
        rfl
      · exact hf.byMethod method' found hfound

/-- Looking up the targets of one call after another finds what the type hierarchy has for each. -/
theorem targetsAll_spec {p : Program} {h : Hierarchy} (hf : Faithful p h) (ds : List Dispatch) :
    (targetsAll p ds h).1 = ds.map (hierarchyTargets p) ∧ Faithful p (targetsAll p ds h).2 := by
  induction ds generalizing h with
  | nil => exact ⟨rfl, hf⟩
  | cons d ds ih =>
    obtain ⟨hd, hf'⟩ := targets_spec hf d
    obtain ⟨hds, hf''⟩ := ih hf'
    exact ⟨congrArg₂ List.cons hd hds, hf''⟩

/-- Looking up the targets of the calls of one function after another finds what the type hierarchy
has for each. -/
theorem targetsTable_spec {p : Program} {h : Hierarchy} (hf : Faithful p h)
    (table : List (List Dispatch)) :
    (targetsTable p table h).1 = table.map (List.map (hierarchyTargets p)) ∧
      Faithful p (targetsTable p table h).2 := by
  induction table generalizing h with
  | nil => exact ⟨rfl, hf⟩
  | cons sites table ih =>
    obtain ⟨hs, hf'⟩ := targetsAll_spec hf sites
    obtain ⟨ht, hf''⟩ := ih hf'
    exact ⟨congrArg₂ List.cons hs ht, hf''⟩

end Hierarchy

/-- What is remembered does not show: the targets of a call depend on its dispatch alone. -/
theorem hierarchyTable_eq (p : Program) :
    hierarchyTable p = (dispatchTable p).map (List.map (hierarchyTargets p)) :=
  (Hierarchy.targetsTable_spec (Hierarchy.faithful_empty p) _).1

/-- The construction by the type hierarchy costs a step for each call, and gives the edges of all
that calls can reach. -/
theorem buildHierarchy_costs (p : Program) :
    Costs (buildHierarchy p) (p.functions.map fun f => f.decl.body.calls.length).sum
      { edges := edgesOf ((dispatchTable p).map (List.map (hierarchyTargets p))) } := by
  have hrow : ∀ x ∈ (hierarchyTable p).zipIdx, Costs
      (x.1.zipIdx.mapM fun y => do tick; return edgesTo x.2 y.2 y.1)
      (x.1.zipIdx.map fun _ => 1).sum (x.1.zipIdx.map fun y => edgesTo x.2 y.2 y.1) := fun x _ =>
    Costs.mapM fun y _ => Costs.tick.bind_pure
  have hsum : ((hierarchyTable p).zipIdx.map fun x => (x.1.zipIdx.map fun _ => 1).sum).sum =
      (p.functions.map fun f => f.decl.body.calls.length).sum := by
    have hlength : ((hierarchyTable p).zipIdx.map fun x => (x.1.zipIdx.map fun _ => 1).sum) =
        (hierarchyTable p).map List.length := by
      conv_rhs => rw [← List.zipIdx_map_fst 0 (hierarchyTable p), List.map_map]
      exact List.map_congr_left fun x _ => by simp
    rw [hlength, hierarchyTable_eq, dispatchTable, List.map_map, List.map_map]
    congr 1
    exact List.map_congr_left fun f _ => by simp [Program.dispatches]
  have hedges : ((hierarchyTable p).zipIdx.map fun x =>
      x.1.zipIdx.map fun y => edgesTo x.2 y.2 y.1).flatten.flatten =
      edgesOf ((dispatchTable p).map (List.map (hierarchyTargets p))) := by
    rw [edgesOf, hierarchyTable_eq, List.flatMap_def, List.flatten_flatten, List.map_map]
    rfl
  rw [← hsum, ← hedges]
  exact (Costs.mapM hrow).bind_pure

/-- The callees of a call by the type hierarchy are in order. -/
theorem pairwise_hierarchyTargets (p : Program) (d : Dispatch) :
    (hierarchyTargets p d).Pairwise (· < ·) := by
  cases d with
  | static callee => exact List.pairwise_singleton _ _
  | interface iface method => exact pairwise_orderedNats _
  | dynamic method => exact pairwise_orderedNats _
  | external => exact .nil

/-- The edges of the type hierarchy are in order. -/
theorem pairwise_hierarchyEdges (p : Program) :
    (edgesOf ((dispatchTable p).map (List.map (hierarchyTargets p)))).Pairwise Edge.Lt := by
  refine pairwise_edgesOf fun sites hsites callees hcallees => ?_
  obtain ⟨ds, -, rfl⟩ := List.mem_map.mp hsites
  obtain ⟨d, -, rfl⟩ := List.mem_map.mp hcallees
  exact pairwise_hierarchyTargets p d

/-- The methods of some types are those that are looked up in one of them. -/
theorem mem_methodsOf {p : Program} {types : List TypeRef} {method : String} {n : Nat} :
    n ∈ methodsOf p types method ↔ ∃ t ∈ types, p.lookupMethod? t method = some n := by
  rw [methodsOf, mem_orderedNats, List.mem_filterMap]

/-! ## Concrete types -/

/-- The concrete types are listed. -/
theorem mem_concreteTypes {p : Program} {t : TypeRef} : t ∈ p.concreteTypes ↔ p.isConcrete t := by
  rw [Program.concreteTypes, List.mem_filter, mem_orderedSet connected_typeRef,
    and_iff_right_iff_imp]
  intro h
  have hdecl : (p.types.lookup t).isSome := (Bool.and_eq_true _ _ ▸ h).1
  obtain ⟨entry, hentry, hkey⟩ := List.lookup_isSome_iff.mp hdecl
  exact List.mem_map.mpr ⟨entry, hentry, (eq_of_beq hkey).symm⟩

/-- Only concrete types answer dynamic calls. -/
theorem isConcrete_of_admits {p : Program} {d : Dispatch} {t : TypeRef} (h : admits p d t) :
    p.isConcrete t := by
  cases d with
  | static callee => cases h
  | external => cases h
  | interface iface method =>
    simp only [admits, Program.implements, Bool.and_eq_true] at h
    exact h.1.2
  | dynamic method =>
    simp only [admits, Program.hasMethod, Program.methodSet] at h
    split at h
    · assumption
    · simp at h

/-- By the type hierarchy a dynamic call reaches the methods of all types that answer it. -/
theorem mem_hierarchyTargets {p : Program} {d : Dispatch} {method : String} {n : Nat}
    (hd : d.method? = some method) :
    n ∈ hierarchyTargets p d ↔ ∃ t, admits p d t ∧ p.lookupMethod? t method = some n := by
  have hmethods : n ∈ methodsOf p (p.concreteTypes.filter (admits p d)) method ↔
      ∃ t, admits p d t ∧ p.lookupMethod? t method = some n := by
    simp only [mem_methodsOf, List.mem_filter, mem_concreteTypes]
    constructor
    · rintro ⟨t, ⟨-, hadmits⟩, hn⟩
      exact ⟨t, hadmits, hn⟩
    · rintro ⟨t, hadmits, hn⟩
      exact ⟨t, ⟨isConcrete_of_admits hadmits, hadmits⟩, hn⟩
  cases d with
  | static callee => cases hd
  | external => cases hd
  | interface iface method' =>
    cases hd
    exact hmethods
  | dynamic method' =>
    cases hd
    exact hmethods

/-- Methods of types that answer a dynamic call are among what the call can reach. -/
theorem methodsOf_sublist_hierarchyTargets {p : Program} {d : Dispatch} {method : String}
    (hd : d.method? = some method) {types : List TypeRef} (h : ∀ t ∈ types, admits p d t) :
    (methodsOf p types method).Sublist (hierarchyTargets p d) := by
  have hsub : types ⊆ p.concreteTypes.filter (admits p d) := fun t ht =>
    List.mem_filter.mpr ⟨mem_concreteTypes.mpr (isConcrete_of_admits (h t ht)), h t ht⟩
  have hmethods :=
    orderedNats_sublist (List.filterMap_subset (fun t => p.lookupMethod? t method) hsub)
  cases d with
  | static callee => cases hd
  | external => cases hd
  | interface iface method' =>
    cases hd
    exact hmethods
  | dynamic method' =>
    cases hd
    exact hmethods

end CallImpact
