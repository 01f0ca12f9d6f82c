import CallImpact.Proofs.Facts.Values
import CallImpact.Proofs.Facts.Walk

/-!
# Calls are recorded once

A call can be met twice while a body is visited: by a look at a value that comes from it, and by the
visit itself. Which comes first depends on the syntax around it. The visit of a tree records all its
calls (`records_visit`), so every function that a file keeps has one entry for each call of its
body, and one allocation for each literal or `new` of a known type (`calls_recorded_once`).
-/

namespace CallImpact

open Go (Node Spot IsTree)

namespace Walk

/-! ## Bindings and literals -/

section
variable {tree : List Spot} (ht : IsTree tree) (scope : Scope) (order : List Spot)
include ht

/-- To bind what is assigned to records nothing but calls. -/
theorem records_bindTarget {target : Spot} (hs : target ∈ tree) (given : Expr) :
    RecordsOnly scope tree order (bindTarget scope target given) := by
  unfold bindTarget
  split
  · split
    · exact .pure trivial
    · refine (records_bindName target.text).bind fun order' _ _ _ => ?_
      exact records_recordOnly (fun _ => rfl) fun _ => rfl
  · split
    · next operand field h _ =>
      refine (records_value ht scope operand (ht.child? hs h) order).bind fun order' base _ _ => ?_
      exact records_recordOnly (fun _ => rfl) fun _ => rfl
    · exact .pure trivial
  · exact .pure trivial

/-- To find the values of an assignment records nothing but calls. -/
theorem records_valuesFor (targets : Nat) {right : List Spot} (hright : ∀ s ∈ right, s ∈ tree) :
    RecordsOnly scope tree order (valuesFor scope targets right) := by
  unfold valuesFor
  split
  · exact (records_values id fun s hs order =>
      records_value ht scope s (hright s hs) order).only
  · cases right with
    | nil => exact .pure trivial
    | cons first rest =>
      exact (records_value ht scope first (hright first List.mem_cons_self) order).bind
        fun _ _ _ _ => .pure trivial

/-- To bind the sides of an assignment records nothing but calls. -/
theorem records_bindAll {left right : List Spot} (hleft : ∀ s ∈ left, s ∈ tree)
    (hright : ∀ s ∈ right, s ∈ tree) : RecordsOnly scope tree order (bindAll scope left right) := by
  unfold bindAll
  refine (records_valuesFor ht scope order left.length hright).bind fun order' given _ _ => ?_
  refine .forIn (fun x hx u order'' _ => ?_) _
  have htarget := hleft x.1 (List.of_mem_zip hx).1
  exact (records_bindTarget ht scope order'' htarget x.2).bind fun _ _ _ _ => .pure trivial

/-- The same of the sides of an assignment statement. -/
theorem records_bindSides {s : Spot} (hs : s ∈ tree) :
    RecordsOnly scope tree order (bindSides scope s) :=
  records_bindAll ht scope order (fun _ hc => ht.namedIn hs hc) fun _ hc => ht.namedIn hs hc

omit ht in
/-- A loop that binds names. -/
theorem records_bindNames {α : Type} (xs : List α) (name : α → String) :
    RecordsOnly scope tree order (do for x in xs do bindName (name x)) := by
  refine Records.bind (Records.forIn (fun x _ _ order' _ => ?_) _) fun _ _ _ _ => .pure trivial
  exact (records_bindName (name x)).bind fun _ _ _ _ => .pure trivial

/-- The same of a declaration of variables. -/
theorem records_varSpec {s : Spot} (hs : s ∈ tree) :
    RecordsOnly scope tree order (varSpec scope s) := by
  have hbind : ∀ order', RecordsOnly scope tree order'
      (bindAll scope (s.childrenIn .name) (s.namedIn .value)) := fun order' =>
    records_bindAll ht scope order' (fun _ hc => ht.childrenIn hs hc) fun _ hc => ht.namedIn hs hc
  unfold varSpec
  dsimp only
  split
  · refine Records.bind (records_recordOnly (fun _ => rfl) fun _ => rfl) fun order' _ _ _ => ?_
    exact (hbind order').bind fun order'' _ _ _ => records_bindNames scope order'' _ _
  · exact (hbind order).bind fun order' _ _ _ => records_bindNames scope order' _ _

/-- What an element of a literal wraps is in the tree. -/
theorem mem_unwrapElement {s : Spot} (hs : s ∈ tree) : unwrapElement s ∈ tree := by
  unfold unwrapElement
  split
  · cases h : s.named.head? with
    | none => exact hs
    | some inner => exact ht.named hs (List.mem_of_head? h)
  · exact hs

/-- To read an element of a literal records nothing but calls. -/
theorem records_fieldInit (type : TypeRef) {element : Spot} (hs : element ∈ tree) :
    RecordsOnly scope tree order (fieldInit scope type element) := by
  unfold fieldInit
  dsimp only
  split
  · next key given _ h =>
    split
    · have hgiven : given ∈ tree := by
        obtain ⟨x, hx, rfl⟩ := Option.map_eq_some_iff.mp h
        refine mem_unwrapElement ht ?_
        cases hvalue : element.child? .value with
        | some inner =>
          rw [hvalue] at hx
          cases hx
          exact ht.child? hs hvalue
        | none =>
          rw [hvalue] at hx
          exact ht.named hs (List.mem_of_getLast? hx)
      refine (records_value ht scope given hgiven order).bind fun order' e _ _ => ?_
      exact records_recordOnly (fun _ => rfl) fun _ => rfl
    · exact .pure trivial
  · exact .pure trivial

/-- A literal of a known type allocates it. -/
theorem records_composite {s : Spot} (hs : s ∈ tree) :
    Records scope tree order ((s.child? .type).bind fun t => scope.typeRef? t.node).toList
      (composite scope s) fun _ _ => True := by
  unfold composite
  split
  · rename_i hnone
    rw [hnone]
    exact .pure trivial
  · next type htype =>
    rw [htype]
    have hmade : Records scope tree order [type]
        (record fun b => { b with allocs := b.allocs ++ [type] }) fun _ _ => True :=
      records_record (fun _ => rfl) fun _ => rfl
    refine hmade.seq fun order' _ _ _ => ?_
    split
    · exact .pure trivial
    · next body hbody =>
      refine Records.bind (Records.forIn (fun element helement _ order'' _ => ?_) _)
        fun _ _ _ _ => .pure trivial
      have hmem := ht.named (ht.child? hs hbody) (List.mem_filter.mp helement).1
      exact (records_fieldInit ht scope order'' type hmem).bind fun _ _ _ _ => .pure trivial

/-! ## The visit -/

omit ht in
/-- A node that is neither a call nor a literal. -/
theorem records_other {s : Spot} {m : Walk Unit} (hcall : s.kind ≠ .callExpression)
    (hliteral : s.kind ≠ .compositeLiteral) (h : RecordsOnly scope tree order m) :
    Records scope tree order (scope.allocated? s).toList m fun order' _ =>
      scope.IsCall s → s ∈ order' := by
  have hallocated : scope.allocated? s = none := by
    unfold Scope.allocated?
    split
    · exact absurd ‹_› hcall
    · exact absurd ‹_› hliteral
    · rfl
  rw [hallocated]
  exact h.mono fun _ _ _ _ h => absurd h.1 hcall

/-- A node is recorded when it is a call, and what it allocates is allocated. -/
theorem records_enter {s : Spot} (hs : s ∈ tree) :
    Records scope tree order (scope.allocated? s).toList (enter scope s) fun order' _ =>
      scope.IsCall s → s ∈ order' := by
  unfold enter
  split
  · rename_i hkind
    rw [Scope.allocated?, hkind]
    dsimp only
    split
    · next type hnew =>
      rw [hnew]
      have hmade : Records scope tree order [type]
          (record fun b => { b with allocs := b.allocs ++ [type] }) fun _ _ => True :=
        records_record (fun _ => rfl) fun _ => rfl
      refine hmade.mono fun _ _ _ _ hcall => ?_
      rw [hcall.2] at hnew
      cases hnew
    · next hnew =>
      rw [hnew]
      have hcall := records_call ht scope s hs ⟨hkind, hnew⟩ order
      exact hcall.seq fun _ _ _ h => .pure fun _ => h.1
  · rename_i hkind
    rw [Scope.allocated?, hkind]
    exact (records_composite ht scope order hs).mono fun _ _ _ _ hcall => by
      cases hkind.symm.trans hcall.1
  · rename_i hkind
    exact records_other scope order (by simp [hkind]) (by simp [hkind])
      (records_bindSides ht scope order hs)
  · rename_i hkind
    refine records_other scope order (by simp [hkind]) (by simp [hkind]) ?_
    split
    · exact records_bindSides ht scope order hs
    · exact .pure trivial
  · rename_i hkind
    exact records_other scope order (by simp [hkind]) (by simp [hkind])
      (records_varSpec ht scope order hs)
  · rename_i hkind
    refine records_other scope order (by simp [hkind]) (by simp [hkind]) ?_
    split
    · next first h =>
      obtain ⟨list, hlist, hfirst⟩ := Option.bind_eq_some_iff.mp h
      have hmem := ht.named (ht.named hs (List.mem_of_head? hlist)) (List.mem_of_head? hfirst)
      refine (records_value ht scope first hmem order).bind fun order' e _ _ => ?_
      exact records_recordOnly (fun _ => rfl) fun _ => rfl
    · exact .pure trivial
  · rename_i hkind
    refine records_other scope order (by simp [hkind]) (by simp [hkind]) ?_
    split
    · refine Records.bind (Records.forIn (fun param _ _ order' _ => ?_) _) fun _ _ _ _ =>
        .pure trivial
      have hbind : ∀ order'' name, RecordsOnly scope tree order''
          (do bindName name; return ForInStep.yield PUnit.unit) := fun _ name =>
        (records_bindName name).bind fun _ _ _ _ => .pure trivial
      split
      · next name _ =>
        dsimp only
        split
        · exact Records.bind (records_recordOnly (fun _ => rfl) fun _ => rfl)
            fun order'' _ _ _ => hbind order'' name
        · exact hbind order' name
      · exact .pure trivial
    · exact .pure trivial
  · rename_i hkind
    refine records_other scope order (by simp [hkind]) (by simp [hkind]) ?_
    split
    · exact records_bindNames scope order _ _
    · exact .pure trivial
  · rename_i hcall hliteral _ _ _ _ _ _
    exact records_other scope order hcall hliteral (.pure trivial)

end

mutual

/-- The visit of a tree records all its calls, and allocates what its nodes allocate, in order. -/
theorem records_visit {tree : List Spot} (ht : IsTree tree) (scope : Scope) (path : List Nat)
    (node : Node) (hnode : node.spots path ⊆ tree) (order : List Spot) :
    Records scope tree order ((node.spots path).filterMap scope.allocated?) (visit scope path node)
      fun order' _ => ∀ s ∈ node.spots path, scope.IsCall s → s ∈ order' := by
  cases node with
  | mk kind role text extent children =>
    rw [Node.spots] at hnode ⊢
    obtain ⟨hself, hbelow⟩ := List.cons_subset.mp hnode
    have hallocs : ∀ (s : Spot) rest, (s :: rest).filterMap scope.allocated? =
        (scope.allocated? s).toList ++ rest.filterMap scope.allocated? := fun s rest => by
      rw [List.filterMap_cons]
      cases scope.allocated? s with
      | none => rfl
      | some type => rfl
    rw [visit, hallocs]
    refine (records_enter ht scope order hself).seq fun order' _ _ henter => ?_
    refine (records_visitAll ht scope path 0 children hbelow order').mono
      fun order'' _ hmore hall => ?_
    exact List.forall_mem_cons.mpr ⟨fun hcall => hmore.subset (henter hcall), hall⟩

/-- A visit of siblings records the calls among them and what they allocate. -/
theorem records_visitAll {tree : List Spot} (ht : IsTree tree) (scope : Scope) (path : List Nat)
    (position : Nat) (nodes : List Node) (hnodes : Node.listSpots path position nodes ⊆ tree)
    (order : List Spot) :
    Records scope tree order ((Node.listSpots path position nodes).filterMap scope.allocated?)
      (visitAll scope path position nodes)
      fun order' _ => ∀ s ∈ Node.listSpots path position nodes, scope.IsCall s → s ∈ order' := by
  cases nodes with
  | nil =>
    rw [visitAll]
    exact .pure (by simp [Node.listSpots])
  | cons node nodes =>
    rw [Node.listSpots] at hnodes ⊢
    obtain ⟨hfirst, hrest⟩ := List.append_subset.mp hnodes
    rw [visitAll, List.filterMap_append]
    refine (records_visit ht scope _ node hfirst order).seq fun order' _ _ hfirst => ?_
    refine (records_visitAll ht scope path _ nodes hrest order').mono
      fun order'' _ hmore hrest => ?_
    refine List.forall_mem_append.mpr ⟨fun s hs hcall => ?_, hrest⟩
    exact hmore.subset (hfirst s hs hcall)

end

end Walk

/-! ## Functions and files -/

/-- Whether the facts of a body have one entry for each call among some nodes, and one allocation
for each node that allocates. The entries are those of the calls in an order in which a call comes
after the calls nested in it. -/
structure BodyFacts.RecordsNodes (scope : Scope) (nodes : List Spot) (body : BodyFacts) : Prop where
  calls : ∃ order : List Spot, order.Perm (nodes.filter fun s => scope.IsCall s) ∧
    List.Forall₂ (IsEntryOf scope) order body.calls ∧
    ∀ (i j : Nat) (inner outer : Spot), order[i]? = some inner → order[j]? = some outer →
      NestedIn scope inner outer → i < j
  allocs : body.allocs = nodes.filterMap scope.allocated?

/-- The nodes of the body of a declaration, if it has one. -/
def bodySpots (decl : Node) : List Spot :=
  ((decl.child? .body).map (Node.spots [])).getD []

/-- The facts of a body record its nodes. -/
theorem Scope.bodyFacts_recordsNodes (scope : Scope) (names : List String) (body : Option Node) :
    (scope.bodyFacts names body).RecordsNodes scope ((body.map (Node.spots [])).getD []) := by
  cases body with
  | none => exact ⟨⟨[], .nil, .nil, nofun⟩, rfl⟩
  | some body =>
    have hempty := hasRecorded_empty scope (body.spots []) names
    obtain ⟨order, -, hrecorded, hallocs, hall⟩ :=
      Walk.records_visit (Go.isTree_spots [] body) scope [] body (List.Subset.refl _) [] _ hempty
    refine ⟨⟨order, ?_, hrecorded.entries, ?_⟩, hallocs⟩
    · have hnodup : (body.spots []).Nodup := (Node.nodup_paths [] body).of_map Spot.path
      refine (List.perm_ext_iff_of_nodup hrecorded.nodup (hnodup.filter _)).mpr fun s => ?_
      rw [List.mem_filter, decide_eq_true_eq]
      exact ⟨hrecorded.calls s, fun h => hall s h.1 h.2⟩
    · intro i j inner outer hi hj hnested
      obtain ⟨k, hk⟩ := List.mem_iff_getElem?.mp (hrecorded.nested j outer hj inner hnested)
      rw [List.getElem?_take] at hk
      split at hk
      · rename_i hlt
        have hi' : i < order.length := (List.getElem?_eq_some_iff.mp hi).1
        have heq : i = k := (List.getElem?_inj hi' hrecorded.nodup).mp (hi.trans hk.symm)
        rwa [heq]
      · cases hk

/-- What a function gives for the elements of a list for which it gives something. -/
theorem forall₂_filter_filterMap {α β : Type} (g : α → Option β) (xs : List α) :
    List.Forall₂ (fun x y => g x = some y) (xs.filter fun x => (g x).isSome) (xs.filterMap g) := by
  induction xs with
  | nil => exact .nil
  | cons x xs ih =>
    rw [List.filter_cons, List.filterMap_cons]
    cases h : g x with
    | none => exact ih
    | some y => exact .cons h ih

/-- The functions of a file are those of its declarations that are kept, in order. The facts of each
have one entry for every call in the body, after the calls nested in it, and one allocation for
every literal and every `new` of a known type. -/
theorem calls_recorded_once (root : Node) (path package : String) :
    let scope : Scope := { packagePath := package, imports := importsOf root }
    List.Forall₂
      (fun decl f => scope.function? decl = some f ∧ f.body.RecordsNodes scope (bodySpots decl))
      ((root.named.filter isFunctionDecl).filter fun decl => (scope.function? decl).isSome)
      (extractFile root path package).functions := by
  intro scope
  have hkept := forall₂_filter_filterMap scope.function? (root.named.filter isFunctionDecl)
  refine hkept.imp fun decl f hf => ⟨hf, ?_⟩
  obtain ⟨names, hbody⟩ := exists_bodyFacts_of_function? hf
  rw [hbody]
  exact scope.bodyFacts_recordsNodes names (decl.child? .body)

end CallImpact
