import CallImpact.Construct
import CallImpact.Proofs.Preorder
import CallImpact.Proofs.Program.Embedding
import Mathlib

/-!
# Fields

The struct that owns a field is found by a walk along a stack of embedded structs, and the type of
the field by a search that goes down from struct to struct. The search stops at an embedded type of
the field's name as well. Where there is none, both stop at the same struct, however the structs
embed each other: the owner declares the field, and first with the type that is found
(`owner_declares_type`).

So for the selectors of a field on values of one type, the place through which the values flow and
the static type are those of one declaration (`Program.IsSelection`). A single selector is one of
these in both respects as long as its base has the same type for both. The type of a selector is
followed one step further than that of its base alone, and where the bound on steps cuts a chain of
variables, a variable with two values can change its type (`long_chain_parts_selector`).
-/

namespace CallImpact

/-- A first answer is that of the first element with one. -/
theorem findSome?_eq_bind_find? {α β : Type} {answer : α → Option β} {test : α → Bool}
    {l : List α} (h : ∀ a ∈ l, (answer a).isSome = test a) :
    l.findSome? answer = (l.find? test).bind answer := by
  induction l with
  | nil => rfl
  | cons a l ih =>
    have hhead := h a List.mem_cons_self
    have htail := ih fun b hb => h b (List.mem_cons_of_mem a hb)
    rw [List.findSome?_cons, List.find?_cons, ← hhead]
    cases hanswer : answer a with
    | none => simpa using htail
    | some b => simp [hanswer]

namespace Program

section
variable {p : Program} {t o u : TypeRef} {name : String}

/-! ## Declarations -/

/-- Whether a struct declares a field with a type, first among its fields of that name. -/
def DeclaresField (p : Program) (o : TypeRef) (name : String) (u : TypeRef) : Prop :=
  ∃ before after embedded, p.shape? o = some (.struct (before ++ (name, u) :: after) embedded) ∧
    ∀ field ∈ before, field.1 ≠ name

/-- Whether no struct within a type embeds a type of a name. -/
def EmbedsNone (p : Program) (t : TypeRef) (name : String) : Prop :=
  ∀ o, p.Embeds t o → ∀ e ∈ p.embeddedTypes o, e.name ≠ name

/-- A type declares a field exactly when it is a struct whose fields have the name, first with this
type. -/
theorem declaresField_iff : p.DeclaresField o name u ↔
    ∃ fields embedded, p.shape? o = some (.struct fields embedded) ∧
      fields.lookup name = some u := by
  simp only [DeclaresField, List.lookup_eq_some_iff, bne_iff_ne, ne_comm (a := name)]
  constructor
  · rintro ⟨before, after, embedded, hshape, hbefore⟩
    exact ⟨_, embedded, hshape, before, after, rfl, hbefore⟩
  · rintro ⟨_, embedded, hshape, before, after, rfl, hbefore⟩
    exact ⟨before, after, embedded, hshape, hbefore⟩

/-- A type declares a field with one type only. -/
theorem DeclaresField.unique {u' : TypeRef} (h : p.DeclaresField o name u)
    (h' : p.DeclaresField o name u') : u = u' := by
  obtain ⟨fields, embedded, hshape, hu⟩ := declaresField_iff.mp h
  obtain ⟨fields', embedded', hshape', hu'⟩ := declaresField_iff.mp h'
  cases hshape.symm.trans hshape'
  exact Option.some.inj (hu.symm.trans hu')

/-- A type owns a field exactly when it declares it with some type. -/
theorem ownsField_iff : p.ownsField name o ↔ ∃ u, p.DeclaresField o name u := by
  simp only [declaresField_iff, ownsField]
  cases p.shape? o with
  | none => simp
  | some shape =>
    cases shape with
    | struct fields embedded =>
      have hany : fields.any (fun field => field.1 == name) = (fields.lookup name).isSome := by
        rw [Bool.eq_iff_iff, List.any_eq_true, List.lookup_isSome_iff]
        simp only [beq_iff_eq, eq_comm (a := name)]
      simp only [hany, Option.isSome_iff_exists]
      constructor
      · rintro ⟨u, hu⟩
        exact ⟨u, fields, embedded, rfl, hu⟩
      · rintro ⟨u, _, _, hshape, hu⟩
        cases hshape
        exact ⟨u, hu⟩
    | interface methods embedded => simp
    | other => simp

/-- Unless a struct embeds a type of the name, it declares just its fields under it. -/
theorem declaredField?_eq_some_iff (h : ∀ e ∈ p.embeddedTypes o, e.name ≠ name) :
    p.declaredField? o name = some u ↔ p.DeclaresField o name u := by
  rw [declaresField_iff]
  unfold embeddedTypes at h
  unfold declaredField?
  split
  · rename_i fields embedded hshape
    rw [hshape] at h
    have hnone : embedded.find? (fun e => e.name == name) = none :=
      List.find?_eq_none.mpr fun e he => by simpa using h e he
    simp [hnone, hshape]
  · rename_i hother
    simpa using fun fields embedded hshape => absurd hshape (hother fields embedded)

/-! ## The two searches -/

/-- The type of a field is the first that is declared in depth-first order. -/
theorem fieldType?_eq_findSome? :
    p.fieldType? t name = (p.embeddedIn t).findSome? fun o => p.declaredField? o name :=
  firstAnswer?_eq _ _ _ _

/-- Where no embedded type has the name of a field, a type declares the field as it is read. -/
theorem EmbedsNone.declaredField?_iff (h : p.EmbedsNone t name) (ho : o ∈ p.embeddedIn t) :
    p.declaredField? o name = some u ↔ p.DeclaresField o name u :=
  declaredField?_eq_some_iff (h o (mem_embeddedIn.mp ho))

/-- Where no embedded type has the name of a field, the type of the field is the one that its owner
declares. -/
theorem EmbedsNone.fieldType?_eq (h : p.EmbedsNone t name) :
    p.fieldType? t name = (p.fieldOwner? t name).bind fun o => p.declaredField? o name := by
  rw [fieldType?_eq_findSome?, fieldOwner?]
  refine findSome?_eq_bind_find? fun o ho => ?_
  rw [Bool.eq_iff_iff, Option.isSome_iff_exists, ownsField_iff]
  exact exists_congr fun u => h.declaredField?_iff ho

/-- The owner of a field lies within the type and declares the field. -/
theorem exists_of_fieldOwner? (h : p.fieldOwner? t name = some o) :
    p.Embeds t o ∧ ∃ u, p.DeclaresField o name u :=
  ⟨mem_embeddedIn.mp (List.mem_of_find?_eq_some h), ownsField_iff.mp (List.find?_some h)⟩

/-- Where a field has no owner, nothing within the type declares it. -/
theorem not_declaresField_of_fieldOwner? (h : p.fieldOwner? t name = none) (ho : p.Embeds t o) :
    ¬ p.DeclaresField o name u := fun hdeclares =>
  List.find?_eq_none.mp h o (mem_embeddedIn.mpr ho) (ownsField_iff.mpr ⟨u, hdeclares⟩)

/-- What the owner of a field declares is what is found as its type. -/
theorem EmbedsNone.fieldType?_of_fieldOwner? (h : p.EmbedsNone t name)
    (howner : p.fieldOwner? t name = some o) (hu : p.DeclaresField o name u) :
    p.fieldType? t name = some u := by
  rw [h.fieldType?_eq, howner, Option.bind_some]
  exact (declaredField?_eq_some_iff (h o (exists_of_fieldOwner? howner).1)).mpr hu

/-! ## Selectors -/

/-- Whether a place and a static type are those of one declaration of a field within a type; a field
that is not declared there is kept with the type itself, and its type is unknown. -/
inductive IsSelection (p : Program) (t : TypeRef) (name : String) : Slot → StaticType → Prop where
  | declared {o u : TypeRef} : p.Embeds t o → p.DeclaresField o name u →
      IsSelection p t name (.field o name) (p.classify u)
  | undeclared : (∀ o u, p.Embeds t o → ¬ p.DeclaresField o name u) →
      IsSelection p t name (.field t name) .unknown

/-- Whether the selectors of a field on values of a type have a place and a static type. -/
structure Selects (p : Program) (t : TypeRef) (name : String) (place : Slot) (type : StaticType) :
    Prop where
  read : ∀ number f targets base, p.staticType f base = .named t →
    FlowGraph.sources p number f targets (.field base name) = pure { slots := [place] }
  stored : ∀ number f, ∀ store ∈ f.decl.body.fieldStores, p.staticType f store.base = .named t →
    store.field = name → (store.value, place) ∈ FlowGraph.localFlows p number f
  filled : ∀ number f, ∀ init ∈ f.decl.body.fieldInits, init.type = t → init.field = name →
    (init.value, place) ∈ FlowGraph.localFlows p number f
  /-- A selector is followed a step further than its base. -/
  typed : ∀ f steps base, p.typeOf f steps base = .named t →
    p.typeOf f (steps + 1) (.field base name) = type

/-- Every selector of a field has the place and the static type that are worked out for it. -/
theorem selects (p : Program) (t : TypeRef) (name : String) :
    p.Selects t name (.field (p.ownerOf t name) name) (p.classify? (p.fieldType? t name)) where
  read number f targets base hbase := by
    rw [FlowGraph.sources, hbase]
  stored number f store hstore hbase hname := by
    unfold FlowGraph.localFlows
    refine List.mem_append_left _ (List.mem_append_left _ ?_)
    refine List.mem_filterMap.mpr ⟨store, hstore, ?_⟩
    rw [hbase, hname]
  filled number f init hinit htype hname := by
    unfold FlowGraph.localFlows
    refine List.mem_append_left _ (List.mem_append_right _ ?_)
    refine List.mem_map.mpr ⟨init, hinit, ?_⟩
    rw [htype, hname]
  typed f steps base hbase := by
    rw [typeOf, hbase]

/-- The place and the type of a selector are those of one declaration. -/
theorem EmbedsNone.isSelection (h : p.EmbedsNone t name) :
    p.IsSelection t name (.field (p.ownerOf t name) name) (p.classify? (p.fieldType? t name)) := by
  cases howner : p.fieldOwner? t name with
  | none =>
    rw [ownerOf, h.fieldType?_eq, howner]
    exact .undeclared fun o u => not_declaresField_of_fieldOwner? howner
  | some o =>
    obtain ⟨hembeds, u, hu⟩ := exists_of_fieldOwner? howner
    rw [ownerOf, h.fieldType?_of_fieldOwner? howner hu, howner]
    exact .declared hembeds hu

end

end Program

/-- Whatever the program and however its types embed each other: where no struct within a type
embeds a type of the name of a field, the field has an owner exactly when it has a type, and then
the owner declares it, first with this type. The place of all selectors of the field on values of
the type and their static type are those of one declaration. -/
theorem owner_declares_type {p : Program} {t : TypeRef} {name : String}
    (h : p.EmbedsNone t name) :
    ((∃ o, p.fieldOwner? t name = some o) ↔ ∃ u, p.fieldType? t name = some u) ∧
    (∀ o u, p.fieldOwner? t name = some o → p.fieldType? t name = some u →
      p.Embeds t o ∧ p.DeclaresField o name u) ∧
    ∃ place type, p.Selects t name place type ∧ p.IsSelection t name place type := by
  have htype : ∀ o, p.fieldOwner? t name = some o →
      ∃ u, p.fieldType? t name = some u ∧ p.Embeds t o ∧ p.DeclaresField o name u := by
    intro o howner
    obtain ⟨hembeds, u, hu⟩ := Program.exists_of_fieldOwner? howner
    exact ⟨u, h.fieldType?_of_fieldOwner? howner hu, hembeds, hu⟩
  refine ⟨⟨?_, ?_⟩, ?_, _, _, Program.selects p t name, h.isSelection⟩
  · rintro ⟨o, howner⟩
    obtain ⟨u, hu, -⟩ := htype o howner
    exact ⟨u, hu⟩
  · rintro ⟨u, hu⟩
    rw [h.fieldType?_eq] at hu
    obtain ⟨o, howner, -⟩ := Option.bind_eq_some_iff.mp hu
    exact ⟨o, howner⟩
  · intro o u howner hu
    obtain ⟨u', hu', hdeclares⟩ := htype o howner
    obtain rfl : u' = u := Option.some.inj (hu'.symm.trans hu)
    exact hdeclares

/-- Structs that embed each other in a circle and on two ways, and of which two declare a field of
one name. -/
def wheel : Program :=
  { modulePath := "m"
    functions := []
    types := [(⟨"m", "Whole"⟩, .struct [] [⟨"m", "Left"⟩, ⟨"m", "Right"⟩]),
      (⟨"m", "Left"⟩, .struct [] [⟨"m", "Base"⟩]),
      (⟨"m", "Right"⟩, .struct [("count", ⟨"m", "Gauge"⟩)] [⟨"m", "Base"⟩, ⟨"m", "Whole"⟩]),
      (⟨"m", "Base"⟩, .struct [("unit", ⟨"m", "Gauge"⟩), ("count", ⟨"m", "Meter"⟩)]
        [⟨"m", "Whole"⟩]),
      (⟨"m", "Meter"⟩, .other), (⟨"m", "Gauge"⟩, .other)] }

/-- A function that stores a value in the field. -/
def turning : Function :=
  { package := "m", packageName := "m", file := "a.go"
    decl :=
      { name := "Turn"
        body :=
          { declared := [("w", ⟨"m", "Whole"⟩)]
            fieldStores := [⟨.var "w", "count", .alloc ⟨"m", "Meter"⟩⟩] } } }

/-- The case of a field that two embedded structs share through a third. -/
theorem owner_declares_type_wheel :
    wheel.EmbedsNone ⟨"m", "Whole"⟩ "count" ∧
      wheel.fieldOwner? ⟨"m", "Whole"⟩ "count" = some ⟨"m", "Base"⟩ ∧
      wheel.fieldType? ⟨"m", "Whole"⟩ "count" = some ⟨"m", "Meter"⟩ ∧
      wheel.DeclaresField ⟨"m", "Base"⟩ "count" ⟨"m", "Meter"⟩ ∧
      ∃ place, FlowGraph.sources wheel 0 turning [] (.field (.var "w") "count") =
          pure { slots := [place] } ∧
        (.alloc ⟨"m", "Meter"⟩, place) ∈ FlowGraph.localFlows wheel 0 turning ∧
        wheel.IsSelection ⟨"m", "Whole"⟩ "count" place
          (wheel.staticType turning (.field (.var "w") "count")) := by
  have horder : wheel.embeddedIn ⟨"m", "Whole"⟩ =
      [⟨"m", "Whole"⟩, ⟨"m", "Left"⟩, ⟨"m", "Base"⟩, ⟨"m", "Right"⟩] := by cbv
  have hnone : wheel.EmbedsNone ⟨"m", "Whole"⟩ "count" := by
    intro o ho
    rw [← Program.mem_embeddedIn, horder] at ho
    revert o
    decide
  have howner : wheel.fieldOwner? ⟨"m", "Whole"⟩ "count" = some ⟨"m", "Base"⟩ := by cbv
  have htype : wheel.fieldType? ⟨"m", "Whole"⟩ "count" = some ⟨"m", "Meter"⟩ := by cbv
  have hbase : ∀ steps, wheel.typeOf turning (steps + 1) (.var "w") = .named ⟨"m", "Whole"⟩ :=
    fun steps => by cbv
  obtain ⟨-, hdeclares, place, type, hselects, hselection⟩ := owner_declares_type hnone
  obtain rfl := hselects.typed turning _ _ (hbase 7)
  exact ⟨hnone, howner, htype, (hdeclares _ _ howner htype).2, place,
    hselects.read 0 turning [] _ (hbase 8),
    hselects.stored 0 turning _ List.mem_cons_self (hbase 8) rfl, hselection⟩

/-! ## The bound on steps -/

/-- A function in which two variables have one name. The first gets its value through seven other
variables, and a method is called on a field of the second. -/
def relaying : Function :=
  { package := "m", packageName := "m", file := "a.go"
    decl :=
      { name := "Work"
        body :=
          { calls := [⟨9, .method (.field (.var "x") "task") "Run", []⟩]
            assigns := [("g", .alloc ⟨"m", "Plan"⟩), ("f", .var "g"), ("e", .var "f"),
              ("d", .var "e"), ("c", .var "d"), ("b", .var "c"), ("a", .var "b"),
              ("x", .var "a"), ("x", .alloc ⟨"m", "Queue"⟩)]
            fieldInits := [⟨⟨"m", "Queue"⟩, "task", .alloc ⟨"m", "Job"⟩⟩] } } }

/-- The types of the two variables declare a field of one name, with a struct and with an interface
that the struct implements. -/
def planning : Program :=
  { modulePath := "m"
    functions :=
      [{ package := "m", packageName := "m", file := "a.go"
         decl := { name := "Run", receiver := some ⟨none, "Job", false⟩ } },
       relaying]
    types := [(⟨"m", "Job"⟩, .struct [] []),
      (⟨"m", "Plan"⟩, .struct [("task", ⟨"m", "Job"⟩)] []),
      (⟨"m", "Queue"⟩, .struct [("task", ⟨"m", "Runner"⟩)] []),
      (⟨"m", "Runner"⟩, .interface ["Run"] [])] }

/-- What each call of the sample program can reach. -/
theorem hierarchyTable_planning : hierarchyTable planning = [[], [[0]]] := by
  have htypes : planning.concreteTypes = [⟨"m", "Job"⟩, ⟨"m", "Plan"⟩, ⟨"m", "Queue"⟩] := by
    decide +kernel
  have hd : planning.dispatches relaying = [.interface ⟨"m", "Runner"⟩ "Run"] := by cbv
  have hcallees : hierarchyTargets planning (.interface ⟨"m", "Runner"⟩ "Run") = [0] := by
    rw [hierarchyTargets, htypes]
    cbv
  rw [hierarchyTable_eq, ← hcallees]
  change [[], (planning.dispatches relaying).map _] = _
  rw [hd]
  rfl

/-- No type of the sample program embeds another. -/
theorem embeddedTypes_planning (t : TypeRef) : planning.embeddedTypes t = [] := by
  by_cases ht : t ∈ planning.types.map (·.1)
  · revert t
    decide
  · rw [Program.embeddedTypes, Program.shape?_eq_none ht]

/-- No struct embeds a type. Yet the place of the selector is that of the first variable's field and
its static type that of the second one's: the base has the type of the first variable, and of the
second when it is followed a step less. By the declaration of either field the call has one target,
and type flow loses it. -/
theorem long_chain_parts_selector :
    let selector : Expr := .field (.var "x") "task"
    (∀ t, planning.embeddedTypes t = []) ∧
      planning.staticType relaying (.var "x") = .named ⟨"m", "Plan"⟩ ∧
      planning.typeOf relaying (Program.typeSteps - 1) (.var "x") = .named ⟨"m", "Queue"⟩ ∧
      (∀ targets, FlowGraph.sources planning 1 relaying targets selector =
        pure { slots := [.field ⟨"m", "Plan"⟩ "task"] }) ∧
      planning.staticType relaying selector = .named ⟨"m", "Runner"⟩ ∧
      (∀ t, ¬ planning.IsSelection t "task" (.field ⟨"m", "Plan"⟩ "task")
        (.named ⟨"m", "Runner"⟩)) ∧
      construct planning .hierarchy [] 50 = .ok { edges := [⟨1, 0, 0⟩] } ∧
      construct planning .typeFlow [] 50 = .ok { edges := [] } := by
  intro selector
  have hplan : planning.DeclaresField ⟨"m", "Plan"⟩ "task" ⟨"m", "Job"⟩ :=
    Program.declaresField_iff.mpr ⟨_, _, by cbv, by cbv⟩
  have hparted : ∀ t, ¬ planning.IsSelection t "task" (.field ⟨"m", "Plan"⟩ "task")
      (.named ⟨"m", "Runner"⟩) := by
    intro t h
    generalize htype : StaticType.named ⟨"m", "Runner"⟩ = type at h
    cases h with
    | declared _ hdeclares =>
      obtain rfl := hdeclares.unique hplan
      revert htype
      decide
    | undeclared => cases htype
  have hhierarchy : construct planning .hierarchy [] 50 = .ok { edges := [⟨1, 0, 0⟩] } := by
    simp only [construct, construction, buildHierarchy, hierarchyTable_planning]
    cbv
  have hflow : construct planning .typeFlow [] 50 = .ok { edges := [] } := by
    simp only [construct, construction, buildTypeFlow, hierarchyTable_planning]
    cbv
  have hplace : ∀ targets, FlowGraph.sources planning 1 relaying targets selector =
      pure { slots := [.field ⟨"m", "Plan"⟩ "task"] } := fun targets => by cbv
  exact ⟨embeddedTypes_planning, by cbv, by cbv, hplace, by cbv, hparted, hhierarchy, hflow⟩

end CallImpact
