import CallImpact.Construct
import CallImpact.Proofs.Construct.Outcome
import CallImpact.Proofs.Program.Dispatch
import Mathlib

/-!
# Embedding

A type has the methods that it declares and those that the types it embeds declare, directly or
further in (`Program.Provides`). An interface requires what it lists and what the interfaces it
embeds list (`Program.Requires`). A concrete type implements the interfaces whose requirements it
provides (`Program.implements_iff`), and by the type hierarchy a call through an interface calls the
methods of these types (`covering_types_answer`).

An interface that a struct embeds provides nothing, although its methods are promoted as well. So a
struct that embeds an interface and declares some of its methods anew does not implement it, and no
call through the interface reaches the methods that the struct declares
(`embedded_interface_unanswered`).
-/

namespace CallImpact

namespace Program

/-! ## Methods by embedding -/

/-- Whether a way of struct embedding leads from a type to another. -/
abbrev Embeds (p : Program) : TypeRef → TypeRef → Prop :=
  Relation.ReflTransGen fun t u => u ∈ p.embeddedTypes t

/-- Whether a way of interface embedding leads from a type to another. -/
abbrev Extends (p : Program) : TypeRef → TypeRef → Prop :=
  Relation.ReflTransGen fun i j => j ∈ p.embeddedInterfaces i

/-- Whether a type itself declares a method. -/
def Declares (p : Program) (t : TypeRef) (method : String) : Prop :=
  ∃ f ∈ p.functions, f.receiverType? = some t ∧ f.name = method

/-- Whether a type or one that it embeds declares a method. -/
def Provides (p : Program) (t : TypeRef) (method : String) : Prop :=
  ∃ u, p.Embeds t u ∧ p.Declares u method

/-- Whether an interface or one that it embeds lists a method. -/
def Requires (p : Program) (iface : TypeRef) (method : String) : Prop :=
  ∃ j, p.Extends iface j ∧ method ∈ p.listedMethods j

/-- Whether a concrete type provides all that an interface requires, at least one method. -/
structure Covers (p : Program) (t iface : TypeRef) : Prop where
  concrete : p.isConcrete t
  required : ∃ method, p.Requires iface method
  provided : ∀ method, p.Requires iface method → p.Provides t method

section
variable {p : Program} {t u iface : TypeRef} {method : String}

/-- A type that is not declared has no shape. -/
theorem shape?_eq_none (h : t ∉ p.types.map (·.1)) : p.shape? t = none := by
  refine List.lookup_eq_none_iff.mpr fun entry hentry => bne_iff_ne.mpr fun heq => h ?_
  exact heq ▸ List.mem_map_of_mem hentry

/-- The types listed within a type are those it embeds, directly or further down. -/
theorem mem_embeddedIn : u ∈ p.embeddedIn t ↔ p.Embeds t u :=
  mem_preorder fun t ht => by rw [embeddedTypes, shape?_eq_none ht]

/-- The order in which the interfaces that one embeds are put on the stack does not matter. -/
theorem mem_interfaceMethods : method ∈ p.interfaceMethods iface ↔ p.Requires iface method := by
  have hstack : ∀ j, j ∈ preorder (p.types.map (·.1)) (fun i => (p.embeddedInterfaces i).reverse)
      iface ↔ p.Extends iface j := fun j => by
    rw [mem_preorder fun t ht => by rw [embeddedInterfaces, shape?_eq_none ht, List.reverse_nil]]
    simp only [List.mem_reverse]
  simp only [interfaceMethods, mem_orderedTexts, List.mem_flatMap, hstack, Requires]

/-- The declared methods of a type are those it declares. -/
theorem mem_declaredMethods : method ∈ p.declaredMethods t ↔ p.Declares t method := by
  simp only [declaredMethods, Declares, List.mem_map, List.mem_filter, beq_iff_eq, and_assoc]

/-- The method set gathers what the embedded structs declare, in depth-first order. -/
theorem methodSet_eq (ht : p.isConcrete t) :
    p.methodSet t = (p.embeddedIn t).flatMap p.declaredMethods := by
  rw [methodSet, if_pos ht, gathered_eq, embeddedIn]

/-- The method set of a concrete type holds what the type provides. -/
theorem mem_methodSet : method ∈ p.methodSet t ↔ p.isConcrete t ∧ p.Provides t method := by
  by_cases ht : p.isConcrete t
  · simp only [methodSet_eq ht, ht, List.mem_flatMap, mem_embeddedIn, mem_declaredMethods, Provides,
      true_and]
  · simp [methodSet, ht]

/-- A type is listed for a method exactly when it is concrete and provides the method. -/
theorem hasMethod_iff : p.hasMethod t method ↔ p.isConcrete t ∧ p.Provides t method := by
  rw [hasMethod, List.contains_iff_mem, mem_methodSet]

/-- A type implements just the interfaces that it covers. -/
theorem implements_iff : p.implements t iface ↔ p.Covers t iface := by
  have hrequired : (!(p.interfaceMethods iface).isEmpty) ↔ ∃ method, p.Requires iface method := by
    simp only [← mem_interfaceMethods, Bool.not_eq_true', List.isEmpty_eq_false_iff_exists_mem]
  simp only [implements, Bool.and_eq_true, hrequired, List.all_eq_true, List.contains_iff_mem,
    mem_interfaceMethods, mem_methodSet]
  constructor
  · rintro ⟨⟨hrequired, hconcrete⟩, hall⟩
    exact ⟨hconcrete, hrequired, fun method hmethod => (hall method hmethod).2⟩
  · rintro ⟨hconcrete, hrequired, hall⟩
    exact ⟨⟨hrequired, hconcrete⟩, fun method hmethod => ⟨hconcrete, hall method hmethod⟩⟩

/-! ## Lookups -/

/-- A declared method is found exactly when the type declares one of the name. -/
theorem isSome_declaredMethod?_iff : (p.declaredMethod? t method).isSome ↔ p.Declares t method := by
  simp only [declaredMethod?, Option.isSome_map, List.find?_isSome, List.mem_reverse, Declares,
    Bool.and_eq_true, beq_iff_eq, Prod.exists, List.mem_zipIdx_iff_getElem?]
  constructor
  · rintro ⟨f, i, hf, hdeclares⟩
    exact ⟨f, List.mem_of_getElem? hf, hdeclares⟩
  · rintro ⟨f, hf, hdeclares⟩
    obtain ⟨i, hi⟩ := List.mem_iff_getElem?.mp hf
    exact ⟨f, i, hi, hdeclares⟩

/-- A method is found in a type exactly when the type provides it. -/
theorem isSome_lookupMethod?_iff : (p.lookupMethod? t method).isSome ↔ p.Provides t method := by
  simp only [lookupMethod?_eq, List.findSome?_isSome_iff, mem_embeddedIn,
    isSome_declaredMethod?_iff, Provides]

/-- What a type itself declares comes before all that it embeds. -/
theorem lookupMethod?_of_declaredMethod? {n : Nat} (h : p.declaredMethod? t method = some n) :
    p.lookupMethod? t method = some n := by
  obtain ⟨rest, hrest⟩ := exists_preorder_eq_cons (p.types.map (·.1)) p.embeddedTypes t
  rw [lookupMethod?_eq, embeddedIn, hrest, List.findSome?_cons_of_isSome (by simp [h]), h]

end

end Program

/-! ## Calls through interfaces -/

/-- Whatever the program: a type has the methods that it provides, and implements the interfaces
that it covers. So whenever the type hierarchy works out, a call through an interface calls the
methods of just the types that cover the interface. Each such type answers with what it declares
itself, and it does answer when the interface requires the method. -/
theorem covering_types_answer {p : Program} {entries : List Nat} {maxSteps : Nat} {r : Resolution}
    (h : construct p .hierarchy entries maxSteps = .ok r) :
    (∀ t method, p.hasMethod t method ↔ p.isConcrete t ∧ p.Provides t method) ∧
    (∀ t iface, p.implements t iface ↔ p.Covers t iface) ∧
    ∀ caller site f iface method, p.functions[caller]? = some f →
      (p.dispatches f)[site]? = some (.interface iface method) →
      (∀ n, ⟨caller, site, n⟩ ∈ r.edges ↔
        ∃ t, p.Covers t iface ∧ p.lookupMethod? t method = some n) ∧
      ∀ t, p.Covers t iface →
        (∀ n, p.declaredMethod? t method = some n → ⟨caller, site, n⟩ ∈ r.edges) ∧
        (p.Requires iface method →
          ∃ n, p.lookupMethod? t method = some n ∧ ⟨caller, site, n⟩ ∈ r.edges) := by
  refine ⟨fun _ _ => Program.hasMethod_iff, fun _ _ => Program.implements_iff, ?_⟩
  intro caller site f iface method hf hd
  have hedges : ∀ n, ⟨caller, site, n⟩ ∈ r.edges ↔
      ∃ t, p.Covers t iface ∧ p.lookupMethod? t method = some n := by
    intro n
    rw [mem_edges_hierarchy h hf hd, mem_hierarchyTargets rfl]
    simp only [admits, Program.implements_iff]
  refine ⟨hedges, fun t hcovers => ⟨fun n hn => ?_, fun hrequires => ?_⟩⟩
  · exact (hedges n).mpr ⟨t, hcovers, Program.lookupMethod?_of_declaredMethod? hn⟩
  · have hprovides := hcovers.provided method hrequires
    obtain ⟨n, hn⟩ := Option.isSome_iff_exists.mp (Program.isSome_lookupMethod?_iff.mpr hprovides)
    exact ⟨n, hn, (hedges n).mpr ⟨t, hcovers, hn⟩⟩

/-- A function that calls a method through an interface. -/
def storing : Function :=
  { package := "m", packageName := "m", file := "a.go"
    decl :=
      { name := "Use", params := [⟨some "s", some ⟨"m", "Store"⟩⟩]
        body := { calls := [⟨9, .method (.var "s") "Get", []⟩] } } }

/-- A struct that embeds a type and declares one of the two methods of an interface; another struct
declares the other. -/
def decorating (embedded : TypeRef) : Program :=
  let method (receiver name : String) : Function :=
    { package := "m", packageName := "m", file := "a.go"
      decl := { name, receiver := some ⟨none, receiver, true⟩ } }
  { modulePath := "m"
    functions := [method "Cache" "Get", method "Disk" "Put", storing]
    types := [(⟨"m", "Cache"⟩, .struct [] [embedded]), (⟨"m", "Disk"⟩, .struct [] []),
      (⟨"m", "Store"⟩, .interface ["Get", "Put"] [])] }

/-- What the type hierarchy gives for it, from the callees of its one call. -/
theorem construct_decorating {embedded : TypeRef} {callees : List Nat}
    (hdispatch : (decorating embedded).dispatches storing = [.interface ⟨"m", "Store"⟩ "Get"])
    (hcallees : hierarchyTargets (decorating embedded)
      (.interface ⟨"m", "Store"⟩ "Get") = callees) :
    construct (decorating embedded) .hierarchy [] 5 = .ok { edges := edgesTo 2 0 callees } := by
  have htable : hierarchyTable (decorating embedded) = [[], [], [callees]] := by
    rw [hierarchyTable_eq, ← hcallees]
    change [[], [], ((decorating embedded).dispatches storing).map _] = _
    rw [hdispatch]
    rfl
  simp [construct, construction, buildHierarchy, htable, Budgeted.run, tick, pure, StateT.pure,
    Except.pure, bind, StateT.bind, Except.bind, Except.map]

/-- The case of two structs that each declare one of the two methods of an interface, and the first
embeds the second. -/
theorem covering_types_answer_decorating :
    construct (decorating ⟨"m", "Disk"⟩) .hierarchy [] 5 = .ok { edges := [⟨2, 0, 0⟩] } ∧
      ∃ t, (decorating ⟨"m", "Disk"⟩).Covers t ⟨"m", "Store"⟩ ∧
        (decorating ⟨"m", "Disk"⟩).lookupMethod? t "Get" = some 0 := by
  have htypes : (decorating ⟨"m", "Disk"⟩).concreteTypes = [⟨"m", "Cache"⟩, ⟨"m", "Disk"⟩] := by
    decide +kernel
  have hd : (decorating ⟨"m", "Disk"⟩).dispatches storing =
      [.interface ⟨"m", "Store"⟩ "Get"] := by cbv
  have hcallees : hierarchyTargets (decorating ⟨"m", "Disk"⟩) (.interface ⟨"m", "Store"⟩ "Get") =
      [0] := by
    rw [hierarchyTargets, htypes]
    cbv
  have hrun : construct (decorating ⟨"m", "Disk"⟩) .hierarchy [] 5 =
      .ok { edges := [⟨2, 0, 0⟩] } := construct_decorating hd hcallees
  obtain ⟨-, -, hcalls⟩ := covering_types_answer hrun
  have hedges := (hcalls 2 0 storing _ "Get" rfl (congrArg (·[0]?) hd)).1
  exact ⟨hrun, (hedges 0).mp List.mem_cons_self⟩

/-- When the struct embeds the interface, it has all methods of it: one is declared, and the other
is promoted. Yet it does not implement the interface, and the call does not reach what it
declares. -/
theorem embedded_interface_unanswered :
    let p := decorating ⟨"m", "Store"⟩
    p.isConcrete ⟨"m", "Cache"⟩ ∧ p.isInterface ⟨"m", "Store"⟩ ∧
      p.Embeds ⟨"m", "Cache"⟩ ⟨"m", "Store"⟩ ∧ p.Requires ⟨"m", "Store"⟩ "Put" ∧
      p.hasMethod ⟨"m", "Cache"⟩ "Put" = false ∧
      p.implements ⟨"m", "Cache"⟩ ⟨"m", "Store"⟩ = false ∧
      (p.dispatches storing)[0]? = some (.interface ⟨"m", "Store"⟩ "Get") ∧
      p.declaredMethod? ⟨"m", "Cache"⟩ "Get" = some 0 ∧
      construct p .hierarchy [] 5 = .ok { edges := [] } := by
  intro p
  have hembedded : p.embeddedTypes ⟨"m", "Cache"⟩ = [⟨"m", "Store"⟩] := by cbv
  have hlisted : p.listedMethods ⟨"m", "Store"⟩ = ["Get", "Put"] := by cbv
  have hembeds : p.Embeds ⟨"m", "Cache"⟩ ⟨"m", "Store"⟩ := .single (hembedded ▸ List.mem_cons_self)
  have hrequires : p.Requires ⟨"m", "Store"⟩ "Put" := ⟨_, .refl, by simp [hlisted]⟩
  have htypes : p.concreteTypes = [⟨"m", "Cache"⟩, ⟨"m", "Disk"⟩] := by decide +kernel
  have hd : p.dispatches storing = [.interface ⟨"m", "Store"⟩ "Get"] := by cbv
  have hcallees : hierarchyTargets p (.interface ⟨"m", "Store"⟩ "Get") = [] := by
    rw [hierarchyTargets, htypes]
    cbv
  have hrun : construct p .hierarchy [] 5 = .ok { edges := [] } := construct_decorating hd hcallees
  exact ⟨by cbv, by cbv, hembeds, hrequires, by cbv, by cbv, congrArg (·[0]?) hd, by cbv, hrun⟩

end CallImpact
