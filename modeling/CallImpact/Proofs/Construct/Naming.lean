import CallImpact.Proofs.Construct.Outcome
import Mathlib

/-!
# Edges and the calls they belong to

An edge says that a call may call a function. Whatever the facts of a program are and whichever
algorithm is used, the function is one that the call names (`Callee.Names`), and no edge occurs
twice (`edges_name_callees`). All algorithms find part of the edges of the type hierarchy, so this
comes down to how a call is dispatched: a call by name is direct, and only a method call is looked
up by the types of its receiver.
-/

namespace CallImpact

/-- Whether a function is one that a call in another function names. -/
def Callee.Names (caller : Function) : Callee → Function → Prop
  | .ident name, f => f.decl.receiver = none ∧ f.name = name ∧ f.package = caller.package
  | .qualified package name, f => f.decl.receiver = none ∧ f.name = name ∧ f.package = package
  | .method _ name, f => f.decl.receiver ≠ none ∧ f.name = name
  | .indirect, _ => False

section
variable {p : Program} {f : Function} {n : Nat}

/-- A direct call calls a function that it names. -/
theorem names_of_dispatchSite {typeOf : Expr → StaticType} {site : CallSite}
    (h : p.dispatchSite f typeOf site = .static n) :
    ∃ g, p.functions[n]? = some g ∧ site.callee.Names f g := by
  unfold Program.dispatchSite at h
  split at h
  · rename_i name hcallee
    rw [hcallee]
    exact Program.exists_of_packageFunction? (Program.eq_some_of_directly h)
  · rename_i package name hcallee
    rw [hcallee]
    exact Program.exists_of_packageFunction? (Program.eq_some_of_directly h)
  · rename_i receiver method hcallee
    rw [hcallee]
    split at h
    · split at h
      · cases h
      · exact Program.exists_of_lookupMethod? (Program.eq_some_of_directly h)
    · cases h
    · cases h
  · cases h

/-- A call that is looked up by the type of its receiver is a call of the method looked up. -/
theorem callee_of_dispatchSite {typeOf : Expr → StaticType} {site : CallSite} {method : String}
    (h : (p.dispatchSite f typeOf site).method? = some method) :
    ∃ receiver, site.callee = .method receiver method := by
  have hdirect : ∀ found, (Program.directly found).method? = none := by
    intro found
    cases found with
    | none => rfl
    | some callee => rfl
  unfold Program.dispatchSite at h
  split at h
  · cases (hdirect _).symm.trans h
  · cases (hdirect _).symm.trans h
  · rename_i receiver name hcallee
    refine ⟨receiver, hcallee.trans ?_⟩
    split at h
    · split at h
      · cases h
        rfl
      · cases (hdirect _).symm.trans h
    · cases h
    · cases h
      rfl
  · cases h

/-- All that a call can reach by the type hierarchy it names. -/
theorem names_of_mem_hierarchyTargets {number : Nat} {site : CallSite}
    (hsite : f.decl.body.calls[number]? = some site)
    (hn : n ∈ hierarchyTargets p (p.dispatch f number)) :
    ∃ g, p.functions[n]? = some g ∧ site.callee.Names f g := by
  have hdispatch : p.dispatch f number =
      p.dispatchSite f (p.typeOf f (Program.typeSteps - 1)) site := by
    rw [Program.dispatch, hsite]
  rw [hdispatch] at hn
  -- what answers a dynamic call is a method of the name that the call has
  have hmethods : ∀ types method,
      (p.dispatchSite f (p.typeOf f (Program.typeSteps - 1)) site).method? = some method →
      n ∈ methodsOf p types method → ∃ g, p.functions[n]? = some g ∧ site.callee.Names f g := by
    intro types method hmethod hmem
    obtain ⟨receiver, hcallee⟩ := callee_of_dispatchSite hmethod
    obtain ⟨t, -, ht⟩ := mem_methodsOf.mp hmem
    rw [hcallee]
    exact Program.exists_of_lookupMethod? ht
  cases hd : p.dispatchSite f (p.typeOf f (Program.typeSteps - 1)) site with
  | static callee =>
    rw [hd, hierarchyTargets, List.mem_singleton] at hn
    exact names_of_dispatchSite (hn ▸ hd)
  | interface iface method =>
    rw [hd] at hn
    exact hmethods _ _ (by rw [hd]; rfl) hn
  | dynamic method =>
    rw [hd] at hn
    exact hmethods _ _ (by rw [hd]; rfl) hn
  | external =>
    rw [hd] at hn
    cases hn

end

/-- Whatever the facts and the algorithm: no edge occurs twice, and each belongs to a call of its
caller that names its callee. -/
theorem edges_name_callees {p : Program} {algorithm : Algorithm} {entries : List Nat}
    {maxSteps : Nat} {r : Resolution} (h : construct p algorithm entries maxSteps = .ok r) :
    r.edges.Nodup ∧ ∀ e ∈ r.edges, ∃ caller site callee,
      p.functions[e.caller]? = some caller ∧ caller.decl.body.calls[e.site]? = some site ∧
      p.functions[e.callee]? = some callee ∧ site.callee.Names caller callee := by
  refine ⟨(pairwise_edges h).nodup, fun e he => ?_⟩
  have hall := (edges_sublist_hierarchy h).subset he
  obtain ⟨d, ⟨caller, hcaller, hd⟩, hcallee⟩ := mem_edgesOf_dispatchTable.mp hall
  obtain ⟨hlt, rfl⟩ := Program.getElem?_dispatches.mp hd
  have hsite := List.getElem?_eq_getElem hlt
  obtain ⟨callee, hfound, hnames⟩ := names_of_mem_hierarchyTargets hsite hcallee
  exact ⟨caller, _, callee, hcaller, hsite, hfound, hnames⟩

/-- Functions of one name: two in a package, one in another, and methods of two types, one of which
is declared twice. -/
def namesakes : Program :=
  let function (package : String) (decl : FuncDecl) : Function :=
    { package, packageName := "main", file := "a.go", decl }
  { modulePath := "m"
    functions := [
      function "m"
        { name := "main"
          body :=
            { calls := [⟨3, .ident "run", []⟩, ⟨4, .qualified "m/b" "run", []⟩,
                ⟨5, .method (.alloc ⟨"m", "Dog"⟩) "run", []⟩, ⟨6, .method .unknown "run", []⟩,
                ⟨7, .indirect, []⟩]
              allocs := [⟨"m", "Dog"⟩] } },
      function "m" { name := "run" },
      function "m" { name := "run" },
      function "m/b" { name := "run" },
      function "m" { name := "run", receiver := some ⟨none, "Dog", false⟩ },
      function "m" { name := "run", receiver := some ⟨none, "Dog", true⟩ },
      function "m" { name := "run", receiver := some ⟨none, "Cat", false⟩ }]
    types := [(⟨"m", "Dog"⟩, .other), (⟨"m", "Cat"⟩, .other)] }

/-- What the type hierarchy gives for them. -/
def namesakeEdges : List Edge :=
  [⟨0, 0, 1⟩, ⟨0, 1, 3⟩, ⟨0, 2, 5⟩, ⟨0, 3, 5⟩, ⟨0, 3, 6⟩]

/-- The case of functions of one name in two packages. -/
theorem edges_name_callees_namesakes :
    construct namesakes .hierarchy [] 5 = .ok { edges := namesakeEdges } ∧
    namesakeEdges.Nodup ∧ ∀ e ∈ namesakeEdges, ∃ caller site callee,
      namesakes.functions[e.caller]? = some caller ∧
      caller.decl.body.calls[e.site]? = some site ∧
      namesakes.functions[e.callee]? = some callee ∧ site.callee.Names caller callee := by
  have hrun : construct namesakes .hierarchy [] 5 = .ok { edges := namesakeEdges } := by cbv
  exact ⟨hrun, edges_name_callees hrun⟩

end CallImpact
