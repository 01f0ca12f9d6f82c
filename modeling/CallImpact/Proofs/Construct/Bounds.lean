import CallImpact.Proofs.Build
import CallImpact.Proofs.Facts.Walk
import Mathlib

/-!
# Bounds of constructions

A program that is extracted from syntax trees refers to no call and no function that it does not
have, so construction fails for want of steps or of an entry point only, and what it gives can be
turned into a graph as it is (`construct_in_bounds`).
-/

namespace CallImpact

/-! ## Entries -/

namespace Program

/-- What starts a program is a function of it. -/
theorem lt_size_of_mem_defaultEntries {p : Program} {n : Nat} (h : n ∈ p.defaultEntries) :
    n < p.size := by
  obtain ⟨⟨f, i⟩, hmem, rfl⟩ := List.mem_map.mp h
  obtain ⟨hmem, -⟩ := List.mem_filter.mp hmem
  exact (List.getElem?_eq_some_iff.mp (List.mem_zipIdx_iff_getElem?.mp hmem)).1

end Program

/-- Entries are functions of the program. -/
theorem lt_size_of_mem_resolveEntries (p : Program) (configured : List EntryPoint) :
    ∀ n ∈ resolveEntries p configured, n < p.size := by
  refine List.foldlRecOn (motive := fun entries => ∀ n ∈ entries, n < p.size) configured _ ?_ ?_
  · exact fun n hn => Program.lt_size_of_mem_defaultEntries hn
  · intro entries hentries e _
    split
    · next f hf =>
      split
      · exact hentries
      · intro n hn
        rcases List.mem_append.mp hn with hn | hn
        · exact hentries n hn
        · rw [List.mem_singleton.mp hn]
          exact Program.lt_size_of_resolveEntry? hf
    · exact hentries

/-! ## Resolutions -/

/-- Whether a resolution refers to functions and calls of a program only. -/
structure InBounds (p : Program) (r : Resolution) : Prop where
  site : ∀ e ∈ r.edges, ∃ f, p.functions[e.caller]? = some f ∧ e.site < f.decl.body.calls.length
  callee : ∀ e ∈ r.edges, e.callee < p.size
  covered : ∀ n ∈ r.covered p, n < p.size

namespace InBounds

variable {p : Program} {r : Resolution}

/-- A part of the type hierarchy is in bounds when what it covers is. -/
theorem of_sublist (hcovered : ∀ n ∈ r.covered p, n < p.size)
    (hedges : r.edges.Sublist (edgesOf ((dispatchTable p).map (List.map (hierarchyTargets p))))) :
    InBounds p r := by
  have hsites : ∀ e ∈ r.edges, ∃ d, IsSite p e.caller e.site d ∧ e.callee ∈ hierarchyTargets p d :=
    fun e he => mem_edgesOf_dispatchTable.mp (hedges.subset he)
  refine ⟨fun e he => ?_, fun e he => ?_, hcovered⟩
  · obtain ⟨d, ⟨f, hf, hd⟩, -⟩ := hsites e he
    exact ⟨f, hf, (Program.getElem?_dispatches.mp hd).1⟩
  · obtain ⟨d, hsite, hcallee⟩ := hsites e he
    exact lt_size_of_isSite hsite hcallee

/-- Every covered function has its node. -/
theorem length_nodes (h : InBounds p r) : (r.nodes p).length = (r.covered p).length := by
  rw [Resolution.nodes, List.filterMap_length_eq_length.mpr, List.length_zipIdx]
  intro x hx
  have hlt : x.1 < p.functions.length := h.covered x.1 (List.fst_mem_of_mem_zipIdx hx)
  simp [hlt]

/-- Every edge between covered functions has its edge in the graph. -/
theorem isSome_graphEdge? (h : InBounds p r) {e : Edge} (he : e ∈ r.edges)
    (hcaller : e.caller ∈ r.covered p) (hcallee : e.callee ∈ r.covered p) :
    (graphEdge? p (r.covered p) e).isSome := by
  have hnode : ∀ n ∈ r.covered p, ∃ id, nodeId? (r.covered p) n = some id := by
    intro n hn
    obtain ⟨i, hi⟩ := Option.isSome_iff_exists.mp (List.isSome_idxOf?.mpr hn)
    exact ⟨i + 1, by rw [nodeId?, hi]; rfl⟩
  obtain ⟨caller, hcaller⟩ := hnode e.caller hcaller
  obtain ⟨callee, hcallee⟩ := hnode e.callee hcallee
  obtain ⟨f, hf, hsite⟩ := h.site e he
  have hcall : f.decl.body.calls[e.site]? = some f.decl.body.calls[e.site] :=
    List.getElem?_eq_getElem hsite
  rw [graphEdge?, hcaller, hcallee, hf]
  simp [hcall]

end InBounds

/-! ## Constructions -/

/-- Why construction may fail although a program is sound. -/
def IsOrderly (cause : Cause) : Prop :=
  cause = .outOfSteps ∨ cause = .noEntryPoint

/-- An orderly failure has a reason of its own. -/
theorem IsOrderly.reason_ne {failure : Failure} (h : IsOrderly failure.cause) :
    failure.reason ≠ "construction aborted unexpectedly" := by
  unfold Failure.reason
  rcases h with h | h
  · rw [h]
    decide
  · rw [h]
    decide

section
variable {p : Program} {entries : List Nat}

/-- Without a list of reachable functions, all functions are covered and no others. -/
theorem lt_size_of_mem_covered {r : Resolution} (h : r.reachable = none) :
    ∀ n ∈ r.covered p, n < p.size := by
  intro n hn
  rw [Resolution.covered, h] at hn
  exact List.mem_range.mp hn

/-- A construction stays in bounds when the facts and the entries do. -/
theorem construction_ensures (hfacts : ∀ f ∈ p.functions, f.decl.body.IsNumbered)
    (hentries : ∀ n ∈ entries, n < p.size) (algorithm : Algorithm) :
    Ensures IsOrderly (construction p entries algorithm) (InBounds p) := by
  cases algorithm with
  | direct =>
    refine ((buildDirect_costs p).ensures (.inl rfl)).mono fun r hr => ?_
    rw [hr]
    exact .of_sublist (lt_size_of_mem_covered rfl) (directEdges_sublist p)
  | hierarchy =>
    refine ((buildHierarchy_costs p).ensures (.inl rfl)).mono fun r hr => ?_
    rw [hr]
    exact .of_sublist (lt_size_of_mem_covered rfl) (List.Sublist.refl _)
  | typeFlow =>
    refine (buildTypeFlow_ensures IsOrderly (.inl rfl) p fun f hf => .inl (hfacts f hf)).mono
      fun r hr => ?_
    obtain ⟨table, rfl, htable⟩ := hr
    exact .of_sublist (lt_size_of_mem_covered rfl) htable.edges_sublist.2
  | rapid =>
    refine (buildRapid_ensures IsOrderly (.inl rfl) (.inr rfl) p entries (.inl hentries)).mono
      fun r hr => ?_
    obtain ⟨covered, hcovered, hbound, hsub, -⟩ := hr
    refine .of_sublist (fun n hn => ?_) hsub
    rw [Resolution.covered, hcovered] at hn
    rcases hbound with hbound | hbound
    · exact hbound n hn
    · rcases hbound 0 0 with h | h <;> cases h

/-- A construction gives what is in bounds, or fails for want of steps or of an entry point. -/
theorem construct_outcome (hfacts : ∀ f ∈ p.functions, f.decl.body.IsNumbered)
    (hentries : ∀ n ∈ entries, n < p.size) (algorithm : Algorithm) (maxSteps : Nat) :
    match construct p algorithm entries maxSteps with
    | .ok r => InBounds p r
    | .error failure => IsOrderly failure.cause := by
  have hensures := construction_ensures hfacts hentries algorithm
  unfold construct
  cases hrun : (construction p entries algorithm).run maxSteps with
  | ok r => exact hensures.of_run hrun
  | error cause => exact hensures.of_run_error hrun

/-- Attempts report no abnormal end. -/
theorem constructWithFallback_orderly (hfacts : ∀ f ∈ p.functions, f.decl.body.IsNumbered)
    (hentries : ∀ n ∈ entries, n < p.size) (algorithm : Algorithm) (maxSteps : Nat)
    (allowFallback : Bool) :
    match constructWithFallback p algorithm entries maxSteps allowFallback with
    | .ok a => InBounds p a.resolution ∧
        ∀ failure ∈ a.failure, failure.reason ≠ "construction aborted unexpectedly"
    | .error failure => failure.reason ≠ "construction aborted unexpectedly" := by
  have hreported : ∀ algorithm failure, construct p algorithm entries maxSteps = .error failure →
      failure.reason ≠ "construction aborted unexpectedly" := by
    intro algorithm failure hfailure
    have hout := construct_outcome hfacts hentries algorithm maxSteps
    rw [hfailure] at hout
    exact hout.reason_ne
  have hout := constructFrom_outcome p entries maxSteps _ hreported allowFallback
    Algorithm.all.length algorithm none (by simp)
  unfold constructWithFallback
  split
  · next a ha =>
    rw [ha] at hout
    have hbounds := construct_outcome hfacts hentries a.algorithm maxSteps
    rw [hout.1] at hbounds
    exact ⟨hbounds, hout.2⟩
  · next failure hfailure =>
    rw [hfailure] at hout
    exact hout

end

/-! ## Extracted programs -/

/-- The program of syntax trees, each with the path and the package of its file. -/
def Program.ofTrees (modulePath : String) (trees : List (Go.Node × String × String)) : Program :=
  Program.ofFiles modulePath (trees.map fun t => extractFile t.1 t.2.1 t.2.2)

/-- Facts that are extracted from syntax trees number their calls. -/
theorem Program.isNumbered_ofTrees (modulePath : String)
    (trees : List (Go.Node × String × String)) :
    ∀ f ∈ (Program.ofTrees modulePath trees).functions, f.decl.body.IsNumbered := by
  intro f hf
  obtain ⟨file, hfile, decl, hdecl, rfl⟩ := Program.mem_functions_ofFiles.mp hf
  obtain ⟨tree, -, rfl⟩ := List.mem_map.mp hfile
  exact isNumbered_of_mem_extractFile hdecl

/-- The facts of a source are those of its syntax tree. -/
theorem exists_tree_of_fileFacts? {moduleDir : Path} {modulePath : String} {file : Path × Content}
    {facts : FileFacts} (h : fileFacts? moduleDir modulePath file = some facts) :
    ∃ root path package, extractFile root path package = facts := by
  unfold fileFacts? at h
  split at h
  · cases h
  · rw [Option.some.injEq] at h
    exact ⟨_, _, _, h⟩

/-- A program that is loaded is that of the syntax trees of its sources. -/
theorem exists_trees_of_loadProgram {shown : String} {root : Option (FileTree Content)}
    {exclude : List String} {p : Program} (h : loadProgram shown root exclude = .ok p) :
    ∃ modulePath trees, p = Program.ofTrees modulePath trees := by
  obtain ⟨module, modulePath, -, rfl⟩ := exists_module_of_loadProgram h
  have htrees : ∀ files : List (Path × Content), ∃ trees : List (Go.Node × String × String),
      trees.map (fun t => extractFile t.1 t.2.1 t.2.2) =
        files.filterMap (fileFacts? module.1 modulePath) := by
    intro files
    induction files with
    | nil => exact ⟨[], rfl⟩
    | cons file files ih =>
      obtain ⟨trees, htrees⟩ := ih
      cases hfacts : fileFacts? module.1 modulePath file with
      | none => exact ⟨trees, by rw [List.filterMap_cons_none hfacts, htrees]⟩
      | some facts =>
        obtain ⟨root, path, package, htree⟩ := exists_tree_of_fileFacts? hfacts
        refine ⟨(root, path, package) :: trees, ?_⟩
        rw [List.filterMap_cons_some hfacts, List.map_cons, htree, htrees]
  obtain ⟨trees, htrees⟩ := htrees (moduleSources module (Exclusions.ofPatterns exclude))
  exact ⟨modulePath, trees, by rw [Program.ofTrees, htrees]⟩

/-- The build of a program that is loaded reports no abnormal end. -/
theorem build_orderly {shown : String} {root : Option (FileTree Content)} {exclude : List String}
    {p : Program} (hp : loadProgram shown root exclude = .ok p) (options : BuildOptions) :
    match p.build options with
    | .ok g => ∀ text ∈ g.fallbackReason, ∃ failure : Failure, text = failure.message ∧
        failure.reason ≠ "construction aborted unexpectedly"
    | .error failure => failure.reason ≠ "construction aborted unexpectedly" := by
  obtain ⟨modulePath, trees, rfl⟩ := exists_trees_of_loadProgram hp
  have hout := constructWithFallback_orderly (Program.isNumbered_ofTrees modulePath trees)
    (lt_size_of_mem_resolveEntries _ options.entries) options.algorithm options.maxSteps
    options.allowFallback
  unfold Program.build
  split at hout
  · next a ha =>
    rw [ha]
    intro text htext
    obtain ⟨failure, hfailure, rfl⟩ := Option.map_eq_some_iff.mp htext
    exact ⟨failure, rfl, hout.2 failure hfailure⟩
  · next failure hfailure =>
    rw [hfailure]
    exact hout

/-- Whatever the syntax trees, the configured entries, the algorithm and the number of steps: facts
refer to calls of their body, calls to functions of the program, and entries are among these; a
resolution is in bounds and its graph leaves nothing out for want of a function or a call; and no
attempt reports an abnormal end, so the build of a program that is loaded never does. -/
theorem construct_in_bounds (modulePath : String) (trees : List (Go.Node × String × String))
    (configured : List EntryPoint) :
    let p := Program.ofTrees modulePath trees
    let entries := resolveEntries p configured
    (∀ f ∈ p.functions, f.decl.body.IsNumbered) ∧
    (∀ f ∈ p.functions, ∀ d ∈ p.dispatches f, ∀ n ∈ hierarchyTargets p d, n < p.size) ∧
    (∀ n ∈ entries, n < p.size) ∧
    (∀ algorithm maxSteps,
      (match construct p algorithm entries maxSteps with
        | .ok r => InBounds p r ∧ (r.nodes p).length = (r.covered p).length ∧
            ∀ e ∈ r.edges, e.caller ∈ r.covered p → e.callee ∈ r.covered p →
              (graphEdge? p (r.covered p) e).isSome
        | .error failure => failure.cause = .outOfSteps ∨ failure.cause = .noEntryPoint) ∧
      ∀ allowFallback,
        match constructWithFallback p algorithm entries maxSteps allowFallback with
        | .ok a => ∀ failure ∈ a.failure, failure.reason ≠ "construction aborted unexpectedly"
        | .error failure => failure.reason ≠ "construction aborted unexpectedly") ∧
    ∀ shown root exclude loaded, loadProgram shown root exclude = .ok loaded → ∀ options,
      match loaded.build options with
      | .ok g => ∀ text ∈ g.fallbackReason, ∃ failure : Failure, text = failure.message ∧
          failure.reason ≠ "construction aborted unexpectedly"
      | .error failure => failure.reason ≠ "construction aborted unexpectedly" := by
  intro p entries
  have hfacts : ∀ f ∈ p.functions, f.decl.body.IsNumbered :=
    Program.isNumbered_ofTrees modulePath trees
  have hentries : ∀ n ∈ entries, n < p.size := lt_size_of_mem_resolveEntries p configured
  refine ⟨hfacts, fun f _ d hd n hn => ?_, hentries, fun algorithm maxSteps => ⟨?_, ?_⟩,
    fun shown root exclude loaded hloaded => build_orderly hloaded⟩
  · obtain ⟨number, rfl⟩ := Program.exists_dispatch_of_mem hd
    exact lt_size_of_mem_hierarchyTargets hn
  · have hout := construct_outcome hfacts hentries algorithm maxSteps
    split
    · next r hr =>
      rw [hr] at hout
      exact ⟨hout, hout.length_nodes, fun e he => hout.isSome_graphEdge? he⟩
    · next failure hfailure =>
      rw [hfailure] at hout
      exact hout
  · intro allowFallback
    have hout := constructWithFallback_orderly hfacts hentries algorithm maxSteps allowFallback
    split
    · next a ha =>
      rw [ha] at hout
      exact hout.2
    · next failure hfailure =>
      rw [hfailure] at hout
      exact hout

/-- A function that passes the result of one call to another. -/
def nestedCalls : Go.Node :=
  let node (kind : Go.Kind) (role : Go.Role) (text : String) : List Go.Node → Go.Node :=
    .mk kind role text ⟨0, 0, 1, 1⟩
  node .sourceFile .none ""
    [node .functionDeclaration .none ""
      [node .identifier .name "f" [],
       node .block .body ""
        [node .callExpression .none ""
          [node .identifier .function "g" [],
           node .argumentList .arguments ""
            [node .callExpression .none ""
              [node .identifier .function "f" [], node .argumentList .arguments "" []]]]]]]

/-- The function, the call inside before the call around it. -/
def nestedFunction : Function :=
  { package := "m", packageName := "", file := "x.go"
    decl :=
      { name := "f", lineStart := 1, lineEnd := 1
        body := { calls := [⟨1, .ident "f", []⟩, ⟨1, .ident "g", [.result 0]⟩] } } }

/-- The program of a file with a call in an argument of another. -/
theorem ofTrees_nestedCalls :
    Program.ofTrees "m" [(nestedCalls, "x.go", "m")] =
      { modulePath := "m", functions := [nestedFunction], types := [] } := by cbv

/-- The case of that program and its one entry. -/
theorem construct_in_bounds_nestedCalls :
    (Expr.result 0).Below 1 ∧
    InBounds { modulePath := "m", functions := [nestedFunction], types := [] }
      { edges := [⟨0, 0, 0⟩] } := by
  obtain ⟨hfacts, -, -, hconstruct, -⟩ :=
    construct_in_bounds "m" [(nestedCalls, "x.go", "m")] []
  rw [ofTrees_nestedCalls] at hfacts hconstruct
  refine ⟨?_, ?_⟩
  · exact (hfacts nestedFunction List.mem_cons_self).calls 1 ⟨1, .ident "g", [.result 0]⟩ rfl _
      List.mem_cons_self
  · exact (hconstruct .direct 1).1.1

end CallImpact
