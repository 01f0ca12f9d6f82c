import CallImpact.Build
import CallImpact.Proofs.Construct.Outcome

/-!
# Nodes of built graphs

Every function of the files that were loaded has its node in a graph that was not built by rapid
type analysis (`exists_node_of_buildGraph`).
-/

namespace CallImpact

/-- The function of a declaration in a file. -/
def FileFacts.function (file : FileFacts) (decl : FuncDecl) : Function :=
  { package := file.packagePath, packageName := file.packageName, file := file.path, decl }

/-- The functions of a program are those of its files. -/
theorem Program.mem_functions_ofFiles {modulePath : String} {files : List FileFacts}
    {f : Function} :
    f ∈ (Program.ofFiles modulePath files).functions ↔
      ∃ file ∈ files, ∃ decl ∈ file.functions, f = file.function decl := by
  simp only [Program.ofFiles, List.mem_flatMap, List.mem_mergeSort, List.mem_map,
    FileFacts.function, eq_comm]

/-- A resolution without a choice of functions has a node for each function. -/
theorem Resolution.exists_node {r : Resolution} {p : Program} (hr : r.reachable = none)
    {f : Function}
    (hf : f ∈ p.functions) : ∃ id, nodeOf f id ∈ r.nodes p := by
  obtain ⟨i, hi⟩ := List.mem_iff_getElem?.mp hf
  have hlt : i < p.size := (List.getElem?_eq_some_iff.mp hi).1
  refine ⟨i + 1, List.mem_filterMap.mpr ⟨(i, i), ?_, by simp [hi]⟩⟩
  rw [Resolution.covered, hr, Option.getD_none, List.mem_zipIdx_iff_getElem?]
  simp [hlt]

/-- What an attempt finds is what the construction of its algorithm finds. -/
theorem construct_of_attempted {p : Program} {algorithm : Algorithm} {entries : List Nat}
    {maxSteps : Nat} {allowFallback : Bool} {a : Attempted}
    (h : constructWithFallback p algorithm entries maxSteps allowFallback = .ok a) :
    construct p a.algorithm entries maxSteps = .ok a.resolution := by
  have hout := constructFrom_outcome p entries maxSteps (fun _ => True) (fun _ _ _ => trivial)
    allowFallback Algorithm.all.length algorithm none (by simp)
  unfold constructWithFallback at h
  rw [h] at hout
  exact hout.1

/-- A build that works out attempts a construction of the program and keeps its outcome. -/
theorem Program.build_ok {p : Program} {options : BuildOptions} {g : BuiltGraph}
    (h : p.build options = .ok g) :
    ∃ r, construct p g.actual (resolveEntries p options.entries) options.maxSteps = .ok r ∧
      g.nodes = r.nodes p ∧ g.edges = r.graphEdges p := by
  unfold Program.build at h
  rcases ha : constructWithFallback p options.algorithm (resolveEntries p options.entries)
    options.maxSteps options.allowFallback with failure | a
  · rw [ha] at h
    cases h
  · rw [ha] at h
    cases h
    exact ⟨a.resolution, construct_of_attempted ha, rfl, rfl⟩

/-- What is built is the graph of the program that is loaded. -/
theorem buildGraph_ok {shown : String} {root : Option (FileTree Content)} {options : BuildOptions}
    {progress : List Progress} {g : BuiltGraph}
    (h : buildGraph shown root options = (progress, .ok g)) :
    ∃ p, loadProgram shown root options.exclude = .ok p ∧ p.build options = .ok g := by
  unfold buildGraph at h
  split at h
  · cases h
  · next p hp =>
    dsimp only at h
    split at h
    · cases h
    · next g' hg =>
      cases h
      exact ⟨p, hp, hg⟩

/-- A program that is loaded has the facts of the sources of the module. -/
theorem loadProgram_eq {shown : String} {root : Option (FileTree Content)} {exclude : List String}
    {module : Located} {modulePath : String}
    (h : openModule shown root = .ok (module, modulePath)) :
    loadProgram shown root exclude = .ok (Program.ofFiles modulePath
      ((moduleSources module (Exclusions.ofPatterns exclude)).filterMap
        (fileFacts? module.1 modulePath))) := by
  unfold loadProgram
  rw [h]
  rfl

/-- A program that is loaded is that of the sources of a module that was opened. -/
theorem exists_module_of_loadProgram {shown : String} {root : Option (FileTree Content)}
    {exclude : List String} {p : Program} (h : loadProgram shown root exclude = .ok p) :
    ∃ module modulePath, openModule shown root = .ok (module, modulePath) ∧
      p = Program.ofFiles modulePath ((moduleSources module (.ofPatterns exclude)).filterMap
        (fileFacts? module.1 modulePath)) := by
  cases hopen : openModule shown root with
  | error e =>
    unfold loadProgram at h
    rw [hopen] at h
    cases h
  | ok opened =>
    obtain ⟨module, modulePath⟩ := opened
    rw [loadProgram_eq hopen] at h
    exact ⟨module, modulePath, rfl, (Except.ok.inj h).symm⟩

/-- Every function of a source has its node in the graph of the module, unless that was built by
rapid type analysis. -/
theorem exists_node_of_buildGraph {shown : String} {root : Option (FileTree Content)}
    {options : BuildOptions} {progress : List Progress} {g : BuiltGraph} {module : Located}
    {modulePath : String} {file : Path × Content} {facts : FileFacts} {decl : FuncDecl}
    (hmodule : openModule shown root = .ok (module, modulePath))
    (hfile : file ∈ moduleSources module (Exclusions.ofPatterns options.exclude))
    (hfacts : fileFacts? module.1 modulePath file = some facts) (hdecl : decl ∈ facts.functions)
    (hg : buildGraph shown root options = (progress, .ok g)) (hactual : g.actual ≠ .rapid) :
    ∃ id, nodeOf (facts.function decl) id ∈ g.nodes := by
  obtain ⟨p, hp, hbuild⟩ := buildGraph_ok hg
  rw [loadProgram_eq hmodule] at hp
  cases hp
  obtain ⟨r, hr, hnodes, -⟩ := Program.build_ok hbuild
  rw [hnodes]
  refine Resolution.exists_node (reachable_of_construct hr hactual) ?_
  have hmem := List.mem_filterMap.mpr ⟨file, hfile, hfacts⟩
  exact Program.mem_functions_ofFiles.mpr ⟨facts, hmem, decl, hdecl, rfl⟩

end CallImpact
