import CallImpact.Proofs.Build
import CallImpact.Proofs.Diff.Change
import CallImpact.Proofs.Spans
import CallImpact.Proofs.Store.Runs
import Mathlib

/-!
# Changed functions in call graphs

The names that differences give to functions are those of call graphs. A source that was loaded with
a module has the same package from below as from above, its functions agree with its spans, and what
changed in it is found in the snapshot of a graph that leaves no function out
(`changes_match_graph`). Names can only be told apart while the path of a package has nothing in it
that marks a receiver: a path that ends in a closing parenthesis already breaks them
(`changes_unmatched_closing`).
-/

namespace CallImpact

open Diff

/-- A text file that is loaded with the module in a directory, and its facts. -/
structure IsLoaded (shown : String) (root : FileTree Content) (exclude : List String)
    (module : Located) (modulePath : String) (path : Path) (source : String) (facts : FileFacts) :
    Prop where
  opened : openModule shown (some root) = .ok (module, modulePath)
  mem : (path, .text source) ∈ moduleSources module (Exclusions.ofPatterns exclude)
  facts_eq : fileFacts? module.1 modulePath (path, .text source) = some facts

/-- The change that hunks make to a declaration of a file, if they touch it. -/
def declaredChange? (file package : String) (hunks : List Hunk) (decl : Go.Node) :
    Option ChangedFunction :=
  (spanOf? package decl).bind (change? file package hunks)

/-! ## Loaded files -/

section
variable {shown : String} {root : FileTree Content} {exclude : List String} {module : Located}
  {modulePath : String} {path : Path} {source : String} {facts : FileFacts}

namespace IsLoaded

/-- The facts of a file, extracted with the path that it has in its module. -/
theorem facts_eq_extractFile (h : IsLoaded shown root exclude module modulePath path source facts) :
    facts = extractFile (Go.parseSource source) (withSlashes path.text)
      (packagePath modulePath (withSlashes (Path.text (path.dropLast.drop module.1.length)))) :=
  (Option.some.inj h.facts_eq).symm

/-- The package of a loaded file is named by the directory that it is in. -/
theorem packagePath_eq (h : IsLoaded shown root exclude module modulePath path source facts) :
    facts.packagePath =
      packagePath modulePath (withSlashes (Path.text (path.dropLast.drop module.1.length))) := by
  rw [h.facts_eq_extractFile, packagePath_extractFile]

/-- A file is read at its written path. -/
theorem pathOf_eq (h : IsLoaded shown root exclude module modulePath path source facts)
    (hroot : root.IsProper) :
    pathOf path.text = path ∧ root.content? path = some (.text source) ∧
    facts.path = path.text := by
  obtain ⟨hget, hne, hnames⟩ := isName_of_mem_moduleSources hroot h.opened h.mem
  refine ⟨pathOf_text hne fun c hc => (hnames c hc).1, ?_, ?_⟩
  · rw [FileTree.content?, hget]
  · rw [h.facts_eq_extractFile, path_extractFile]
    exact withSlashes_of_not_mem (not_mem_text (by decide) fun c hc => (hnames c hc).2)

/-- The package of a file from the module file above it is the one that it was loaded with. -/
theorem packageOf?_eq (h : IsLoaded shown root exclude module modulePath path source facts)
    (hroot : root.IsProper) : packageOf? root path.text = some facts.packagePath := by
  have habove := packageAbove_of_mem_moduleSources hroot h.opened h.mem
  rw [packageOf?, (h.pathOf_eq hroot).1, habove, h.packagePath_eq]

/-- The functions of a file agree with its spans. -/
theorem agree (h : IsLoaded shown root exclude module modulePath path source facts)
    (hpackage : IsUndecorated facts.packagePath)
    (htypes : ∀ f ∈ facts.functions, ∀ r ∈ f.receiver, IsWord r.type) :
    List.Forall₂ (Agrees facts.packagePath) facts.functions
      (readableSpans (Go.parseSource source) facts.packagePath) := by
  have hfacts := h.facts_eq_extractFile
  rw [← h.packagePath_eq] at hfacts
  have hfunctions := congrArg FileFacts.functions hfacts
  rw [hfunctions] at htypes ⊢
  exact extracted_agree hpackage htypes

/-- The span of a declaration that can be read has its function among those of the file. -/
theorem exists_agrees (h : IsLoaded shown root exclude module modulePath path source facts)
    (hpackage : IsUndecorated facts.packagePath)
    (htypes : ∀ f ∈ facts.functions, ∀ r ∈ f.receiver, IsWord r.type) {decl : Go.Node}
    {span : FunctionSpan} (hdecl : decl ∈ (Go.parseSource source).named) (hread : isReadable decl)
    (hspan : spanOf? facts.packagePath decl = some span) :
    ∃ f ∈ facts.functions, Agrees facts.packagePath f span := by
  have hmem : span ∈ readableSpans (Go.parseSource source) facts.packagePath :=
    List.mem_filterMap.mpr ⟨decl, List.mem_filter.mpr ⟨hdecl, hread⟩, hspan⟩
  exact exists_of_forall₂ (h.agree hpackage htypes) hmem

/-- A function that agrees with a change is found by the name of the change, where it was changed.
-/
theorem exists_named (h : IsLoaded shown root exclude module modulePath path source facts)
    (hroot : root.IsProper) {f : FuncDecl} {span : FunctionSpan} (hf : f ∈ facts.functions)
    (hagrees : Agrees facts.packagePath f span) {hunks : List Hunk} {c : ChangedFunction}
    (hchange : change? path.text facts.packagePath hunks span = some c) {options : BuildOptions}
    {progress : List Progress} {new : Store.NewGraph} {now : Instant} {snapshot : Snapshot}
    (hexclude : options.exclude = exclude)
    (hgraph : buildGraph shown (some root) options = (progress, .ok new.graph))
    (hactual : new.graph.actual ≠ .rapid) (hsnapshot : Store.IsSnapshotOf snapshot new now) :
    ∃ node ∈ snapshot.named [c.fullName], node.file = path.text ∧ node.lineStart = c.lineStart ∧
      node.lineEnd = c.lineEnd := by
  subst hexclude
  obtain ⟨id, hnode⟩ := exists_node_of_buildGraph h.opened h.mem h.facts_eq hf hgraph hactual
  obtain ⟨hname, hstart, hend⟩ := change?_eq_some hchange
  have hcanonical : canonicalName (facts.function f).fullName = c.fullName := by
    rw [hname, hagrees.name]
    rfl
  refine ⟨_, List.mem_filter.mpr ⟨hsnapshot.nodes.mem_iff.mpr hnode, ?_⟩, ?_, ?_, ?_⟩
  · simp [Snapshot.isNamed, nodeOf, hcanonical]
  · exact (h.pathOf_eq hroot).2.2
  · rw [hstart, hagrees.startLine]
    rfl
  · rw [hend, hagrees.endLine]
    rfl

end IsLoaded

end

/-- A file that is loaded has the package that is found from it upwards, its functions agree with
its spans, and a named change comes from a declaration and is found in the snapshot of a graph of
the same tree, unless the receiver of the declaration cannot be read. -/
theorem changes_match_graph {shown : String} {root : FileTree Content} {exclude : List String}
    {module : Located} {modulePath : String} {path : Path} {source : String} {facts : FileFacts}
    (hroot : root.IsProper)
    (hloaded : IsLoaded shown root exclude module modulePath path source facts)
    (hpackage : IsUndecorated facts.packagePath)
    (htypes : ∀ f ∈ facts.functions, ∀ r ∈ f.receiver, IsWord r.type) :
    packageOf? root path.text = some facts.packagePath ∧
    List.Forall₂ (Agrees facts.packagePath) facts.functions
      (readableSpans (Go.parseSource source) facts.packagePath) ∧
    ∀ options progress new now snapshot, options.exclude = exclude →
      buildGraph shown (some root) options = (progress, .ok new.graph) →
      new.graph.actual ≠ .rapid → Store.IsSnapshotOf snapshot new now →
      ∀ hunks found, changedInFile root path.text hunks = .ok found →
      ∀ c ∈ found, c.fullName ≠ "" →
        (∃ decl ∈ (Go.parseSource source).named,
          declaredChange? path.text facts.packagePath hunks decl = some c) ∧
        ∀ decl ∈ (Go.parseSource source).named, isReadable decl →
          declaredChange? path.text facts.packagePath hunks decl = some c →
          ∃ node ∈ snapshot.named [c.fullName], node.file = path.text ∧
            node.lineStart = c.lineStart ∧ node.lineEnd = c.lineEnd := by
  have habove := hloaded.packageOf?_eq hroot
  obtain ⟨hpath, hcontent, -⟩ := hloaded.pathOf_eq hroot
  refine ⟨habove, hloaded.agree hpackage htypes, ?_⟩
  intro options progress new now snapshot hexclude hgraph hactual hsnapshot hunks found hfound c hc
    hname
  refine ⟨?_, fun decl hdecl hread hchange => ?_⟩
  · obtain ⟨decl, hdecl, span, hspan, hchange⟩ :=
      exists_of_mem_found (by rw [hpath]; exact hcontent) hfound hc hname
    rw [habove, Option.getD_some] at hspan hchange
    exact ⟨decl, hdecl, Option.bind_eq_some_iff.mpr ⟨span, hspan, hchange⟩⟩
  · obtain ⟨span, hspan, hchange⟩ := Option.bind_eq_some_iff.mp hchange
    obtain ⟨f, hf, hagrees⟩ := hloaded.exists_agrees hpackage htypes hdecl hread hspan
    exact hloaded.exists_named hroot hf hagrees hchange hexclude hgraph hactual hsnapshot

/-! ## One method

The smallest module with a method, in a directory of any name. -/

/-- A source that declares a method, and nothing else. -/
def methodSource : String := "package a\nfunc(T)M(){}"

/-- The syntax tree of the source. -/
def methodNode : Go.Node :=
  let node (kind : Go.Kind) (role : Go.Role) (text : String) (start stop line : Nat) :
      List Go.Node → Go.Node :=
    .mk kind role text ⟨start, stop, line, line⟩
  .mk .sourceFile .none methodSource ⟨0, 22, 1, 2⟩
    [node .packageClause .none "package a" 0 9 1 [node .packageIdentifier .none "a" 8 9 1 []],
     node .methodDeclaration .none "func(T)M(){}" 10 22 2
      [node .parameterList .receiver "(T)" 14 17 2
        [node .parameterDeclaration .none "T" 15 16 2 [node .typeIdentifier .type "T" 15 16 2 []]],
       node .fieldIdentifier .name "M" 17 18 2 [],
       node .parameterList .parameters "" 18 20 2 [],
       node .block .body "" 20 22 2 []]]

/-- A module with the source in one directory. -/
def oneMethod (dir : String) : FileTree Content :=
  .dir [(dir, .dir [("x.go", .file (.text methodSource))]), ("go.mod", .file (.text "module m"))]

/-- The facts of the source. -/
def methodFacts (path package : String) : FileFacts :=
  { path, packageName := "a", packagePath := package
    functions :=
      [{ name := "M", receiver := some ⟨none, "T", false⟩, lineStart := 2, lineEnd := 2 }] }

/-- The program with the facts. -/
def methodProgram (file package : String) : Program :=
  { modulePath := "m"
    functions := (methodFacts file package).functions.map (methodFacts file package).function
    types := [] }

/-- A hunk that touches the method. -/
def methodHunk (file : String) : Hunk :=
  ⟨file, 2, 1, 2, 1, false, false⟩

/-- What the hunk changes. -/
def methodChange (file package : String) : ChangedFunction :=
  { name := "T.M", fullName := package ++ "." ++ "T" ++ "." ++ "M", package, file,
    lineStart := 2, lineEnd := 2, change := .modified, linesAdded := 1, linesRemoved := 1 }

/-- The graph of direct calls, whose only node has the given names. -/
def methodGraph (file package fullName canonicalName : String) : BuiltGraph :=
  { modulePath := "m", requested := .direct, actual := .direct, fallback := false
    fallbackReason := none
    nodes := [⟨1, fullName, canonicalName, package, "T.M", file, 2, 2, true⟩]
    edges := [] }

/-- The tree is what the source is parsed to. -/
theorem parseSource_methodSource : Go.parseSource methodSource = methodNode := by cbv

/-- The facts are what is extracted from the tree. -/
theorem extractFile_methodNode (path package : String) :
    extractFile methodNode path package = methodFacts path package := by cbv

/-- The one span of the tree. -/
theorem functionSpans_methodNode (package : String) :
    functionSpans methodNode package =
      [⟨package ++ "." ++ "T" ++ "." ++ "M", "M", some "T", 2, 2⟩] := by cbv

/-- The receiver of the method can be read. -/
theorem all_isReadable_methodNode : methodNode.named.all isReadable := by cbv

/-- The program is what the facts are put together to. -/
theorem ofFiles_methodFacts (file package : String) :
    Program.ofFiles "m" [methodFacts file package] = methodProgram file package := by
  unfold Program.ofFiles
  rw [List.mergeSort_singleton]
  rfl

/-- The module is a tree of files with proper names. -/
theorem isProper_oneMethod {dir : String} (hdir : IsName dir ∧ '\\' ∉ dir.toList)
    (hne : dir ≠ "go.mod") : (oneMethod dir).IsProper := by
  refine .dir (by simpa using hne) ?_ ?_
  · simp only [List.forall_mem_cons]
    exact ⟨hdir, by decide, by simp⟩
  · simp only [List.forall_mem_cons]
    refine ⟨.dir (by decide) (by decide) ?_, .file _, by simp⟩
    simp only [List.forall_mem_cons]
    exact ⟨.file _, by simp⟩

/-- The facts of the file, wherever it is. -/
theorem fileFacts?_methodSource {path : Path} {file package : String}
    (hfile : withSlashes path.text = file)
    (hpackage : packagePath "m" (withSlashes (Path.text path.dropLast)) = package) :
    fileFacts? [] "m" (path, .text methodSource) = some (methodFacts file package) := by
  unfold fileFacts?
  simp only [parseSource_methodSource, extractFile_methodNode, hfile, List.length_nil,
    List.drop_zero, hpackage]

/-- The hunk changes the method, wherever the file is. -/
theorem changedInFile_methodSource {repo : FileTree Content} {file package : String}
    (hcontent : repo.content? (pathOf file) = some (.text methodSource))
    (hpackage : packageOf? repo file = some package) :
    changedInFile repo file [methodHunk file] = .ok [methodChange file package] := by
  have hdeleted : [methodHunk file].any (·.deleted) = false := rfl
  have herror : methodNode.firstErrorLine? = none := by cbv
  unfold changedInFile
  rw [hcontent, hdeleted]
  simp only [parseSource_methodSource, herror, hpackage, Option.getD_some, functionSpans_methodNode]
  rfl

section
variable {dir file package : String}
  (hopen : openModule "." (some (oneMethod dir)) = .ok (([], oneMethod dir), "m"))
  (hsources : moduleSources ([], oneMethod dir) (Exclusions.ofPatterns []) =
    [([dir, "x.go"], .text methodSource)])
  (hfile : withSlashes (Path.text [dir, "x.go"]) = file)
  (hpackage : packagePath "m" (withSlashes (Path.text [dir])) = package)
include hopen hsources hfile hpackage

/-- The file is loaded with the module. -/
theorem isLoaded_oneMethod :
    IsLoaded "." (oneMethod dir) [] ([], oneMethod dir) "m" [dir, "x.go"] methodSource
      (methodFacts file package) := by
  refine ⟨hopen, ?_, fileFacts?_methodSource hfile hpackage⟩
  rw [hsources]
  exact List.mem_singleton.mpr rfl

/-- What is built from the module is what is built from the program. -/
theorem buildGraph_oneMethod {g : BuiltGraph}
    (hg : (methodProgram file package).build { algorithm := .direct } = .ok g) :
    (buildGraph "." (some (oneMethod dir)) { algorithm := .direct }).2 = .ok g := by
  have hfacts : fileFacts? [] "m" ([dir, "x.go"], .text methodSource) =
      some (methodFacts file package) := fileFacts?_methodSource hfile hpackage
  unfold buildGraph
  rw [loadProgram_eq hopen, hsources]
  simp only [List.filterMap_cons, hfacts, List.filterMap_nil, ofFiles_methodFacts, hg]

end

/-- The path of a package that ends in a closing parenthesis has no receiver mark of its own, but
the point after it completes one, and the method of the package is not found by the name that the
change gives it. -/
theorem changes_unmatched_closing :
    (oneMethod "a)").IsProper ∧
    IsLoaded "." (oneMethod "a)") [] ([], oneMethod "a)") "m" ["a)", "x.go"] methodSource
      (methodFacts "a)/x.go" "m/a)") ∧
    ¬ Text.contains "m/a)" ")." ∧ ¬ Text.startsWith "m/a)" "(" ∧ ¬ Text.startsWith "m/a)" "*" ∧
    (∀ f ∈ (methodFacts "a)/x.go" "m/a)").functions, ∀ r ∈ f.receiver, IsWord r.type) ∧
    changedInFile (oneMethod "a)") "a)/x.go" [methodHunk "a)/x.go"] =
      .ok [methodChange "a)/x.go" "m/a)"] ∧
    (buildGraph "." (some (oneMethod "a)")) { algorithm := .direct }).2 =
      .ok (methodGraph "a)/x.go" "m/a)" "(m/a).T).M" "m/a.T).M") ∧
    ∀ node ∈ (methodGraph "a)/x.go" "m/a)" "(m/a).T).M" "m/a.T).M").nodes,
      Snapshot.isNamed (methodChange "a)/x.go" "m/a)").fullName node = false := by
  refine ⟨isProper_oneMethod (by decide) (by decide), isLoaded_oneMethod rfl rfl rfl rfl, by decide,
    by decide, by decide, by decide, changedInFile_methodSource rfl rfl,
    buildGraph_oneMethod rfl rfl rfl rfl rfl, ?_⟩
  intro node hnode
  rw [methodGraph, List.mem_singleton] at hnode
  rw [hnode]
  decide

/-- The case of the module in a directory with a plain name. -/
theorem changes_match_graph_oneMethod :
    packageOf? (oneMethod "a") "a/x.go" = some "m/a" ∧
    ∃ snapshot, Store.IsSnapshotOf snapshot
        ⟨"c", none, methodGraph "a/x.go" "m/a" "(m/a.T).M" "m/a.T.M", 0⟩ default ∧
      ∃ node ∈ snapshot.named ["m/a.T.M"], node.file = "a/x.go" ∧ node.lineStart = 2 ∧
        node.lineEnd = 2 := by
  have hloaded : IsLoaded "." (oneMethod "a") [] ([], oneMethod "a") "m" ["a", "x.go"] methodSource
      (methodFacts "a/x.go" "m/a") := isLoaded_oneMethod rfl rfl rfl rfl
  have hgraph : (buildGraph "." (some (oneMethod "a")) { algorithm := .direct }).2 =
      .ok (methodGraph "a/x.go" "m/a" "(m/a.T).M" "m/a.T.M") :=
    buildGraph_oneMethod rfl rfl rfl rfl rfl
  have hsnapshot := Store.isSnapshotOf_snapshotOf
    (show Store.snapshotOf
        ⟨"c", none, methodGraph "a/x.go" "m/a" "(m/a.T).M" "m/a.T.M", 0⟩ default =
      (_, .ok _) from rfl)
  have hfound : changedInFile (oneMethod "a") "a/x.go" [methodHunk "a/x.go"] =
      .ok [methodChange "a/x.go" "m/a"] := changedInFile_methodSource rfl rfl
  obtain ⟨hpackage, -, hmatch⟩ := changes_match_graph
    (isProper_oneMethod (by decide) (by decide)) hloaded (by decide) (by decide)
  obtain ⟨⟨decl, hdecl, hchange⟩, hnode⟩ := hmatch { algorithm := .direct } _ _ _ _ rfl
    (Prod.ext rfl hgraph) (by decide) hsnapshot _ _ hfound _ List.mem_cons_self (by decide)
  refine ⟨hpackage, _, hsnapshot, hnode decl hdecl ?_ hchange⟩
  rw [parseSource_methodSource] at hdecl
  exact List.all_eq_true.mp all_isReadable_methodNode decl hdecl

end CallImpact
