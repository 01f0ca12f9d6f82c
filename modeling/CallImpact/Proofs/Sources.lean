import CallImpact.Proofs.Build
import CallImpact.Proofs.Module

/-!
# Collected sources

A walk collects the sources of a module: it goes into the directories that are searched when it
comes to them. What it finds can be told from the path of each file alone (`IsCollected`), for
trees of any depth (`mem_moduleSources`). Where entries come in the order of their names, the
files come in the order of their paths, each once (`pairwise_moduleSources`). Nothing but these
files is in a graph that is built (`exists_source_of_node`), so the sources that a build reads are
exact (`sources_exact`).
-/

namespace CallImpact

open Text

/-! ## The conditions on a path -/

/-- Whether a directory of this name is never searched. -/
def IsSkippedName (name : String) : Prop :=
  name.toList.head? = some '.' ∨ name.toList.head? = some '_' ∨ name = "vendor" ∨ name = "testdata"

/-- Whether a written path is that of a hand-written Go source, neither a test nor vendored. -/
structure IsHandWritten (path : String) : Prop where
  go : ".go".toList <:+ path.toList
  test : ¬ "_test.go".toList <:+ path.toList
  protocol : ¬ ".pb.go".toList <:+ path.toList
  generated : ¬ "_gen.go".toList <:+ path.toList
  vendored : ¬ ("vendor/".toList <+: path.toList ∨ "/vendor/".toList <:+: path.toList)

/-- Whether what the user excludes matches a written path: a directory anywhere in it, or a pattern
for it or for the name of its file. -/
def Exclusions.Match (e : Exclusions) (path : String) : Prop :=
  (∃ d ∈ e.dirs, (d ++ "/").toList <+: path.toList ∨ ("/" ++ d ++ "/").toList <:+: path.toList) ∨
    ∃ g ∈ e.globs, Glob.matchesParts g path.toList ∨
      Glob.matchesParts g (lastPiece '/' path).toList

/-- Whether a file below the root of a module is a source of it. -/
structure IsCollected (root : FileTree Content) (module : Path) (e : Exclusions) (p : Path)
    (content : Content) : Prop where
  file : root.content? p = some content
  below : module <+: p ∧ module ≠ p
  /-- Directories between the root of the module and the file have names that are not skipped, and
  no modules of their own. -/
  way : ∀ dir name, module <+: dir → dir ++ [name] <+: p → dir ++ [name] ≠ p →
    ¬ IsSkippedName name ∧ root.hasFile (dir ++ [name, "go.mod"]) = false
  handWritten : IsHandWritten (withSlashes p.text)
  kept : ¬ e.Match (withSlashes p.text)

/-- A directory is skipped exactly when its name is one of those that are. -/
theorem isSkippedDir_iff {name : String} : isSkippedDir name ↔ IsSkippedName name := by
  have hlead : ∀ c : Char, [c] <+: name.toList ↔ name.toList.head? = some c := fun c => by
    cases name.toList with
    | nil => simp
    | cons d ds => simp [eq_comm]
  simp only [isSkippedDir, Bool.or_eq_true, decide_eq_true_eq, startsWith_iff, or_assoc,
    IsSkippedName, ← hlead]
  rfl

/-- A file is analyzed exactly when its path is one of hand-written code. -/
theorem isAnalyzable_iff {path : String} :
    isAnalyzable path ↔ IsHandWritten (withSlashes path) := by
  simp only [isAnalyzable, Bool.and_eq_true, Bool.not_eq_true', ← Bool.not_eq_true,
    Bool.or_eq_true, endsWith_iff, startsWith_iff, contains_iff]
  constructor
  · rintro ⟨⟨⟨⟨hgo, htest⟩, hprotocol⟩, hgenerated⟩, hvendored⟩
    exact ⟨hgo, htest, hprotocol, hgenerated, hvendored⟩
  · rintro ⟨hgo, htest, hprotocol, hgenerated, hvendored⟩
    exact ⟨⟨⟨⟨hgo, htest⟩, hprotocol⟩, hgenerated⟩, hvendored⟩

/-- Exclusions exclude exactly the paths that match them. -/
theorem excludes_iff {e : Exclusions} {path : String} : e.excludes path ↔ e.Match path := by
  simp only [Exclusions.excludes, Exclusions.Match, Bool.or_eq_true, List.any_eq_true,
    startsWith_iff, contains_iff]

/-- The names of the directories on a way are what its beginnings end in. -/
theorem forall_mem_dropLast_iff {post : String → Prop} {p : Path} :
    (∀ d ∈ p.dropLast, post d) ↔
      ∀ dir name, dir ++ [name] <+: p → dir ++ [name] ≠ p → post name := by
  constructor
  · rintro h dir name ⟨rest, rfl⟩ hne
    have hrest : rest ≠ [] := fun hnil => hne (by simp [hnil])
    refine h name ?_
    rw [List.dropLast_append_of_ne_nil hrest]
    simp
  · intro h d hd
    obtain ⟨before, after, hsplit⟩ := List.append_of_mem hd
    have hp : p ≠ [] := fun hnil => by simp [hnil] at hd
    have heq := List.dropLast_append_getLast hp
    rw [hsplit] at heq
    refine h before d ⟨after ++ [p.getLast hp], by simpa using heq⟩ fun he => ?_
    have hlen := congrArg List.length (he.trans heq.symm)
    simp at hlen

/-! ## What is collected -/

/-- A file below an entry of a directory is a source of the entry, behind directories that are not
skipped, when nothing on the way to it ends the search. -/
theorem way_iff {t : FileTree Content} {name : String} {q : Path} {content : Content} :
    (∃ sub, t.get? [name] = some sub ∧ IsSource sub q content ∧
        ∀ d ∈ (name :: q).dropLast, isSkippedDir d = false) ↔
      t.content? (name :: q) = some content ∧
        ∀ dir n, dir ++ [n] <+: name :: q → dir ++ [n] ≠ name :: q →
          ¬ IsSkippedName n ∧ t.hasFile (dir ++ [n, moduleFile]) = false := by
  have hnames : (∀ d ∈ (name :: q).dropLast, isSkippedDir d = false) ↔
      ∀ dir n, dir ++ [n] <+: name :: q → dir ++ [n] ≠ name :: q → ¬ IsSkippedName n := by
    simp only [← isSkippedDir_iff, Bool.not_eq_true]
    exact forall_mem_dropLast_iff
  rw [hnames]
  constructor
  · rintro ⟨sub, hsub, ⟨hget, hway⟩, hskip⟩
    refine ⟨?_, fun dir n hpre hne => ⟨hskip dir n hpre hne, ?_⟩⟩
    · have hcontent := FileTree.content?_append hsub q
      rw [FileTree.get?_eq_file_iff.mp hget] at hcontent
      exact hcontent
    · obtain hnil | ⟨r, hr, hpre⟩ := List.prefix_cons_iff.mp hpre
      · simp at hnil
      · have hfile := FileTree.hasFile_append hsub (r ++ [moduleFile])
        rw [hway r hpre fun he => hne (hr.trans (by rw [he]))] at hfile
        rw [List.append_cons, hr]
        exact hfile
  · rintro ⟨hcontent, hway⟩
    have hget := FileTree.get?_eq_file_iff.mpr hcontent
    rw [← List.singleton_append, FileTree.get?_append] at hget
    obtain ⟨sub, hsub, hget⟩ := Option.bind_eq_some_iff.mp hget
    refine ⟨sub, hsub, ⟨hget, fun r hr hne => ?_⟩, fun dir n hpre hne => (hway dir n hpre hne).1⟩
    -- the directory is below the entry, so its path ends in a name
    obtain ⟨dir, n, hdir⟩ := (List.eq_nil_or_concat (name :: r)).resolve_left (by simp)
    rw [List.concat_eq_append] at hdir
    have hpre : dir ++ [n] <+: name :: q := hdir ▸ List.cons_prefix_cons.mpr ⟨rfl, hr⟩
    have hfile := (hway dir n hpre fun he => hne (List.cons.inj (hdir.trans he)).2).2
    rw [List.append_cons, ← hdir] at hfile
    rw [← FileTree.hasFile_append hsub]
    exact hfile

/-- The sources of a module are the files of which the paths say so. -/
theorem mem_moduleSources {root : FileTree Content} (h : root.HasDistinctNames) {module : Located}
    (hmodule : root.get? module.1 = some module.2) {e : Exclusions} {p : Path} {content : Content} :
    (p, content) ∈ moduleSources module e ↔ IsCollected root module.1 e p content := by
  rw [mem_moduleSources_iff (h.get? hmodule), isAnalyzable_iff, ← Bool.not_eq_true, excludes_iff]
  have hcontent := FileTree.content?_append hmodule
  have hfile := FileTree.hasFile_append hmodule
  constructor
  · rintro ⟨⟨name, sub, q, hsub, hp, hsource, hnames⟩, hwritten, hkept⟩
    obtain ⟨hq, hway⟩ := way_iff.mp ⟨sub, hsub, hsource, hnames⟩
    dsimp only at hp
    subst hp
    refine ⟨(hcontent _).trans hq, ⟨List.prefix_append _ _, by simp⟩, ?_, hwritten, hkept⟩
    rintro _ n ⟨dir, rfl⟩ hpre hne
    rw [List.append_assoc] at hpre hne
    rw [List.append_assoc, hfile]
    exact hway dir n ((List.prefix_append_right_inj _).mp hpre) fun he => hne (by rw [he])
  · rintro ⟨hp, ⟨⟨q, rfl⟩, hne⟩, hway, hwritten, hkept⟩
    obtain ⟨name, q, rfl⟩ := List.exists_cons_of_ne_nil
      (show q ≠ [] from fun he => hne (by simp [he]))
    refine ⟨?_, hwritten, hkept⟩
    obtain ⟨sub, hsub, hsource, hnames⟩ := way_iff.mpr ⟨(hcontent _).symm.trans hp,
      fun dir n hpre hne => by
        rw [← hfile, ← List.append_assoc]
        refine hway (module.1 ++ dir) n (List.prefix_append _ _) ?_ ?_
        · rw [List.append_assoc]
          exact (List.prefix_append_right_inj _).mpr hpre
        · rw [List.append_assoc]
          exact fun he => hne (List.append_cancel_left he)⟩
    exact ⟨name, sub, q, hsub, rfl, hsource, hnames⟩

/-! ## The order of what is collected -/

mutual

/-- The paths below the entries of a directory increase, as the entries do. -/
theorem pairwise_sourcesOf {here : Path} {entries : List (String × FileTree Content)}
    (h : FileTree.Increase entries) (hbelow : ∀ e ∈ entries, e.2.IsOrdered) :
    ((sourcesOf here entries).map (·.1)).Pairwise (· < ·) := by
  match entries with
  | [] => exact .nil
  | (name, sub) :: rest =>
    obtain ⟨hfirst, hrest⟩ := List.pairwise_cons.mp h
    have hbelow' : ∀ e ∈ rest, e.2.IsOrdered := fun e he => hbelow e (List.mem_cons_of_mem _ he)
    have hsub : sub.IsOrdered := hbelow _ List.mem_cons_self
    rw [sourcesOf, List.map_append, List.pairwise_append]
    refine ⟨pairwise_sourcesAt hsub, pairwise_sourcesOf hrest hbelow', fun p hp p' hp' => ?_⟩
    obtain ⟨file, hfile, rfl⟩ := List.mem_map.mp hp
    obtain ⟨file', hfile', rfl⟩ := List.mem_map.mp hp'
    obtain ⟨q, hq, -⟩ := (mem_sourcesAt_iff hsub.hasDistinctNames).mp hfile
    obtain ⟨name', sub', q', hmem, hq', -⟩ :=
      (mem_sourcesOf_iff fun e he => (hbelow' e he).hasDistinctNames).mp hfile'
    rw [hq, hq', List.append_assoc]
    exact List.append_left_lt (List.cons_lt_cons_iff.mpr (.inl (hfirst _ hmem)))

/-- The sources of an ordered tree come in the order of their paths. -/
theorem pairwise_sourcesAt {here : Path} {name : String} {t : FileTree Content} (h : t.IsOrdered) :
    ((sourcesAt here name t).map (·.1)).Pairwise (· < ·) := by
  match t with
  | .file content => exact List.pairwise_singleton _ _
  | .dir entries =>
    obtain ⟨hentries, hbelow⟩ := FileTree.isOrdered_dir_iff.mp h
    rw [sourcesAt]
    split
    · exact .nil
    · exact pairwise_sourcesOf hentries hbelow

end

/-- The sources of a module come in the order of their paths, each once. -/
theorem pairwise_moduleSources {module : Located} (h : module.2.IsOrdered) (e : Exclusions) :
    ((moduleSources module e).map (·.1)).Pairwise (· < ·) := by
  unfold moduleSources
  refine List.Pairwise.sublist (List.filter_sublist.map _) ?_
  match hroot : module.2 with
  | .file content => exact .nil
  | .dir entries =>
    rw [hroot] at h
    obtain ⟨hentries, hbelow⟩ := FileTree.isOrdered_dir_iff.mp h
    exact pairwise_sourcesOf hentries hbelow

/-! ## The files of nodes -/

/-- Whether a node is that of a function which a source of a module declares. -/
def IsDeclaredIn (module : Located) (modulePath : String) (file : Path × Content) (n : GraphNode) :
    Prop :=
  ∃ facts, fileFacts? module.1 modulePath file = some facts ∧
    ∃ decl ∈ facts.functions, ∃ id, n = nodeOf (facts.function decl) id

/-- The file of a node is the source that declares its function, a text. -/
theorem IsDeclaredIn.file {module : Located} {modulePath : String} {p : Path} {content : Content}
    {n : GraphNode} (h : IsDeclaredIn module modulePath (p, content) n) :
    n.file = withSlashes p.text ∧ ∃ source, content = .text source := by
  obtain ⟨facts, hfacts, decl, -, id, rfl⟩ := h
  cases content with
  | binary => cases hfacts
  | text source =>
    cases hfacts
    exact ⟨rfl, source, rfl⟩

/-- The nodes of a graph are those of functions of the program. -/
theorem Resolution.exists_function {r : Resolution} {p : Program} {n : GraphNode}
    (h : n ∈ r.nodes p) : ∃ f ∈ p.functions, ∃ id, n = nodeOf f id := by
  obtain ⟨⟨i, k⟩, -, hn⟩ := List.mem_filterMap.mp h
  obtain ⟨f, hf, rfl⟩ := Option.map_eq_some_iff.mp hn
  exact ⟨f, List.mem_of_getElem? hf, k + 1, rfl⟩

/-- Each node of a graph that is built is that of a function which a source of the module
declares. -/
theorem exists_source_of_node {shown : String} {root : Option (FileTree Content)}
    {options : BuildOptions} {progress : List Progress} {g : BuiltGraph} {module : Located}
    {modulePath : String} (hmodule : openModule shown root = .ok (module, modulePath))
    (hg : buildGraph shown root options = (progress, .ok g)) {n : GraphNode} (hn : n ∈ g.nodes) :
    ∃ file ∈ moduleSources module (.ofPatterns options.exclude),
      IsDeclaredIn module modulePath file n := by
  obtain ⟨p, hp, hbuild⟩ := buildGraph_ok hg
  rw [loadProgram_eq hmodule] at hp
  cases hp
  obtain ⟨r, -, hnodes, -⟩ := Program.build_ok hbuild
  rw [hnodes] at hn
  obtain ⟨f, hf, id, rfl⟩ := Resolution.exists_function hn
  obtain ⟨facts, hmem, decl, hdecl, rfl⟩ := Program.mem_functions_ofFiles.mp hf
  obtain ⟨file, hfile, hfacts⟩ := List.mem_filterMap.mp hmem
  exact ⟨file, hfile, facts, hfacts, decl, hdecl, id, rfl⟩

/-- The sources of a module are exactly the files below its root that no directory on the way and
neither rule on paths leaves out, in the order of their paths and each once. What is built from a
tree has only nodes of functions that such files declare. -/
theorem sources_exact {root : FileTree Content} (h : root.IsOrdered) {module : Located}
    (hmodule : root.get? module.1 = some module.2) (exclusions : Exclusions) :
    (∀ p content, (p, content) ∈ moduleSources module exclusions ↔
        IsCollected root module.1 exclusions p content) ∧
      ((moduleSources module exclusions).map (·.1)).Pairwise (· < ·) ∧
      ∀ shown options progress g, buildGraph shown (some root) options = (progress, .ok g) →
        ∃ found modulePath, openModule shown (some root) = .ok (found, modulePath) ∧
          root.get? found.1 = some found.2 ∧ ∀ n ∈ g.nodes, ∃ p source,
            IsCollected root found.1 (.ofPatterns options.exclude) p (.text source) ∧
              n.file = withSlashes p.text ∧
              IsDeclaredIn found modulePath (p, .text source) n := by
  refine ⟨fun p content => mem_moduleSources h.hasDistinctNames hmodule,
    pairwise_moduleSources (h.get? hmodule) exclusions, fun shown options progress g hg => ?_⟩
  obtain ⟨p, hp, -⟩ := buildGraph_ok hg
  obtain ⟨found, modulePath, hopen, -⟩ := exists_module_of_loadProgram hp
  obtain ⟨-, hroot, -⟩ := openModule_ok hopen
  have hfound := get?_of_moduleRoot? h.hasDistinctNames hroot
  refine ⟨found, modulePath, hopen, hfound, fun n hn => ?_⟩
  obtain ⟨⟨p, content⟩, hfile, hn⟩ := exists_source_of_node hopen hg hn
  obtain ⟨hn', source, rfl⟩ := hn.file
  exact ⟨p, source, (mem_moduleSources h.hasDistinctNames hfound).mp hfile, hn', hn⟩

/-- A module below the root of the search, with a test, a directory that is never searched and a
module of its own below it. -/
def nestedModule : FileTree Content :=
  [(["svc", "go.mod"], .text "module m\n"), (["svc", "api", "api.go"], .text "package api\n"),
    (["svc", "api", "api_test.go"], .text "package api\n"),
    (["svc", "_old", "old.go"], .text "package old\n"),
    (["svc", "tools", "go.mod"], .text "module m/tools\n"),
    (["svc", "tools", "t.go"], .text "package tools\n")].foldl
    (fun t file => t.write file.1 file.2) (.dir [])

/-- The case of a module with a test, a skipped directory and a module of its own. -/
theorem sources_exact_nestedModule :
    nestedModule.IsOrdered ∧ ∃ sub, nestedModule.get? ["svc"] = some sub ∧
      (∀ p content, IsCollected nestedModule ["svc"] {} p content ↔
        p = ["svc", "api", "api.go"] ∧ content = .text "package api\n") ∧
      ∀ progress g, buildGraph "." (some nestedModule) {} = (progress, .ok g) →
        ∀ n ∈ g.nodes, n.file = "svc/api/api.go" := by
  have hordered : nestedModule.IsOrdered := FileTree.isOrdered_written _
  have hopen : ∃ sub, nestedModule.get? ["svc"] = some sub ∧
      openModule "." (some nestedModule) = .ok ((["svc"], sub), "m") ∧
      moduleSources (["svc"], sub) {} = [(["svc", "api", "api.go"], .text "package api\n")] :=
    ⟨_, rfl, rfl, rfl⟩
  obtain ⟨sub, hsub, hopen, hsources⟩ := hopen
  obtain ⟨hmem, -, hnodes⟩ := @sources_exact _ hordered (["svc"], sub) hsub {}
  rw [hsources] at hmem
  have hcollected : ∀ p content, IsCollected nestedModule ["svc"] {} p content ↔
      p = ["svc", "api", "api.go"] ∧ content = .text "package api\n" := by
    simpa using fun p content => (hmem p content).symm
  refine ⟨hordered, sub, hsub, hcollected, fun progress g hg n hn => ?_⟩
  obtain ⟨found, modulePath, hfound, -, hfile⟩ := hnodes _ _ _ _ hg
  obtain rfl : found = (["svc"], sub) := (Prod.mk.inj (Except.ok.inj (hfound.symm.trans hopen))).1
  obtain ⟨p, source, hp, hn, -⟩ := hfile n hn
  obtain ⟨rfl, -⟩ := (hcollected p (.text source)).mp hp
  rw [hn]
  decide

end CallImpact
