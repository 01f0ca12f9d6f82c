import CallImpact.Service
import CallImpact.Proofs.Graph
import CallImpact.Proofs.Module
import CallImpact.Proofs.Store.Reached
import CallImpact.Proofs.Worktree

/-!
# Generating is all or nothing

Everything before the save spares the store (`spares_buildRequested`), and a graph that was built
can be saved in every store that operations left, where nothing is in the way of its files
(`save_built`). So generating either fails and leaves the store as it was, or it stores the graph of
the tree that the request is about (`stored_or_unchanged`).
-/

namespace CallImpact.Service

open Session
open History (HasCutoff)
open Store (IsCommit IsLatest IsOpen)

/-! ## Looking at a project -/

/-- Whether a directory lies in a repository is read off the trees alone. -/
theorem repositoryAt_eq {host : Host} {w w' : World} (h : SameSight w w') (dir : Path) :
    Vcs.repositoryAt host w' dir = Vcs.repositoryAt host w dir := by
  unfold Vcs.repositoryAt
  rw [h.trees]

/-- A lifted computation that depends on the repository alone only looks. -/
theorem looks_repository {ε α : Type} {m : Session α}
    (f : Host → Option Repository → α) (dir : Path)
    (h : ∀ host w, m host w = (f host (Vcs.repositoryAt host w dir), w)) :
    Looks (monadLift m : ExceptT ε Session α) := by
  refine ⟨fun host w => ?_, fun host w w' hw => ?_⟩
  · rw [exec_lift, h]
  · rw [exec_lift, exec_lift, h, h, repositoryAt_eq hw]

/-- Checking that a directory is there only looks. -/
theorem looks_requireDir (p : Place) : Looks (requireDir p) := by
  unfold requireDir
  refine looks_get_bind (fun w => ?_) fun hw => by rw [hw.trees]
  split
  · exact looks_pure ()
  · exact looks_throw _

/-- Resolving a path is read off the trees alone. -/
theorem canonical_eq {host : Host} {w w' : World} (h : SameSight w w') :
    canonical host w' = canonical host w := by
  funext path
  unfold canonical
  rw [h.trees]

/-- A registered project is looked up by the path and then by the remote repository. -/
theorem registered?_eq (dir repo : Path) (host : Host) (w : World) :
    registered? dir repo host w =
      ((w.registry.findByPath? (canonical host w) (canonical host w (joinPath host.root dir))).or
        (((Vcs.repositoryAt host w repo).bind (·.remote)).bind w.registry.findByRemote?), w) := by
  have hread : ∀ k : Host → World → Session (Option Project),
      (do k (← read) (← get) : Session (Option Project)) host w = k host w host w := fun k => rfl
  rw [registered?, hread]
  cases w.registry.findByPath? (canonical host w) (canonical host w (joinPath host.root dir)) with
  | some p => rfl
  | none => rfl

/-- Looking a project up in the registry only looks. -/
theorem looks_registered? (dir repo : Path) :
    Looks (monadLift (registered? dir repo) : Action (Option Project)) := by
  refine ⟨fun host w => ?_, fun host w w' hw => ?_⟩
  · rw [exec_lift, registered?_eq]
  · rw [exec_lift, exec_lift, registered?_eq, registered?_eq, canonical_eq hw, repositoryAt_eq hw,
      hw.registry]

/-- Working out which project a directory belongs to only looks. -/
theorem looks_identify (shown : String) (dir : Path) : Looks (Vcs.identify shown dir) := by
  unfold Vcs.identify
  refine Looks.bind (looks_repository (fun _ r => r.bind (·.remote)) dir fun _ _ => rfl)
    fun remote => ?_
  cases remote with
  | some url => exact looks_pure _
  | none =>
    refine looks_get_bind (fun w => ?_) fun hw => by rw [hw.trees]
    split
    · exact looks_read.bind fun _ => looks_pure _
    · exact looks_throw _

/-- Finding out which project a directory belongs to changes nothing. -/
theorem looks_resolveProject (p : Place) : Looks (resolveProject p) := by
  unfold resolveProject
  refine (looks_requireDir p).bind fun _ => Looks.bind
    (looks_repository (fun host r => r.map fun _ => host.repositoryDir) p.dir fun _ _ => rfl)
    fun repo => ?_
  cases repo with
  | none => exact looks_read.bind fun _ => looks_throw _
  | some repo =>
    refine (looks_registered? _ _).bind fun registered => ?_
    cases registered with
    | some project => exact (looks_pure _).bind fun _ => looks_pure _
    | none => exact looks_read.bind fun _ => (looks_identify _ _).bind fun _ => looks_pure _

/-- Asking for the current commit only looks. -/
theorem looks_head (dir : Path) : Looks (liftVcs (Vcs.head dir)) := by
  refine Looks.adapt ?_ Error.vcs
  unfold Vcs.head
  refine Looks.bind (looks_repository (fun _ r => r) dir fun _ _ => rfl) fun repository => ?_
  split
  · exact looks_pure _
  · exact looks_throw _

/-- Asking for the current branch only looks. -/
theorem looks_branch? (dir : Path) : Looks (monadLift (Vcs.branch? dir) : Action (Option String)) :=
  looks_repository (fun _ r => r.bind (·.branch)) dir fun _ _ => rfl

/-- The commit that is checked out is the one of the repository. -/
theorem head_ok {dir : Path} {host : Host} {w w' : World} {commit : String}
    (h : exec (liftVcs (Vcs.head dir)) host w = (.ok commit, w')) :
    ∃ repository ∈ host.repository, repository.head = some commit := by
  rcases hhead : exec (Vcs.head dir) host w with ⟨e | found, w₁⟩
  · rw [liftVcs, exec_adapt, hhead] at h
    cases h
  · rw [liftVcs, exec_adapt, hhead] at h
    cases h
    rw [Vcs.head, exec_bind_ok (exec_lift (Vcs.repository? dir))] at hhead
    split at hhead
    · rename_i branch remote hrepository
      cases hhead
      have hat : Vcs.repositoryAt host w dir = some ⟨some commit, branch, remote⟩ := hrepository
      unfold Vcs.repositoryAt at hat
      split at hat
      · exact ⟨_, hat, rfl⟩
      · cases hat
    · cases hhead

/-! ## Building -/

/-- Whether a graph is what is built of a tree. -/
def Builds (tree : Option (FileTree Content)) (options : BuildOptions) (g : BuiltGraph) : Prop :=
  ∃ shown progress, buildGraph shown tree options = (progress, .ok g)

/-- A graph that is built in time is one that the same tree and options build. -/
theorem builds_of_buildWithin {shown : String} {tree : Option (FileTree Content)}
    {options : BuildOptions} {start stop : Nat} {g : BuiltGraph}
    (h : (buildWithin shown tree options start stop).2 = .ok g) : Builds tree options g := by
  unfold buildWithin at h
  split at h
  · rcases hbuild : buildGraph shown tree options with ⟨progress, e | g'⟩
    · rw [hbuild] at h
      cases h
    · rw [hbuild] at h
      cases h
      exact ⟨shown, progress, hbuild⟩
  · cases h

/-- A build in a directory reports its progress and changes nothing else. -/
theorem buildAt_cases (top subdir : Path) (options : BuildOptions) (host : Host) (w : World) :
    ∃ result w', exec (buildAt top subdir options) host w = (result, w') ∧
      w'.events = w.events ∧ Untouched w w' ∧
      ∀ g, result = .ok g → Builds (w.trees.get? (top ++ subdir)) options g := by
  rcases hbuild : buildWithin (appendPath (joinPath host.root top) subdir.text)
    (w.trees.get? (top ++ subdir)) options 20 80 with ⟨progress, result⟩
  refine ⟨result, { w with progress := w.progress ++ progress }, ?_, rfl, ⟨rfl, rfl, rfl⟩,
    fun g hg => builds_of_buildWithin (by rw [hbuild, hg])⟩
  rw [buildAt, exec_bind_ok exec_read, exec_bind_ok exec_get]
  simp only [hbuild]
  exact exec_ofExcept result

/-- Building the graph of a checkout leaves the stored data alone. -/
theorem spares_buildAt (top subdir : Path) (options : BuildOptions) :
    Spares (buildAt top subdir options) := by
  intro host w
  obtain ⟨result, w', hbuild, -, hsame, -⟩ := buildAt_cases top subdir options host w
  rw [hbuild]
  exact hsame

/-- Building the graph of the current commit leaves the stored data alone. -/
theorem spares_buildHead (project : ResolvedProject) (options : BuildOptions) :
    Spares (buildHead project options) := by
  unfold buildHead
  exact (looks_head _).spares.bind fun _ => (looks_branch? _).spares.bind fun _ =>
    (spares_buildAt _ _ _).bind fun _ => (looks_pure _).spares

/-- Building the graph of another commit leaves the stored data alone. -/
theorem spares_buildElsewhere (c : Worktree.Config) (project : ResolvedProject) (reference : String)
    (options : BuildOptions) : Spares (buildElsewhere c project reference options) := by
  unfold buildElsewhere
  refine Spares.bind (fun _ _ => ⟨rfl, rfl, rfl⟩) fun _ => Worktree.spares_within _ _ _ fun _ => ?_
  exact (spares_buildAt _ _ _).bind fun _ => (looks_pure _).spares

/-- Whatever comes of it, a build spares the store. -/
theorem spares_buildRequested (s : Settings) (r : GenerateRequest) (project : ResolvedProject) :
    Spares (buildRequested s r project) := by
  unfold buildRequested
  dsimp only
  split
  · exact spares_buildHead _ _
  · refine (Worktree.spares_isHead _ _ _).bind fun same => ?_
    split
    · exact spares_buildHead _ _
    · exact spares_buildElsewhere _ _ _ _

/-! ## What is analysed -/

/-- The commits that a host can tell of: the one that is checked out, and those for which references
stand. -/
inductive Tells (host : Host) : String → Prop where
  | head {repository : Repository} {commit : String} : host.repository = some repository →
      repository.head = some commit → Tells host commit
  | resolved {reference out : String} : Writes host (.resolve reference) out →
      Tells host (Text.trim out)

/-- What is asked of a host: commits have the form of commits, a commit that is checked out leaves
its contents, and the clock does not go back. -/
structure IsFaithful (host : Host) (contents : String → FileTree Content) : Prop where
  commits : ∀ commit, Tells host commit → IsCommit commit
  checkedOut : ∀ turn before path commit limit,
    let i := (GitCommand.addWorktree path commit).invocation host.root
    let reply := host.reply turn before i limit
    Succeeded reply.ended → reply.left = some (contents commit)
  clock : ∀ m n, m ≤ n → (host.clock m).le (host.clock n)

/-- The commit that a request is about and the tree that is analysed for it, as the commands for
version control tell: without a reference, or with one that stands for the same commit as `HEAD`,
the commit that is checked out and the working directory, and otherwise the commit that the
reference stands for and its contents. -/
inductive Analysed (host : Host) (contents : String → FileTree Content) (trees : FileTree Content)
    (project : ResolvedProject) :
    Option String → List Event → String → Option (FileTree Content) → Prop where
  | head {repository : Repository} {commit : String} : host.repository = some repository →
      repository.head = some commit →
      Analysed host contents trees project none [] commit
        (trees.get? (project.repo ++ project.subdir))
  | same {repository : Repository} {commit reference out out' err err' : String} :
      host.repository = some repository → repository.head = some commit →
      Text.trim out = Text.trim out' →
      Analysed host contents trees project (some reference)
        [.git project.repo (.resolve "HEAD") (.exited 0 out err),
          .git project.repo (.resolve reference) (.exited 0 out' err')]
        commit (trees.get? (project.repo ++ project.subdir))
  | other {reference out out' found err err' err'' : String} {events : List Event} :
      Text.trim out ≠ Text.trim out' →
      Analysed host contents trees project (some reference)
        (.git project.repo (.resolve "HEAD") (.exited 0 out err) ::
          .git project.repo (.resolve reference) (.exited 0 out' err') ::
          .git project.repo (.resolve reference) (.exited 0 found err'') :: events)
        (Text.trim found) ((contents (Text.trim found)).get? project.subdir)

section
variable {host : Host} {contents : String → FileTree Content} {w w' : World}
  {project : ResolvedProject} {options : BuildOptions} {built : Built} {reference : String}

/-- A graph built of the current commit is one of the working tree, under the commit that the
repository names, and no command was run. -/
theorem buildHead_ok (h : exec (buildHead project options) host w = (.ok built, w')) :
    (∃ repository ∈ host.repository, repository.head = some built.commit) ∧
      Builds (w.trees.get? (project.repo ++ project.subdir)) options built.graph ∧
      w'.events = w.events := by
  unfold buildHead at h
  obtain ⟨commit, w₁, hhead, h₁⟩ := of_exec_bind h
  obtain ⟨branch, w₂, hbranch, h₂⟩ := of_exec_bind h₁
  obtain ⟨g, w₃, hbuild, h₃⟩ := of_exec_bind h₂
  cases h₃
  have hw : w₂ = w := ((looks_branch? _).eq_of_exec hbranch).trans ((looks_head _).eq_of_exec hhead)
  obtain ⟨result, w₄, hresult, hevents, -, hbuilds⟩ :=
    buildAt_cases project.repo project.subdir options host w₂
  rw [hresult] at hbuild
  cases hbuild
  rw [hw] at hevents hbuilds
  exact ⟨head_ok hhead, hbuilds g rfl, hevents⟩

/-- In a working copy are the contents of its commit, or nothing. -/
theorem get?_checkedOut (hhost : IsFaithful host contents) {path : Path} {commit : String}
    (h : Worktree.CheckedOut host path commit w) (q : Path) :
    w.trees.get? (path ++ q) = (contents commit).get? q ∨ w.trees.get? (path ++ q) = none := by
  obtain ⟨turn, before, limit, trees, hended, htrees⟩ := h
  have hleft := hhost.checkedOut turn before path commit limit hended
  simp only [GitCommand.effect, hleft] at htrees
  rw [htrees, FileTree.get?_append]
  cases hput : FileTree.put? (contents commit) path trees with
  | some t => exact .inl (by rw [Option.getD_some, FileTree.get?_put? hput]; rfl)
  | none => exact .inr (by rw [Option.getD_none, FileTree.get?_of_put?_none hput]; rfl)

/-- Nothing is built where there is nothing. -/
theorem not_builds_none {g : BuiltGraph} : ¬ Builds none options g := by
  rintro ⟨shown, progress, h⟩
  cases h

/-- A graph built of a reference is one of the tree of the commit that the reference was resolved
to, and resolving it was the first command. -/
theorem buildElsewhere_ok (hhost : IsFaithful host contents) {c : Worktree.Config}
    (h : exec (buildElsewhere c project reference options) host w = (.ok built, w')) :
    ∃ found err events, w'.events = w.events ++
        .git project.repo (.resolve reference) (.exited 0 found err) :: events ∧
      built.commit = Text.trim found ∧ Tells host built.commit ∧
      Builds ((contents (Text.trim found)).get? project.subdir) options built.graph := by
  rw [buildElsewhere, exec_bind_ok (exec_report _ _)] at h
  obtain ⟨events, w₁, hevents, -, ⟨e, hcreate, -⟩ | ⟨e, path, tried, torn, hcreate, -⟩ |
    ⟨handle, found, err, tried, hcreate, rfl, hwrites, hcommit, -, hpath, hout⟩⟩ :=
    Worktree.create_cases c project.repo reference host
      { w with progress := w.progress ++ [⟨10, "Creating worktree"⟩] }
  · rw [Worktree.within, exec_bind_error hcreate] at h
    cases h
  · rw [Worktree.within, exec_bind_error hcreate] at h
    cases h
  · obtain ⟨torn, w₂, hwithin, -, hevents', -⟩ := Worktree.exec_within_ok hcreate hpath
    rw [hwithin] at h
    obtain ⟨hbuilt, rfl⟩ := Prod.mk.inj h
    obtain ⟨result, w₃, hresult, hevents₃, -, hbuilds⟩ :=
      buildAt_cases handle.path project.subdir options host w₁
    cases result with
    | error e =>
      rw [exec_bind_error hresult] at hbuilt
      cases hbuilt
    | ok g =>
      rw [exec_bind_ok hresult] at hbuilt hevents'
      cases hbuilt
      refine ⟨found, err, tried ++ torn, ?_, hcommit, hcommit ▸ .resolved hwrites, ?_⟩
      · rw [hevents', exec_pure, hevents₃, hevents]
        simp
      · rw [← hcommit]
        -- where a file was in the way of the working copy, the build has failed
        rcases get?_checkedOut hhost hout project.subdir with heq | heq
        · exact heq ▸ hbuilds g rfl
        · exact absurd (heq ▸ hbuilds g rfl) not_builds_none

/-- A reference that a request names is trimmed, not empty and not the current commit. -/
theorem referenceOf_eq_some {r : GenerateRequest} (h : referenceOf r = some reference) :
    Text.trim reference = reference ∧ reference ≠ "" ∧ reference ≠ "HEAD" := by
  obtain ⟨hmap, hne⟩ := Option.filter_eq_some_iff.mp h
  obtain ⟨commit, -, rfl⟩ := Option.map_eq_some_iff.mp hmap
  simpa using hne

/-- A build that works out is one of the tree that the request is about. -/
theorem buildRequested_ok (hhost : IsFaithful host contents) {s : Settings} {r : GenerateRequest}
    (h : exec (buildRequested s r project) host w = (.ok built, w')) :
    ∃ events tree, w'.events = w.events ++ events ∧
      Analysed host contents w.trees project (referenceOf r) events built.commit tree ∧
      Tells host built.commit ∧
      Builds tree (s.analysis.options (overrides r project.registered)) built.graph := by
  rw [buildRequested] at h
  cases hreference : referenceOf r with
  | none =>
    rw [hreference] at h
    obtain ⟨⟨repository, hrepository, hhead⟩, hbuilds, hevents⟩ := buildHead_ok h
    exact ⟨[], _, by rw [hevents, List.append_nil], .head hrepository hhead,
      .head hrepository hhead, hbuilds⟩
  | some reference =>
    obtain ⟨htrim, hne, hne'⟩ := referenceOf_eq_some hreference
    rw [hreference] at h
    obtain ⟨same, w₁, hsame, h₁⟩ := of_exec_bind h
    obtain ⟨out, out', err, err', hevents, htrees, rfl⟩ := Worktree.isHead_ok hne hne' htrim hsame
    by_cases heq : Text.trim out = Text.trim out'
    · rw [if_pos (beq_iff_eq.mpr heq)] at h₁
      obtain ⟨⟨repository, hrepository, hhead⟩, hbuilds, hevents'⟩ := buildHead_ok h₁
      exact ⟨_, _, hevents'.trans hevents, .same hrepository hhead heq, .head hrepository hhead,
        htrees ▸ hbuilds⟩
    · rw [if_neg (by simpa using heq)] at h₁
      obtain ⟨found, err'', more, hevents', hcommit, htells, hbuilds⟩ := buildElsewhere_ok hhost h₁
      rw [hevents, List.append_assoc] at hevents'
      refine ⟨_, _, hevents', ?_, htells, hbuilds⟩
      rw [hcommit]
      exact .other heq

end

/-! ## Storing -/

/-- Whether a snapshot holds the nodes, the edges, the algorithm and the module path of a graph. -/
structure HoldsGraph (snapshot : Snapshot) (g : BuiltGraph) : Prop where
  nodes : snapshot.nodes = g.nodes
  edges : snapshot.edges = g.edges
  algorithm : snapshot.text? "algorithm" = some g.actual.id
  modulePath : snapshot.text? "module_path" = some g.modulePath

/-- A graph that was built keeps the rules of a snapshot. -/
theorem snapshotOf_built {tree : Option (FileTree Content)} {options : BuildOptions}
    {new : Store.NewGraph} (h : Builds tree options new.graph) (now : Instant) :
    ∃ progress snapshot, Store.snapshotOf new now = (progress, .ok snapshot) ∧
      HoldsGraph snapshot new.graph := by
  obtain ⟨shown, progress, hbuild⟩ := h
  obtain ⟨p, -, hp⟩ := buildGraph_ok hbuild
  obtain ⟨hnodes, hedges⟩ := write_of_build hp
  unfold Store.snapshotOf
  simp only [hnodes, hedges]
  refine ⟨_, _, rfl, rfl, rfl, ?_, ?_⟩
  · simp [Snapshot.text?_setText]
  · simp [Snapshot.text?_setText]

/-- A graph that was built can be saved in any store that operations left, where nothing is in the
way of its files, and is the latest one then. -/
theorem save_built {s : Store} {now : Instant} (hstore : Store.Reached s now)
    {identity : ProjectIdentity} {built : Built} {tree : Option (FileTree Content)}
    {options : BuildOptions} (hbuilds : Builds tree options built.graph)
    (hcommit : IsCommit built.commit) (hopen : IsOpen identity.id built.commit s.tree)
    (hcutoff : HasCutoff now s.retention.maxAgeDays) (millis : Nat) :
    ∃ s' steps graph snapshot, s.save identity (built.toStore millis) now = (s', steps, .ok graph) ∧
      graph.commit = built.commit ∧ IsLatest s' identity.id built.commit snapshot ∧
      HoldsGraph snapshot built.graph := by
  have hnew : Builds tree options (built.toStore millis).graph := hbuilds
  have hc : IsCommit (built.toStore millis).commit := hcommit
  obtain ⟨progress, snapshot, hsnapshot, hholds⟩ := snapshotOf_built hnew now
  obtain ⟨s', steps, graph, hsave, hgraph, hlatest⟩ :=
    hstore.save_latest hc hopen hcutoff hsnapshot
  exact ⟨s', steps, graph, snapshot, hsave, hgraph, hlatest, hholds⟩

/-- Saving a graph is the save of the store at the time of the clock, with its steps reported and
one more reading of the clock. -/
theorem exec_saveGraph {identity : ProjectIdentity} {new : Store.NewGraph} {host : Host} {w : World}
    {s : Store} {steps : List Progress} {result : Except Error CallGraph}
    (h : w.store.save identity new (host.clock w.readings) = (s, steps, result)) :
    exec (saveGraph identity new) host w =
      (result, { w with
        store := s, progress := w.progress ++ steps, readings := w.readings + 1 }) := by
  rw [saveGraph, exec_bind_ok exec_now]
  exact exec_onStoreReporting h

/-- Generating fails before anything is stored, or it stores a graph that was built. -/
theorem generate_cases (s : Settings) (r : GenerateRequest) (host : Host) (w : World) :
    (∃ e w', exec (generate s r) host w = (.error e, w') ∧ w'.store = w.store) ∨
    ∃ project built w₁ w₂ w₃ millis, exec (resolveProject r.place) host w = (.ok project, w) ∧
      w₁.trees = w.trees ∧ w₁.events = w.events ∧
      exec (buildRequested s r project) host w₁ = (.ok built, w₂) ∧
      w₃.store = w.store ∧ w₃.readings = w.readings + 2 ∧ w₃.events = w₂.events ∧
      exec (generate s r) host w = exec (do
        return built.outcome (← saveGraph project.identity (built.toStore millis))) host w₃ := by
  rw [generate, exec_bind_ok exec_now, exec_bind_ok (exec_report _ _)]
  set w₁ : World := { w with
    readings := w.readings + 1, progress := w.progress ++ [⟨5, "Resolving project"⟩] }
  -- the project is the same whether it is looked up before the first report or after it
  have hresolved := (looks_resolveProject r.place).exec_eq host (⟨rfl, rfl⟩ : SameSight w w₁)
  rcases hproject : exec (resolveProject r.place) host w with ⟨e | project, w₀⟩
  · rw [hproject] at hresolved
    exact .inl ⟨e, w₁, exec_bind_error hresolved, rfl⟩
  · rw [hproject] at hresolved
    rw [(looks_resolveProject r.place).eq_of_exec hproject, exec_bind_ok hresolved]
    have hspared := spares_buildRequested s r project host w₁
    rcases hbuilt : exec (buildRequested s r project) host w₁ with ⟨e | built, w₂⟩
    · rw [hbuilt] at hspared
      exact .inl ⟨e, w₂, exec_bind_error hbuilt, hspared.store⟩
    · rw [hbuilt] at hspared
      rw [exec_bind_ok hbuilt, exec_bind_ok exec_now]
      exact .inr ⟨project, built, w₁, w₂, { w₂ with readings := w₂.readings + 1 },
        (((host.clock w₂.readings).seconds - (host.clock w.readings).seconds) * 1000).toNat, rfl,
        rfl, rfl, hbuilt, hspared.store, congrArg (· + 1) hspared.readings, rfl, rfl⟩

/-- Generating a graph in a store that operations left, whatever projects and bounds they had and
whatever comes of the commands, where nothing is in the way of the files of the project: when it
fails, the store is as it was. When it works out, the history of the project has one entry for the
commit, which is the latest, and its snapshot holds what is built of the tree that the request is
about. -/
theorem stored_or_unchanged (s : Settings) (r : GenerateRequest) {host : Host} {w : World}
    {contents : String → FileTree Content} (hhost : IsFaithful host contents)
    (hstore : Store.Reached w.store (host.clock w.readings))
    (hopen : ∀ project w', exec (resolveProject r.place) host w = (.ok project, w') →
      ∀ commit, Tells host commit → IsOpen project.identity.id commit w.store.tree)
    (hcutoff : ∀ n, w.readings ≤ n → HasCutoff (host.clock n) w.store.retention.maxAgeDays) :
    (∀ e w', exec (generate s r) host w = (.error e, w') → w'.store = w.store) ∧
    ∀ outcome w', exec (generate s r) host w = (.ok outcome, w') →
      ∃ project events tree g snapshot,
        exec (resolveProject r.place) host w = (.ok project, w) ∧
        w'.events = w.events ++ events ∧
        Analysed host contents w.trees project (referenceOf r) events outcome.graph.commit tree ∧
        Builds tree (s.analysis.options (overrides r project.registered)) g ∧
        IsLatest w'.store project.identity.id outcome.graph.commit snapshot ∧
        HoldsGraph snapshot g := by
  obtain ⟨e, w', hgenerate, hsame⟩ | ⟨project, built, w₁, w₂, w₃, millis, hproject, htrees,
    hevents₁, hbuilt, hstore₃, hreadings, hevents₃, hgenerate⟩ := generate_cases s r host w
  · rw [hgenerate]
    refine ⟨fun _ _ h => ?_, fun _ _ h => ?_⟩
    · obtain ⟨-, rfl⟩ := Prod.mk.inj h
      exact hsame
    · cases (Prod.mk.inj h).1
  · obtain ⟨events, tree, hevents, hanalysed, htells, hbuilds⟩ := buildRequested_ok hhost hbuilt
    -- the save is made at the third reading of the clock
    have hreached : Store.Reached w₃.store (host.clock w₃.readings) := by
      rw [hstore₃, hreadings]
      exact hstore.later (hhost.clock _ _ (by omega))
    have hfree : IsOpen project.identity.id built.commit w₃.store.tree := by
      rw [hstore₃]
      exact hopen project w hproject _ htells
    have hcut : HasCutoff (host.clock w₃.readings) w₃.store.retention.maxAgeDays := by
      rw [hstore₃, hreadings]
      exact hcutoff _ (by omega)
    obtain ⟨s', steps, graph, snapshot, hsave, hgraph, hlatest, hholds⟩ :=
      save_built hreached hbuilds (hhost.commits _ htells) hfree hcut millis
    rw [hgenerate, exec_bind_ok (exec_saveGraph hsave), exec_pure]
    refine ⟨fun _ _ h => ?_, fun outcome _ h => ?_⟩
    · cases (Prod.mk.inj h).1
    · obtain ⟨houtcome, rfl⟩ := Prod.mk.inj h
      have hout : outcome.graph.commit = built.commit := by
        rw [← Except.ok.inj houtcome]
        exact hgraph
      rw [hout]
      refine ⟨project, events, tree, built.graph, snapshot, hproject, ?_, htrees ▸ hanalysed,
        hbuilds, hlatest, hholds⟩
      rw [← hevents₁, ← hevents]
      exact hevents₃

/-- The contents of a commit: a module with one function. -/
def oneFunction : FileTree Content :=
  .dir [("a.go", .file (.text "package a\nfunc f(){}")), ("go.mod", .file (.text "module m"))]

/-- A host with two commits, of which the first is checked out. -/
def twoCommits : Host where
  repository := some ⟨some "aaaaaaaa", some "main", none⟩
  reply _ _ i _ :=
    if i.args = (GitCommand.resolve "HEAD").args "" then { ended := .exited 0 "aaaaaaaa\n" "" }
    else if i.args.head? = some "rev-parse" then { ended := .exited 0 "bbbbbbbb\n" "" }
    else { ended := .exited 0 "" "", left := some oneFunction }
  clock _ := ⟨1700000000, 0⟩
  suffix _ := "1"

/-- The save of an empty graph for a commit. -/
def emptySave (commit : String) : Store.Step :=
  ⟨.save "" none { (default : Store.NewGraph) with commit }, ⟨1700000000, 0⟩⟩

/-- What was saved before: a graph of another project, and one of the second commit. -/
def earlierSaves : List (String × Store.Step) :=
  [("q", emptySave "aaaaaaaa"), ("p", emptySave "bbbbbbbb")]

/-- A repository whose second commit was saved before, when more graphs were kept than now. -/
def savedBefore : World where
  trees := .dir [("repo", .dir [])]
  store := { earlierSaves.foldl Store.stepOn { dataDir := "data", retention := {} } with
    retention := { maxCount := 1 } }
  registry :=
    { projects := [{ id := "p", name := "p", localPaths := [.text "/repo"], algorithm := .direct
                     created := default, updated := default }] }

/-- A request for the second commit. -/
def tagged : GenerateRequest :=
  { place := ⟨"repo", ["repo"]⟩, commit := some " v1" }

/-- The sample host tells of two commits only. -/
theorem tells_twoCommits {commit : String} (h : Tells twoCommits commit) :
    commit = "aaaaaaaa" ∨ commit = "bbbbbbbb" := by
  cases h with
  | head hrepository hhead =>
    cases hrepository
    cases hhead
    exact .inl rfl
  | @resolved reference out hwrites =>
    obtain ⟨turn, before, limit, err, hended⟩ := hwrites
    unfold twoCommits at hended
    dsimp only at hended
    split at hended
    · cases hended
      exact .inl (by decide)
    · have hhead :
          ((GitCommand.resolve reference).invocation "").args.head? = some "rev-parse" := rfl
      rw [if_pos hhead] at hended
      cases hended
      exact .inr (by decide)

/-- What the sample host tells is the name of a commit. -/
theorem isCommit_of_tells {commit : String} (h : Tells twoCommits commit) : IsCommit commit := by
  rcases tells_twoCommits h with rfl | rfl
  · decide
  · decide

/-- The sample host checks out the same one function for every commit. -/
theorem isFaithful_twoCommits : IsFaithful twoCommits fun _ => oneFunction := by
  refine ⟨fun _ => isCommit_of_tells, ?_, ?_⟩
  · intro turn before path commit limit i reply hended
    rfl
  · intro m n _
    exact Instant.le_refl _

/-- The clock of the sample host leaves room for the bound of the default policy. -/
theorem hasCutoff_twoCommits : HasCutoff ⟨1700000000, 0⟩ ({} : RetentionPolicy).maxAgeDays := by
  decide

/-- The store of the sample world is one that earlier operations have left. -/
theorem reached_savedBefore :
    Store.Reached savedBefore.store (twoCommits.clock savedBefore.readings) := by
  have hstart : Store.Reached { dataDir := "data", retention := {} } ⟨1700000000, 0⟩ :=
    .start "data" {} ⟨1700000000, 0⟩
  have hfirst : Store.Reached (Store.stepOn _ ("q", emptySave "aaaaaaaa")) ⟨1700000000, 0⟩ :=
    hstart.step "q" (by decide : IsCommit "aaaaaaaa") (Instant.le_refl _)
  have hsecond : Store.Reached (Store.stepOn _ ("p", emptySave "bbbbbbbb")) ⟨1700000000, 0⟩ :=
    hfirst.step "p" (by decide : IsCommit "bbbbbbbb") (Instant.le_refl _)
  simp only [savedBefore, earlierSaves, List.foldl_cons, List.foldl_nil, twoCommits]
  exact hsecond.reopen { maxCount := 1 }

/-- What was saved before is not in the way of another save. -/
theorem isOpen_savedBefore {commit : String} (hc : IsCommit commit) :
    IsOpen "p" commit savedBefore.store.tree := by
  have hapart : ["p", "q"].Pairwise Store.Apart := by
    simpa using Store.apart_of_ne (by decide) (by decide) (by decide)
  have hopen : IsOpen "p" commit ((Store.Runs.start "data" {}).after earlierSaves).store.tree :=
    Store.Runs.isOpen_after_start "data" hapart (by decide) (by decide +kernel) (by decide)
      (by decide) hc.isPlain
  have hstart : (Store.Runs.start "data" {}).store = { dataDir := "data", retention := {} } := rfl
  rw [Store.Runs.store_after, hstart] at hopen
  simp only [savedBefore]
  exact hopen

/-- The case of a tag that names the second commit, which was saved before when more graphs were
kept. -/
theorem stored_or_unchanged_tagged :
    ∃ outcome w' tree g snapshot, ∃ project : ResolvedProject,
      exec (generate {} tagged) twoCommits savedBefore = (.ok outcome, w') ∧
      outcome.graph.commit = "bbbbbbbb" ∧ project.identity.id = "p" ∧
      Builds tree (({} : Settings).analysis.options (overrides tagged project.registered)) g ∧
      IsLatest w'.store "p" "bbbbbbbb" snapshot ∧ HoldsGraph snapshot g := by
  obtain ⟨project, w₁, hproject, hid⟩ : ∃ project w₁,
      exec (resolveProject tagged.place) twoCommits savedBefore = (.ok project, w₁) ∧
        project.identity.id = "p" :=
    exists_ok_of_map (by decide +kernel)
  obtain ⟨outcome, w', hgenerate, hcommit⟩ : ∃ outcome w',
      exec (generate {} tagged) twoCommits savedBefore = (.ok outcome, w') ∧
        outcome.graph.commit = "bbbbbbbb" :=
    exists_ok_of_map (by decide +kernel)
  have hids : ∀ other w₂, exec (resolveProject tagged.place) twoCommits savedBefore =
      (.ok other, w₂) → other.identity.id = "p" := by
    intro other w₂ h
    rw [hproject] at h
    cases h
    exact hid
  obtain ⟨-, hstored⟩ := stored_or_unchanged {} tagged isFaithful_twoCommits reached_savedBefore
    (fun other w₂ h commit htells =>
      (hids other w₂ h).symm ▸ isOpen_savedBefore (isCommit_of_tells htells))
    fun _ _ => hasCutoff_twoCommits
  obtain ⟨found, events, tree, g, snapshot, hfound, -, -, hbuilds, hlatest, hholds⟩ :=
    hstored outcome w' hgenerate
  rw [hids found _ hfound, hcommit] at hlatest
  exact ⟨outcome, w', tree, g, snapshot, found, hgenerate, hcommit, hids found _ hfound, hbuilds,
    hlatest, hholds⟩

end CallImpact.Service
