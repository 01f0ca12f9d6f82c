import CallImpact.Diff.Analysis
import CallImpact.Impact
import CallImpact.Scan
import CallImpact.Status
import CallImpact.Worktree

/-!
# Operations

What can be asked about the project in a directory: generating its graph, its status, what changed
in it, the impact of changes, and its history. Every operation first finds out which project the
directory belongs to. Generating works on the commit that is checked out, or on a working copy of
another one.
-/

namespace CallImpact

open Session

/-- A directory, and how it is written in messages. -/
structure Place where
  shown : String
  dir : Path
  deriving Repr, BEq, DecidableEq, Inhabited

/-- A project as an operation finds it. -/
structure ResolvedProject where
  identity : ProjectIdentity
  /-- The top of the repository. -/
  repo : Path
  /-- The directory below the top. -/
  subdir : Path
  registered : Option Project
  deriving Repr, BEq, DecidableEq, Inhabited

/-- What to generate. -/
structure GenerateRequest where
  place : Place
  commit : Option String := none
  algorithm : Option Algorithm := none
  entries : List EntryPoint := []
  allowFallback : Option Bool := none
  deriving Repr, BEq, DecidableEq, Inhabited

/-- What was generated. -/
structure GenerateOutcome where
  graph : CallGraph
  modulePath : String
  requested : Algorithm
  actual : Algorithm
  fallback : Bool
  fallbackReason : Option String
  deriving Repr, BEq, DecidableEq, Inhabited

/-- What was generated, in JSON. -/
def GenerateOutcome.toJson (o : GenerateOutcome) : Json :=
  .obj [("graph", o.graph.toJson), ("module_path", .str o.modulePath),
    ("requested", o.requested.toJson), ("actual", o.actual.toJson), ("fallback", .bool o.fallback),
    ("fallback_reason", .ofStr? o.fallbackReason)]

/-- What changed, and the impact of the changes. -/
structure FullAnalysis where
  diff : Diff.Changes
  impact : ImpactReport
  deriving Repr, BEq, DecidableEq, Inhabited

/-- An analysis in JSON. -/
def FullAnalysis.toJson (a : FullAnalysis) : Json :=
  .obj [("diff", a.diff.toJson), ("impact", a.impact.toJson)]

namespace Service

/-! ## Projects -/

/-- Fails unless there is a directory. -/
def requireDir (p : Place) : Action Unit := do
  if (← get).trees.hasDir p.dir then return ()
  throw (.inputInvalid (p.shown ++ " is not a directory"))

/-- The registered project of a directory: by its path, else by the remote repository. -/
def registered? (dir repo : Path) : Session (Option Project) := do
  let host ← read
  let world ← get
  let canonical := canonical host world
  match world.registry.findByPath? canonical (canonical (joinPath host.root dir)) with
  | some p => return some p
  | none => return (← Vcs.remote? repo).bind world.registry.findByRemote?

/-- The project of a directory. -/
def resolveProject (p : Place) : Action ResolvedProject := do
  requireDir p
  match ← Vcs.workDir? p.dir with
  | none =>
    throw (.inputInvalid (joinPath (← read).root p.dir ++ " is not inside a git repository"))
  | some repo =>
    let registered ← registered? p.dir repo
    let identity ← match registered with
      | some project => pure project.identity
      | none => Vcs.identify (joinPath (← read).root repo) repo
    return { identity, repo, subdir := p.dir.drop repo.length, registered }

/-- The identifier of the project of a directory. -/
def projectId (p : Place) : Action String := do
  return (← resolveProject p).identity.id

/-! ## Graphs -/

/-- The entry points of the module in a directory. -/
def scan (s : Settings) (p : Place) : Action (List EntryCandidate) := do
  requireDir p
  ofExcept (scanEntries p.shown ((← get).trees.get? p.dir) s.analysis.exclude)

/-- The status of the project of a directory. -/
def status (s : Settings) (p : Place) (target : Option String) : Action Store.Status := do
  let project ← resolveProject p
  checkStatus s.timeouts project.identity.id project.repo target

/-- Stores a graph. -/
def saveGraph (identity : ProjectIdentity) (new : Store.NewGraph) : Action CallGraph := do
  let now ← Session.now
  onStoreReporting fun store => store.save identity new now

/-- Removes the graphs of a project beyond bounds. -/
def cleanGraphs (id : String) (maxCount maxAgeDays : Nat) : Action (List CallGraph) := do
  let now ← Session.now
  onStore fun store => store.clean id maxCount maxAgeDays now

/-- What a request asks for, completed by what is registered. -/
def overrides (r : GenerateRequest) (registered : Option Project) : BuildOverrides :=
  { algorithm := r.algorithm <|> registered.map (·.algorithm)
    entries := if r.entries.isEmpty then (registered.map (·.entryPoints)).getD [] else r.entries
    exclude := registered.map (·.exclude)
    allowFallback := r.allowFallback }

/-- Builds the graph of the module in a directory below a top. -/
def buildAt (top subdir : Path) (options : BuildOptions) : Action BuiltGraph := do
  let shown := appendPath (joinPath (← read).root top) subdir.text
  let (progress, result) := buildWithin shown ((← get).trees.get? (top ++ subdir)) options 20 80
  modify fun w => { w with progress := w.progress ++ progress }
  ofExcept result

/-- A built graph with its commit and branch. -/
structure Built where
  commit : String
  branch : Option String
  graph : BuiltGraph
  deriving Repr, BEq, DecidableEq, Inhabited

/-- A built graph as it is stored. -/
def Built.toStore (built : Built) (millis : Nat) : Store.NewGraph :=
  { commit := built.commit, branch := built.branch, graph := built.graph, millis }

/-- What is told about a built graph that was stored. -/
def Built.outcome (built : Built) (graph : CallGraph) : GenerateOutcome :=
  { graph
    modulePath := built.graph.modulePath
    requested := built.graph.requested
    actual := built.graph.actual
    fallback := built.graph.fallback
    fallbackReason := built.graph.fallbackReason }

/-- Builds the graph of what is checked out. -/
def buildHead (project : ResolvedProject) (options : BuildOptions) : Action Built := do
  let commit ← liftVcs (Vcs.head project.repo)
  let branch ← Vcs.branch? project.repo
  return { commit, branch, graph := ← buildAt project.repo project.subdir options }

/-- Builds the graph of another commit in a working copy of its own. -/
def buildElsewhere (c : Worktree.Config) (project : ResolvedProject) (reference : String)
    (options : BuildOptions) : Action Built := do
  report 10 "Creating worktree"
  Worktree.within c project.repo reference fun handle => do
    return { commit := handle.commit, branch := none,
             graph := ← buildAt handle.path project.subdir options }

/-- The reference that a request gives; none when it asks for what is checked out. -/
def referenceOf (r : GenerateRequest) : Option String :=
  (r.commit.map Text.trim).filter fun c => c != "" && c != "HEAD"

/-- Builds the graph that a request asks for: that of what is checked out, unless it gives a
reference that stands for another commit. -/
def buildRequested (s : Settings) (r : GenerateRequest) (project : ResolvedProject) :
    Action Built := do
  let options := s.analysis.options (overrides r project.registered)
  let c : Worktree.Config := ⟨s.worktree, s.timeouts⟩
  match referenceOf r with
  | none => buildHead project options
  | some reference =>
    if ← Worktree.isHead c project.repo reference then buildHead project options
    else buildElsewhere c project reference options

/-- Generates and stores a graph. -/
def generate (s : Settings) (r : GenerateRequest) : Action GenerateOutcome := do
  let started ← Session.now
  report 5 "Resolving project"
  let project ← resolveProject r.place
  let built ← buildRequested s r project
  let millis := (((← Session.now).seconds - started.seconds) * 1000).toNat
  return built.outcome (← saveGraph project.identity (built.toStore millis))

/-! ## Changes and their impact -/

/-- What changed over a range. -/
def diff (s : Settings) (p : Place) (range : String) : Action Diff.Changes :=
  Diff.analyze s.timeouts p.shown p.dir range

/-- The stored graph of a commit, or the latest one, and its snapshot. -/
def openSnapshot (p : Place) (commit : Option String) : Action (CallGraph × Snapshot) := do
  let id ← projectId p
  fromStore fun store => do
    let graph ← match commit with
      | some reference => store.find id reference
      | none => store.latest id
    return (graph, ← store.snapshotAt graph)

/-- The impact of changes to functions, in the graph of a commit or in the latest one. -/
def impact (p : Place) (commit : Option String) (functions : List String) (depth : Int) :
    Action ImpactReport := do
  let (_, snapshot) ← openSnapshot p commit
  return Impact.query snapshot functions depth

/-- What changed over a range, and the impact of it in the latest graph. Changes without a named
function need no graph. -/
def fullAnalysis (s : Settings) (p : Place) (range : String) (depth : Int) :
    Action FullAnalysis := do
  let changes ← diff s p range
  let functions := (changes.functions.filter fun f => f.fullName != "").map (·.fullName)
  if functions.isEmpty then return { diff := changes, impact := {} }
  return { diff := changes, impact := ← impact p none functions depth }

/-! ## History -/

/-- The stored graphs of the project of a directory. -/
def history (p : Place) : Action (List CallGraph) := do
  let id ← projectId p
  fromStore fun store => store.list id

/-- Makes the graph that a reference selects the latest. -/
def setLatest (p : Place) (reference : String) : Action CallGraph := do
  let id ← projectId p
  onStore fun store => store.setLatest id reference

/-- Removes the graph that a reference selects. -/
def deleteGraph (p : Place) (reference : String) : Action CallGraph := do
  let id ← projectId p
  onStore fun store => store.delete id reference

/-- Removes the graphs beyond bounds; those that are not given are taken from the settings. -/
def cleanHistory (s : Settings) (p : Place) (maxCount maxAgeDays : Option Nat) :
    Action (List CallGraph) := do
  let id ← projectId p
  cleanGraphs id (maxCount.getD s.storage.retention.maxCount)
    (maxAgeDays.getD s.storage.retention.maxAgeDays)

/-- Enters a project into the registry. -/
def register (p : Project) : Action Project := do
  let now ← Session.now
  onRegistry fun registry tree => registry.upsert tree p now

end Service

end CallImpact
