import CallImpact.Build

/-!
# Settings

What the user can set: where data is kept and for how long, how graphs are built, how working copies
of other commits are prepared, and how long external commands may take.
-/

namespace CallImpact

/-- Bounds on the history of a project; no bound on age when `maxAgeDays` is zero. -/
structure RetentionPolicy where
  maxCount : Nat := 10
  maxAgeDays : Nat := 30
  deriving Repr, BEq, DecidableEq, Inhabited

/-- Where data is kept. -/
structure StorageSettings where
  dataDir : String := "/xdg-data/ripple"
  retention : RetentionPolicy := {}
  deriving Repr, BEq, DecidableEq, Inhabited

/-- How graphs are built. -/
structure AnalysisSettings where
  algorithm : Algorithm := .standard
  allowFallback : Bool := false
  exclude : List String := ["vendor/", "*_test.go"]
  maxSteps : Nat := standardSteps
  deriving Repr, BEq, DecidableEq, Inhabited

/-- How working copies of other commits are prepared. -/
structure WorktreeSettings where
  materializeDeps : Bool := true
  depsCommand : List String := ["go", "mod", "download"]
  tempPrefix : String := "ripple"
  deriving Repr, BEq, DecidableEq, Inhabited

/-- Time limits of external commands in seconds. -/
structure TimeoutSettings where
  revParse : Nat := 5
  revList : Nat := 5
  diff : Nat := 30
  worktreeAdd : Nat := 30
  worktreeRemove : Nat := 15
  deps : Nat := 120
  deriving Repr, BEq, DecidableEq, Inhabited

/-- All settings. -/
structure Settings where
  storage : StorageSettings := {}
  analysis : AnalysisSettings := {}
  worktree : WorktreeSettings := {}
  timeouts : TimeoutSettings := {}
  deriving Repr, BEq, DecidableEq, Inhabited

namespace Settings

/-- Checks that settings can be used. -/
def validate (s : Settings) : Except ConfigError Settings :=
  if s.worktree.materializeDeps && s.worktree.depsCommand.isEmpty then
    .error (.invalid "worktree.deps_command must not be empty when materialize_deps is on")
  else if s.analysis.maxSteps = 0 then
    .error (.invalid "analysis.max_steps must be positive")
  else .ok s

/-- Where the registered projects are kept. -/
def registryPath (s : Settings) : String :=
  appendPath s.storage.dataDir "projects.toml"

/-- Settings in JSON. -/
def toJson (s : Settings) : Json :=
  .obj [
    ("storage", .obj [("data_dir", .str s.storage.dataDir),
      ("max_count", .nat s.storage.retention.maxCount),
      ("max_age_days", .nat s.storage.retention.maxAgeDays)]),
    ("analysis", .obj [("algorithm", s.analysis.algorithm.toJson),
      ("allow_fallback", .bool s.analysis.allowFallback),
      ("exclude", .ofList .str s.analysis.exclude), ("max_steps", .nat s.analysis.maxSteps)]),
    ("worktree", .obj [("materialize_deps", .bool s.worktree.materializeDeps),
      ("deps_command", .ofList .str s.worktree.depsCommand),
      ("temp_prefix", .str s.worktree.tempPrefix)]),
    ("timeouts", .obj [("rev_parse", .nat s.timeouts.revParse),
      ("rev_list", .nat s.timeouts.revList), ("diff", .nat s.timeouts.diff),
      ("worktree_add", .nat s.timeouts.worktreeAdd),
      ("worktree_remove", .nat s.timeouts.worktreeRemove), ("deps", .nat s.timeouts.deps)])]

end Settings

/-- What one request asks for in place of the settings. -/
structure BuildOverrides where
  algorithm : Option Algorithm := none
  entries : List EntryPoint := []
  exclude : Option (List String) := none
  allowFallback : Option Bool := none
  deriving Repr, BEq, DecidableEq, Inhabited

/-- The options of a build: what the request asks for, else what is set. -/
def AnalysisSettings.options (s : AnalysisSettings) (o : BuildOverrides) : BuildOptions :=
  { algorithm := o.algorithm.getD s.algorithm
    entries := o.entries
    exclude := o.exclude.getD s.exclude
    allowFallback := o.allowFallback.getD s.allowFallback
    maxSteps := s.maxSteps }

end CallImpact
