import CallImpact.Config.Document
import CallImpact.Scenario.Replies

/-!
# Scenarios

A host and a world as a JSON document describes them: the files of the repository, what it says
about itself, the answers of external commands, and settings.
-/

namespace CallImpact.Scenario

/-- What a described repository says about itself. -/
def repositoryOf (j : Json) : Option Repository :=
  if j.isNull then none
  else some { head := (j.field "head").str?, branch := (j.field "branch").str?,
              remote := (j.field "remote").str? }

/-- The instant of the first reading of the clock. -/
def firstReading : Instant :=
  ⟨Instant.daysOfDate 2026 3 1 * Instant.secondsPerDay, 0⟩

/-- The host that a document describes. The clock goes on by a second with every reading. -/
def hostOf (root : String) (suffix : Nat → String) (j : Json) : Host :=
  { root
    repository := repositoryOf (j.field "repo")
    reply := (repliesOf (j.field "git")).reply
    clock := fun n => { firstReading with seconds := firstReading.seconds + n }
    suffix }

/-- The texts of a list. -/
def textsOf (j : Json) : Option (List String) :=
  j.arr?.map (·.filterMap Json.str?)

/-- The limits of external commands that a document describes. -/
def timeoutsOf (j : Json) : TimeoutSettings :=
  let d : TimeoutSettings := {}
  { revParse := (j.field "rev_parse").nat?.getD d.revParse
    revList := (j.field "rev_list").nat?.getD d.revList
    diff := (j.field "diff").nat?.getD d.diff
    worktreeAdd := (j.field "worktree_add").nat?.getD d.worktreeAdd
    worktreeRemove := (j.field "worktree_remove").nat?.getD d.worktreeRemove
    deps := (j.field "deps").nat?.getD d.deps }

/-- The settings that a document describes, with the data in the given directory. -/
def settingsOf (dataDir : String) (j : Json) : Settings :=
  let r : RetentionPolicy := {}
  let a : AnalysisSettings := {}
  let w : WorktreeSettings := {}
  { storage :=
      { dataDir
        retention := { maxCount := (j.field "max_count").nat?.getD r.maxCount
                       maxAgeDays := (j.field "max_age_days").nat?.getD r.maxAgeDays } }
    analysis :=
      { algorithm := ((j.field "algorithm").str?.bind fun s => (Algorithm.parse s).toOption).getD
          a.algorithm
        allowFallback := (j.field "allow_fallback").bool?.getD a.allowFallback
        exclude := (textsOf (j.field "exclude")).getD a.exclude
        maxSteps := (j.field "max_steps").nat?.getD a.maxSteps }
    worktree :=
      { materializeDeps := (j.field "materialize_deps").bool?.getD false
        depsCommand := (textsOf (j.field "deps_command")).getD w.depsCommand
        tempPrefix := (j.field "temp_prefix").str?.getD w.tempPrefix }
    timeouts := timeoutsOf (j.field "timeouts") }

/-- The world that a document describes: the files of the repository, and an empty data directory.
-/
def worldOf (settings : Settings) (j : Json) : World :=
  { trees := (putFiles ["repo"] (j.field "files") (.dir [])).makeDir ["tmp"]
    store := { dataDir := settings.storage.dataDir, retention := settings.storage.retention } }

/-- Where the file with the settings is. -/
def configPath : Path := ["config.toml"]

/-- The world that a document describes, with a file that holds the settings: as the document
gives its text, else as it describes them. -/
def configuredWorldOf (settings : Settings) (j : Json) : World :=
  let world := worldOf settings j
  let text := (j.field "config_toml").str?.getD settings.document
  { world with trees := world.trees.write configPath (.text text) }

end CallImpact.Scenario
