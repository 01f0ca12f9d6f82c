import CallImpact.Config
import CallImpact.History.Document
import CallImpact.Toml

/-!
# Settings as documents

Settings as they are read from a file. A section that is left out has its defaults; one that is
given must be complete.
-/

namespace CallImpact

open Document

/-- A list of texts. -/
def Document.texts (j : Json) : Option (List String) := do
  (← j.arr?).mapM Json.str?

/-- Whether a value is an empty table or list. -/
def Document.isEmptyTable : Json → Bool
  | .obj [] | .arr [] => true
  | _ => false

/-- An algorithm by its identifier. -/
def Document.algorithm (j : Json) : Option Algorithm :=
  named isEmptyTable Algorithm.ofId? j

/-- Reads where data is kept. -/
def StorageSettings.ofJson? (j : Json) : Option StorageSettings := do
  let j := byPosition ["data_dir", "max_count", "max_age_days"] j
  return { dataDir := ← required j "data_dir" Json.str?
           retention := { maxCount := ← required j "max_count" (natUpTo Text.max64)
                          maxAgeDays := ← required j "max_age_days" (natUpTo Text.max32) } }

/-- Reads how graphs are built. -/
def AnalysisSettings.ofJson? (j : Json) : Option AnalysisSettings := do
  let j := byPosition ["algorithm", "allow_fallback", "exclude", "max_steps"] j
  return { algorithm := ← required j "algorithm" Document.algorithm
           allowFallback := ← required j "allow_fallback" Json.bool?
           exclude := ← required j "exclude" texts
           maxSteps := ← required j "max_steps" (natUpTo Text.max64) }

/-- Reads how working copies are prepared. -/
def WorktreeSettings.ofJson? (j : Json) : Option WorktreeSettings := do
  let j := byPosition ["materialize_deps", "deps_command", "temp_prefix"] j
  return { materializeDeps := ← required j "materialize_deps" Json.bool?
           depsCommand := ← required j "deps_command" texts
           tempPrefix := ← required j "temp_prefix" Json.str? }

/-- Reads the time limits of external commands. -/
def TimeoutSettings.ofJson? (j : Json) : Option TimeoutSettings := do
  let j := byPosition ["rev_parse", "rev_list", "diff", "worktree_add", "worktree_remove", "deps"] j
  let seconds (key : String) := required j key (natUpTo Text.max64)
  return { revParse := ← seconds "rev_parse"
           revList := ← seconds "rev_list"
           diff := ← seconds "diff"
           worktreeAdd := ← seconds "worktree_add"
           worktreeRemove := ← seconds "worktree_remove"
           deps := ← seconds "deps" }

namespace Settings

/-- Reads settings. -/
def ofJson? (j : Json) : Option Settings := do
  return { storage := ← withDefault j "storage" StorageSettings.ofJson? {}
           analysis := ← withDefault j "analysis" AnalysisSettings.ofJson? {}
           worktree := ← withDefault j "worktree" WorktreeSettings.ofJson? {}
           timeouts := ← withDefault j "timeouts" TimeoutSettings.ofJson? {} }

/-- Reads and checks the settings in the text of a file. -/
def parse (text : String) : Except ConfigError Settings :=
  match (Toml.parse? text).bind ofJson? with
  | some s => s.validate
  | none => .error (.parse "malformed settings")

/-- Settings as the text of a file: a table for each section. -/
def document (s : Settings) : String :=
  String.join ((s.toJson.obj?.getD []).map fun (name, table) =>
    "[" ++ name ++ "]\n" ++ String.join ((table.obj?.getD []).map fun (key, value) =>
      key ++ " = " ++ value.render ++ "\n"))

/-- Reads and checks the settings in a file; `path` is how it is written in messages. -/
def load (path : String) : Option Content → Except ConfigError Settings
  | none => .error (.notFound path)
  | some .binary => .error (.io FileError.notText.message)
  | some (.text text) => parse text

end Settings

end CallImpact
