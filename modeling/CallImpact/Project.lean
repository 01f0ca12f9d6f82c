import CallImpact.Config.Document

/-!
# Registered projects

What the user has told about a project: where it is checked out, where its repository comes from,
and how its graphs are to be built.
-/

namespace CallImpact

/-- A path on the host: text, or bytes that are no text. -/
inductive LocalPath where
  | text (s : String)
  | binary
  deriving Repr, BEq, DecidableEq, Inhabited

/-- What a path reads as, if it is text. -/
def LocalPath.text? : LocalPath → Option String
  | .text s => some s
  | .binary => none

/-- Texts are paths. -/
instance : Coe (List String) (List LocalPath) where
  coe texts := texts.map .text

/-- A registered project. -/
structure Project where
  id : String
  name : String
  remote : Option String := none
  localPaths : List LocalPath := []
  /-- Entry points as they are written. -/
  entries : List String := []
  exclude : List String := ({} : AnalysisSettings).exclude
  algorithm : Algorithm := .standard
  created : Instant
  updated : Instant
  deriving Repr, BEq, DecidableEq, Inhabited

namespace Project

/-- The entry points of a project; those that cannot be read are left out. -/
def entryPoints (p : Project) : List EntryPoint :=
  entryPointsOf p.entries

/-- A project as the store knows it. -/
def identity (p : Project) : ProjectIdentity :=
  { id := p.id, name := p.name, remote := p.remote }

open Document

/-- Reads a project. -/
def ofJson? (j : Json) : Option Project := do
  let instant (v : Json) := v.str?.bind Instant.parse?
  let j := byPosition ["id", "name", "remote_url", "local_paths", "entry_points", "exclude",
    "algorithm", "created_at", "updated_at"] j
  return { id := ← required j "id" Json.str?
           name := ← required j "name" Json.str?
           remote := ← withDefault j "remote_url" (fun v => v.str?.map some) none
           localPaths := (← withDefault j "local_paths" texts []).map .text
           entries := ← withDefault j "entry_points" texts []
           exclude := ← withDefault j "exclude" texts ({} : AnalysisSettings).exclude
           algorithm := ← withDefault j "algorithm" Document.algorithm .standard
           created := ← required j "created_at" instant
           updated := ← required j "updated_at" instant }

/-- A project in JSON, which has no form for a path that is no text. -/
def toJson (p : Project) : Json :=
  .obj [("id", .str p.id), ("name", .str p.name), ("remote_url", .ofStr? p.remote),
    ("local_paths", .ofList (fun path => .ofStr? path.text?) p.localPaths),
    ("entry_points", .ofList .str p.entries),
    ("exclude", .ofList .str p.exclude), ("algorithm", p.algorithm.toJson),
    ("created_at", .str p.created.text), ("updated_at", .str p.updated.text)]

/-- Reads the projects in the text of a registry. -/
def parseAll? (text : String) : Option (List Project) := do
  let j ← Toml.parse? text
  withDefault j "projects" (fun v => v.arr?.bind (·.mapM ofJson?)) []

end Project

end CallImpact
