import CallImpact.History
import CallImpact.Json.Reader

/-!
# Records as documents

The record of a project as a JSON document. Members that are not known are ignored; those that may
be left out have defaults, and of the others none may be missing or of another kind. An object may
also be given as the list of its values.
-/

namespace CallImpact

/-! ## Reading -/

namespace Document

/-- A list of values as an object with the given members, in order; anything else stays as it is. -/
def byPosition (keys : List String) : Json → Json
  | .arr items => if items.length ≤ keys.length then .obj (keys.zip items) else .null
  | j => j

/-- The value of a member that must be there; no member may occur twice. -/
def member (j : Json) (key : String) : Option Json := do
  let members ← j.obj?
  guard (members.countP (fun (k, _) => k == key) ≤ 1)
  members.lookup key

/-- A member that must be there, read with `f`. -/
def required {α : Type} (j : Json) (key : String) (f : Json → Option α) : Option α :=
  (member j key).bind f

/-- A member that may be left out, read with `f` when it is there. -/
def withDefault {α : Type} (j : Json) (key : String) (f : Json → Option α) (default : α) :
    Option α := do
  let members ← j.obj?
  match members.filter (fun (k, _) => k == key) with
  | [] => some default
  | [(_, v)] => f v
  | _ => none

/-- A value that may be `null`. -/
def optional {α : Type} (f : Json → Option α) (j : Json) : Option (Option α) :=
  if j.isNull then some none else (f j).map some

/-- A natural number up to a bound. -/
def natUpTo (bound : Nat) (j : Json) : Option Nat := do
  let n ← j.nat?
  guard (n ≤ bound)
  return n

/-- One of several names: as a text, or as the only member of an object that has nothing to say. -/
def named {α : Type} (isEmpty : Json → Bool) (f : String → Option α) : Json → Option α
  | .str name => f name
  | .obj [(name, value)] => if isEmpty value then f name else none
  | _ => none

end Document

open Document

/-- Reads the bounds on a history. -/
def RetentionPolicy.ofJson? (j : Json) : Option RetentionPolicy := do
  let j := byPosition ["max_count", "max_age_days"] j
  return { maxCount := ← required j "max_count" (natUpTo Text.max64)
           maxAgeDays := ← required j "max_age_days" (natUpTo Text.max32) }

/-- Reads a pointer to the latest commit. -/
def LatestPointer.ofJson? (j : Json) : Option LatestPointer := do
  let j := byPosition ["commit", "data_file"] j
  return { commit := ← required j "commit" Json.str?
           dataFile := ← required j "data_file" Json.str? }

/-- Reads an entry. -/
def HistoryEntry.ofJson? (j : Json) : Option HistoryEntry := do
  let j := byPosition ["commit", "branch", "created_at", "func_count", "edge_count",
    "generation_time_ms", "algorithm", "fallback", "data_file"] j
  return {
    commit := ← required j "commit" Json.str?
    branch := ← withDefault j "branch" (optional Json.str?) none
    created := ← required j "created_at" fun v => v.str?.bind Instant.parse?
    funcCount := ← required j "func_count" (natUpTo Text.max64)
    edgeCount := ← required j "edge_count" (natUpTo Text.max64)
    millis := ← withDefault j "generation_time_ms" (natUpTo Text.max64) 0
    algorithm := ← required j "algorithm" (named Json.isNull Algorithm.ofId?)
    fallback := ← withDefault j "fallback" Json.bool? false
    dataFile := ← required j "data_file" Json.str? }

/-- Reads the record of a project. -/
def ProjectRecord.ofJson? (j : Json) : Option ProjectRecord := do
  let j := byPosition ["project_id", "name", "remote_url", "latest", "retention", "history"] j
  return {
    id := ← required j "project_id" Json.str?
    name := ← required j "name" Json.str?
    remote := ← withDefault j "remote_url" (optional Json.str?) none
    latest := ← withDefault j "latest" (optional LatestPointer.ofJson?) none
    retention := ← withDefault j "retention" RetentionPolicy.ofJson? {}
    history := ← withDefault j "history" (fun v => v.arr?.bind (·.mapM HistoryEntry.ofJson?)) [] }

/-- How deep documents may be nested. -/
def documentDepth : Nat := 127

/-- Reads the record of a project from a text. -/
def ProjectRecord.parse? (text : String) : Option ProjectRecord :=
  (Json.parse? documentDepth text).bind ofJson?

/-! ## Writing -/

/-- The bounds on a history in JSON. -/
def RetentionPolicy.toJson (r : RetentionPolicy) : Json :=
  .obj [("max_count", .nat r.maxCount), ("max_age_days", .nat r.maxAgeDays)]

/-- A pointer to the latest commit in JSON. -/
def LatestPointer.toJson (l : LatestPointer) : Json :=
  .obj [("commit", .str l.commit), ("data_file", .str l.dataFile)]

/-- An entry in JSON. -/
def HistoryEntry.toJson (e : HistoryEntry) : Json :=
  .obj [("commit", .str e.commit), ("branch", .ofStr? e.branch),
    ("created_at", .str e.created.text), ("func_count", .nat e.funcCount),
    ("edge_count", .nat e.edgeCount),
    ("generation_time_ms", .nat e.millis), ("algorithm", e.algorithm.toJson),
    ("fallback", .bool e.fallback), ("data_file", .str e.dataFile)]

/-- The record of a project in JSON. -/
def ProjectRecord.toJson (r : ProjectRecord) : Json :=
  .obj [("project_id", .str r.id), ("name", .str r.name), ("remote_url", .ofStr? r.remote),
    ("latest", .ofOption LatestPointer.toJson r.latest), ("retention", r.retention.toJson),
    ("history", .ofList HistoryEntry.toJson r.history)]

end CallImpact
