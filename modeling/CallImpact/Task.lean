import CallImpact.Service

/-!
# Tasks

A graph may be generated in the background. A task tells how far it is while it runs, and afterwards
what came of it; that the generation fails is an outcome of the task, not a failure of it.
-/

namespace CallImpact

open Session

/-- How far a task is. -/
inductive TaskStatus where
  | pending
  | running
  | completed
  | failed
  deriving Repr, BEq, DecidableEq, Inhabited

/-- The name of a status. -/
def TaskStatus.id : TaskStatus → String
  | .pending => "pending"
  | .running => "running"
  | .completed => "completed"
  | .failed => "failed"

/-- What is known about a task. -/
structure TaskInfo where
  path : String
  commit : Option String
  status : TaskStatus := .pending
  progress : Nat := 0
  message : String := "Queued"
  error : Option Error := none
  result : Option GenerateOutcome := none
  created : Instant
  completed : Option Instant := none
  deriving Repr, BEq, DecidableEq, Inhabited

namespace TaskInfo

/-- Takes note of a report of progress. -/
def note (t : TaskInfo) (p : Progress) : TaskInfo :=
  { t with progress := min p.percent 100, message := p.message }

/-- Takes note of the end of the generation. -/
def finish (t : TaskInfo) (now : Instant) : Except Error GenerateOutcome → TaskInfo
  | .ok outcome =>
    { t with status := .completed, progress := 100, result := some outcome, completed := some now }
  | .error e =>
    { t with status := .failed, message := e.message, error := some e, completed := some now }

/-- The error of a task in JSON. -/
def errorJson (e : Error) : Json :=
  .obj [("code", .str e.code), ("message", .str e.message), ("suggestion", .ofStr? e.suggestion?),
    ("details", .ofStr? e.details?)]

/-- What is known about a task, in JSON. -/
def toJson (t : TaskInfo) : Json :=
  let instant (i : Instant) : Json := .str i.text
  .obj [("project_path", .str t.path), ("commit", .ofStr? t.commit), ("status", .str t.status.id),
    ("progress", .nat t.progress), ("message", .str t.message),
    ("error", .ofOption errorJson t.error),
    ("result", .ofOption GenerateOutcome.toJson t.result), ("created_at", instant t.created),
    ("completed_at", .ofOption instant t.completed)]

end TaskInfo

/-- Runs a task to its end. Only a request for what is no directory makes no task. -/
def Service.runTask (s : Settings) (r : GenerateRequest) : Action TaskInfo := do
  requireDir r.place
  let created ← Session.now
  let before := (← get).progress.length
  let result ← attempt (generate s r)
  let reports := (← get).progress.drop before
  let task : TaskInfo := { path := r.place.shown, commit := r.commit, status := .running, created }
  return (reports.foldl TaskInfo.note task).finish (← Session.now) result

end CallImpact
