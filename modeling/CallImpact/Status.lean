import CallImpact.Config
import CallImpact.Vcs

/-!
# Status

How the stored graphs of a project compare with the commit that is checked out, or with another one.
-/

namespace CallImpact

open Session

/-- The commit that a target stands for; the one that is checked out unless another is given. -/
def wantedCommit (limits : TimeoutSettings) (repo : Path) (head : String) (target : Option String) :
    Action String :=
  match target.map Text.trim with
  | none | some "" | some "HEAD" => return head
  | some reference => Vcs.commitOf limits repo reference

/-- The status of a project. Commits that cannot be counted count as none. -/
def checkStatus (limits : TimeoutSettings) (id : String) (repo : Path) (target : Option String) :
    Action Store.Status := do
  let head ← liftVcs (Vcs.head repo)
  let wanted ← wantedCommit limits repo head target
  let entry ← fromStore fun s => s.entryFor? id wanted
  let status := (← get).store.statusOf id head entry
  match entry with
  | some e =>
    if status.upToDate then return status
    match ← attempt (Vcs.count limits repo e.commit head) with
    | .ok n => return { status with commitsBehind := n }
    | .error _ => return status
  | none => return status

end CallImpact
