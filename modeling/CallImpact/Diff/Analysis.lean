import CallImpact.Config
import CallImpact.Diff.Change
import CallImpact.Diff.Range
import CallImpact.Vcs

/-!
# Analyzing differences

From a range of commits to the functions that changed over it.
-/

namespace CallImpact.Diff

open Session

/-- The functions that changed over a range. `shown` is how the directory is written in messages. -/
def analyze (limits : TimeoutSettings) (shown : String) (dir : Path) (range : String) :
    Action Changes := do
  match (← get).trees.get? dir with
  | some (.dir entries) =>
    let range ← normalizeRange range
    let text ← liftVcs (Vcs.diff limits dir range)
    return changesOf (.dir entries) (range.getD "working") (parse text)
  | _ => throw (.inputInvalid (shown ++ " is not a directory"))

end CallImpact.Diff
