import CallImpact.Session

/-!
# Version control

What the program asks of version control: resolving references, differences, counting commits, and
what the repository says about itself.
-/

namespace CallImpact.Vcs

open Session

/-! ## Commands -/

/-- The full commit that a reference stands for. -/
def resolve (limits : TimeoutSettings) (dir : Path) (reference : String) :
    ExceptT VcsError Session String := do
  return Text.trim (← git dir (.resolve reference) limits.revParse)

/-- The text of the differences over a range, or of those of the working tree. -/
def diff (limits : TimeoutSettings) (dir : Path) (range : Option String) :
    ExceptT VcsError Session String :=
  git dir (.diff range) limits.diff

/-- The number of commits between two. -/
def count (limits : TimeoutSettings) (dir : Path) (older newer : String) :
    ExceptT VcsError Session Nat := do
  let out := Text.trim (← git dir (.count older newer) limits.revList)
  match Text.readNat? Text.max32 out with
  | some n => return n
  | none =>
    throw (.failed ("git rev-list --count " ++ older ++ ".." ++ newer) "0"
      ("unexpected output: " ++ out))

/-- A reference that cannot be resolved is not found; other errors stay. -/
def resolveError (reference : String) : VcsError → Error
  | .failed _ _ _ => .notFound ("cannot resolve '" ++ reference ++ "' to a commit")
  | other => .vcs other

/-- The full commit that a reference stands for, which has to exist. -/
def commitOf (limits : TimeoutSettings) (dir : Path) (reference : String) : Action String :=
  ExceptT.adapt (resolveError reference) (resolve limits dir reference)

/-! ## Inspection -/

/-- Whether a path is at or below another. -/
def isBelow (base path : Path) : Bool :=
  base.isPrefixOf path

/-- The repository that a directory belongs to. -/
def repositoryAt (host : Host) (world : World) (dir : Path) : Option Repository :=
  if world.trees.hasDir dir && isBelow host.repositoryDir dir then host.repository else none

/-- The repository that a directory belongs to. -/
def repository? (dir : Path) : Session (Option Repository) := fun host => do
  return repositoryAt host (← get) dir

/-- The commit that is checked out. -/
def head (dir : Path) : ExceptT VcsError Session String := do
  match ← repository? dir with
  | some { head := some commit, .. } => return commit
  | _ => throw (.repository "no commit is checked out")

/-- The branch that is checked out. -/
def branch? (dir : Path) : Session (Option String) := do
  return (← repository? dir).bind (·.branch)

/-- The address of the remote repository. -/
def remote? (dir : Path) : Session (Option String) := do
  return (← repository? dir).bind (·.remote)

/-- The top of the repository that a directory belongs to. -/
def workDir? (dir : Path) : Session (Option Path) := do
  let top := (← read).repositoryDir
  return (← repository? dir).map fun _ => top

/-- The identity of the project in a directory: from its remote repository, else from its path.
`shown` is how the directory is written in messages. -/
def identify (shown : String) (dir : Path) : Action ProjectIdentity := do
  match ← remote? dir with
  | some url => return ProjectIdentity.ofRemote url
  | none =>
    if (← get).trees.has dir then return ProjectIdentity.ofDirectory (joinPath (← read).root dir)
    else throw (.inputInvalid (shown ++ ": " ++ FileError.notFound.message))

end CallImpact.Vcs
