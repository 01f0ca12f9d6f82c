import CallImpact.Config
import CallImpact.Module
import CallImpact.Vcs

/-!
# Working copies of other commits

A commit that is not checked out is analyzed in a working copy of its own. It never outlives the
operation that needs it: every way out of `within`, and every failure of `create`, removes it.
-/

namespace CallImpact.Worktree

open Session

/-- A working copy and the commit in it. -/
structure Handle where
  path : Path
  commit : String
  deriving Repr, BEq, DecidableEq, Inhabited

/-- The settings that matter for working copies. -/
structure Config where
  settings : WorktreeSettings
  limits : TimeoutSettings
  deriving Repr, Inhabited

/-- Removes the working copy in a directory. Where the command for it fails, the directory is
deleted and the list of working copies brought up to date. -/
def remove (c : Config) (repo path : Path) : Action Unit := do
  match ← attempt (git repo (.removeWorktree path) c.limits.worktreeRemove) with
  | .ok _ => return ()
  | .error _ =>
    delete path
    let _ ← liftVcs (git repo .pruneWorktrees c.limits.worktreeRemove)

/-- Removes a working copy; that this fails is of no further concern. -/
def discard (c : Config) (repo path : Path) : Session Unit := fun host => do
  let _ ← remove c repo path host

/-- How often checking out a commit is tried. -/
def addAttempts : Nat := 3

/-- Whether a failure may pass when the list of working copies is unlocked. -/
def isLocked : VcsError → Bool
  | .failed _ _ err => Text.contains err "lock"
  | _ => false

/-- Checks out a commit into a directory. -/
def addOnce (c : Config) (repo path : Path) (commit : String) : ExceptT VcsError Session Unit := do
  let _ ← git repo (.addWorktree path commit) c.limits.worktreeAdd

/-- Checks out a commit into a directory, again while the list of working copies is locked, and at
most `more` further times. -/
def add (c : Config) (repo path : Path) (commit : String) :
    (more : Nat) → ExceptT VcsError Session Unit
  | 0 => addOnce c repo path commit
  | more + 1 =>
    tryCatch (addOnce c repo path commit) fun e =>
      if isLocked e then add c repo path commit more else throw e

/-- Fetches the dependencies of the module in a working copy, if there is one. -/
def fetchDeps (c : Config) (path : Path) : ExceptT VcsError Session Unit := do
  let trees := (← get).trees
  match c.settings.depsCommand, (trees.get? path).bind moduleRoot? with
  | program :: args, some (dir, _) =>
    let _ ← run (path ++ dir) ⟨program, args⟩ c.limits.deps
  | _, _ => return ()

/-- Prepares a directory: the commit, then its dependencies where that is set. -/
def prepare (c : Config) (repo path : Path) (commit : String) : ExceptT VcsError Session Unit := do
  add c repo path commit (addAttempts - 1)
  if c.settings.materializeDeps then fetchDeps c path

/-- The name of the directory for a working copy. -/
def dirName? (c : Config) (commit suffix : String) : Option String :=
  (Store.firstBytes? 8 commit.toList).map fun short =>
    c.settings.tempPrefix ++ "-worktree-" ++ String.ofList short ++ "-" ++ suffix

/-- Checks out the commit that a reference stands for into a new directory. -/
def create (c : Config) (repo : Path) (reference : String) : Action Handle := do
  let commit ← Vcs.commitOf c.limits repo reference
  match dirName? c commit (← freshSuffix) with
  | none => throw .aborted
  | some name =>
    let path := (← read).tempDir ++ [name]
    match ← attempt (prepare c repo path commit) with
    | .ok () => return { path, commit }
    | .error e =>
      discard c repo path
      throw (.vcs e)

/-- Runs an operation in a working copy of the commit that a reference stands for, and removes the
working copy whatever comes of it. -/
def within {α : Type} (c : Config) (repo : Path) (reference : String) (f : Handle → Action α) :
    Action α := do
  let handle ← create c repo reference
  let result ← attempt (f handle)
  discard c repo handle.path
  ofExcept result

/-- Deletes a working copy whose operation was abandoned, and brings the list of working copies up
to date without a time limit. -/
def abandon (repo path : Path) : Session Unit := fun host => do
  delete path host
  let _ ← git repo .pruneWorktrees 3600 host

/-- Whether a reference stands for the commit that is checked out. -/
def isHead (c : Config) (repo : Path) (reference : String) : Action Bool := do
  let reference := Text.trim reference
  if reference = "" || reference = "HEAD" then return true
  let head ← Vcs.commitOf c.limits repo "HEAD"
  let target ← Vcs.commitOf c.limits repo reference
  return head == target

end CallImpact.Worktree
