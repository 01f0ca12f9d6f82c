import CallImpact.FileTree

/-!
# External commands

The commands that the program runs, and what can come of running one. The commands for version
control are named by what they ask for, so that their effect on the file system is known: one
checks out a commit into a directory, one removes such a directory, and the others change no
files.
-/

namespace CallImpact

/-- A program with its arguments. -/
structure Invocation where
  program : String
  args : List String
  deriving Repr, BEq, DecidableEq, Inhabited

/-- How a command line is written in messages. -/
def Invocation.text (i : Invocation) : String :=
  " ".intercalate (i.program :: i.args)

/-- How a command ends. -/
inductive Ended where
  | exited (status : Nat) (out err : String)
  | timedOut
  | notStarted (reason : String)
  deriving Repr, BEq, DecidableEq, Inhabited

/-- What comes of a command: how it ends, and what it leaves in the directory that it was to fill,
which a command may do even when it fails. -/
structure Reply where
  ended : Ended
  left : Option (FileTree Content) := none
  deriving Inhabited

/-- The commands for version control. -/
inductive GitCommand where
  /-- The commit that a reference stands for. -/
  | resolve (reference : String)
  /-- The differences over a range, or those of the working tree. -/
  | diff (range : Option String)
  /-- The number of commits between two. -/
  | count (older newer : String)
  | addWorktree (path : Path) (commit : String)
  | removeWorktree (path : Path)
  | pruneWorktrees
  deriving Repr, BEq, DecidableEq, Inhabited

namespace GitCommand

/-- The arguments of a command; `root` is how the root of the file system is written. -/
def args (root : String) : GitCommand → List String
  | .resolve reference => ["rev-parse", "--verify", reference ++ "^\x7bcommit\x7d"]
  | .diff range =>
    ["diff", "--unified=0", "--no-color", "--no-ext-diff", "--relative", range.getD "HEAD", "--"]
  | .count older newer => ["rev-list", "--count", older ++ ".." ++ newer]
  | .addWorktree path commit => ["worktree", "add", "--detach", joinPath root path, commit]
  | .removeWorktree path => ["worktree", "remove", "--force", joinPath root path]
  | .pruneWorktrees => ["worktree", "prune"]

/-- The command line of a command. -/
def invocation (root : String) (c : GitCommand) : Invocation :=
  ⟨"git", c.args root⟩

/-- What a command does to the file system, given what came of it. -/
def effect (c : GitCommand) (reply : Reply) (trees : FileTree Content) : FileTree Content :=
  match c with
  | .addWorktree path _ =>
    match reply.left with
    | some tree => (FileTree.put? tree path trees).getD trees
    | none => trees
  | .removeWorktree path =>
    match reply.ended with
    | .exited 0 _ _ => FileTree.remove path trees
    | _ => trees
  | _ => trees

end GitCommand

end CallImpact
