import CallImpact.Scenario.Files
import CallImpact.Session

/-!
# Described commands

What comes of external commands, as a table describes it. References, ranges and commits that the
table does not name give the errors of the version control program; a command that may take no
time runs out of it.
-/

namespace CallImpact.Scenario

/-- The answers of the version control program by what it is asked for. -/
structure Replies where
  references : List (String × Ended) := []
  diffs : List (String × Ended) := []
  counts : List (String × Ended) := []
  /-- The files of commits. -/
  commits : List (String × Json) := []
  /-- How many attempts to check out a commit fail first, and with what message. -/
  failingAdds : Nat := 0
  addError : String := "fatal: could not lock config file"
  removeFails : Bool := false
  pruneFails : Bool := false
  /-- The ends of other programs. -/
  programs : List (String × Ended) := []
  deriving Inhabited

/-- A described end of a command: what it writes, or what it writes, its message and its status. -/
def endedOf : Json → Ended
  | .str out => .exited 0 out ""
  | j => .exited ((j.field "status").nat?.getD 0) ((j.field "out").str?.getD "")
    ((j.field "err").str?.getD "")

/-- A table of described ends. -/
def endsOf (j : Json) : List (String × Ended) :=
  (j.obj?.getD []).map fun (name, value) => (name, endedOf value)

/-- Reads a table of answers. -/
def repliesOf (j : Json) : Replies :=
  { references := endsOf (j.field "refs")
    diffs := endsOf (j.field "diffs")
    counts := endsOf (j.field "counts")
    commits := (j.field "worktrees").obj?.getD []
    failingAdds := (j.field "worktree_add_fails").nat?.getD 0
    addError := (j.field "worktree_add_err").str?.getD ({} : Replies).addError
    removeFails := (j.field "worktree_remove").str? == some "fail"
    pruneFails := (j.field "worktree_prune").str? == some "fail"
    programs := endsOf (j.field "programs") }

/-- The end of a command that fails with a message. -/
def fails (message : String) : Reply :=
  { ended := .exited 128 "" message }

/-- Whether an invocation checks out a commit. -/
def isAdd (i : Invocation) : Bool :=
  i.program == "git" && ["worktree", "add"].isPrefixOf i.args

/-- What comes of checking out a commit. -/
def addReply (r : Replies) (before : List Invocation) (commit : String) : Reply :=
  if before.countP isAdd < r.failingAdds then fails r.addError
  else match r.commits.lookup commit with
    | some files =>
      { ended := .exited 0 "" ""
        left := some ((putFiles [] files (.dir [])).write [".git"] (.text "")) }
    | none => fails ("fatal: invalid reference: " ++ commit)

/-- What comes of a version control command. -/
def gitReply (r : Replies) (before : List Invocation) (args : List String) : Reply :=
  let found (table : List (String × Ended)) (key missing : String) : Reply :=
    ((table.lookup key).map fun ended => { ended }).getD (fails missing)
  match args with
  | ["rev-parse", "--verify", spec] =>
    found r.references ((Text.before? "^\x7bcommit\x7d" spec).getD spec)
      "fatal: Needed a single revision"
  | ["diff", "--unified=0", "--no-color", "--no-ext-diff", "--relative", range, "--"] =>
    found r.diffs range ("fatal: bad revision '" ++ range ++ "'")
  | ["rev-list", "--count", range] => found r.counts range ("fatal: bad revision '" ++ range ++ "'")
  | ["worktree", "add", "--detach", _, commit] => addReply r before commit
  | ["worktree", "remove", "--force", _] =>
    if r.removeFails then fails "fatal: not a working tree" else { ended := .exited 0 "" "" }
  | ["worktree", "prune"] =>
    { ended := if r.pruneFails then .exited 1 "" "fatal: prune failed" else .exited 0 "" "" }
  | _ => { ended := .exited 1 "" "" }

/-- What comes of a command within a time limit. A program that is not described cannot be
started. -/
def Replies.reply (r : Replies) (_turn : Nat) (before : List Invocation) (i : Invocation)
    (limit : Nat) : Reply :=
  let known : Option Reply :=
    if i.program = "git" then some (gitReply r before i.args)
    else (r.programs.lookup i.program).map fun ended => { ended }
  match known with
  | some reply => if limit = 0 then { ended := .timedOut } else reply
  | none => { ended := .notStarted FileError.notFound.message }

end CallImpact.Scenario
