import CallImpact.Registry
import CallImpact.Vcs.Command

/-!
# Sessions

Operations run against a world that they change: the working trees, the store, what has been
reported, and what was done outside. What they cannot change is their host: the answers of external
commands, what the repository says about itself, and the clock. An operation is a function of both,
so that everything it does is part of its result, also when it fails.
-/

namespace CallImpact

/-- What a repository says about itself. -/
structure Repository where
  /-- The commit that is checked out; none before the first commit. -/
  head : Option String
  /-- The branch that is checked out; none when a commit is checked out directly. -/
  branch : Option String
  remote : Option String
  deriving Repr, BEq, DecidableEq, Inhabited

/-- What operations do outside the program: commands that they start, with the directory and with
how they end, and paths at which they delete whatever is there. -/
inductive Event where
  | git (dir : Path) (command : GitCommand) (ended : Ended)
  | ran (dir : Path) (i : Invocation) (ended : Ended)
  | deleted (path : Path)
  deriving Repr, BEq, DecidableEq, Inhabited

/-- What operations find and cannot change. -/
structure Host where
  /-- How the root of the working trees is written. -/
  root : String := ""
  /-- The directory in which the program runs. -/
  workingDir : Path := ["repo"]
  /-- The top of the repository. -/
  repositoryDir : Path := ["repo"]
  /-- Where working copies of other commits go. -/
  tempDir : Path := ["tmp"]
  repository : Option Repository := none
  /-- What comes of a command within a time limit in seconds, after a number of events and after the
  commands that have run before. -/
  reply : (turn : Nat) → (before : List Invocation) → Invocation → (limit : Nat) → Reply
  /-- The instant of each reading of the clock. -/
  clock : Nat → Instant
  /-- What tells the names of directories for working copies apart. -/
  suffix : Nat → String

/-- What operations change. -/
structure World where
  trees : FileTree Content := .dir []
  store : Store
  registry : Registry := {}
  /-- What was done outside, in order. -/
  events : List Event := []
  /-- The commands that have run to their end, in order. -/
  ran : List Invocation := []
  progress : List Progress := []
  readings : Nat := 0
  suffixes : Nat := 0
  deriving Inhabited

/-- A computation that finds a host and changes a world. -/
abbrev Session := ReaderT Host (StateM World)

/-- An operation that may fail. -/
abbrev Action := ExceptT Error Session

namespace Session

/-- The components of a path that need not be normal. -/
def components (path : String) : Path :=
  (Text.pieces '/' path).filter fun c => c != "" && c != "."

/-- The components of a path, from the root on. One that exists is made normal; any other stays as
it is written. -/
def canonical (host : Host) (world : World) (path : String) : Path :=
  match Text.after? host.root path with
  | some rest =>
    if rest = "" || Text.startsWith rest "/" then
      let normal := pathOf rest
      ["/", host.root] ++ if world.trees.has normal then normal else components rest
    else "/" :: components path
  | none => if Text.startsWith path "/" then "/" :: components path else components path

/-- Reads the clock. -/
def now : Session Instant := do
  let host ← read
  let world ← get
  set { world with readings := world.readings + 1 }
  return host.clock world.readings

/-- A new suffix for the name of a directory. -/
def freshSuffix : Session String := do
  let host ← read
  let world ← get
  set { world with suffixes := world.suffixes + 1 }
  return host.suffix world.suffixes

/-- Reports progress. -/
def report (percent : Nat) (message : String) : Session Unit :=
  modify fun w => { w with progress := w.progress ++ [⟨percent, message⟩] }

/-- The result of a command, given how it ended. -/
def outcome (i : Invocation) (limit : Nat) : Ended → Except VcsError String
  | .exited 0 out _ => .ok out
  | .exited status _ err =>
    .error (.failed i.text ("exit status: " ++ toString status) (Text.trim err))
  | .timedOut => .error (.timeout i.text limit)
  | .notStarted reason => .error (.spawn i.text reason)

/-- What comes of a command line in a directory. It is not started where there is no directory. -/
def replyIn (host : Host) (world : World) (dir : Path) (i : Invocation) (limit : Nat) : Reply :=
  match world.trees.get? dir with
  | some (.dir _) => host.reply world.events.length world.ran i limit
  | some (.file _) => { ended := .notStarted FileError.notDirectory.message }
  | none => { ended := .notStarted FileError.notFound.message }

/-- The commands that have run, when one more has ended. -/
def ranWith (before : List Invocation) (i : Invocation) : Ended → List Invocation
  | .exited _ _ _ => before ++ [i]
  | .timedOut | .notStarted _ => before

/-- Runs a command in a directory and gives what it writes. -/
def run (dir : Path) (i : Invocation) (limit : Nat) : ExceptT VcsError Session String :=
    fun host => do
  let world ← get
  let reply := replyIn host world dir i limit
  set { world with
    ran := ranWith world.ran i reply.ended
    events := world.events ++ [Event.ran dir i reply.ended] }
  return outcome i limit reply.ended

/-- Runs a command for version control in a directory and gives what it writes. -/
def git (dir : Path) (c : GitCommand) (limit : Nat) : ExceptT VcsError Session String :=
    fun host => do
  let world ← get
  let i := c.invocation host.root
  let reply := replyIn host world dir i limit
  set { world with
    ran := ranWith world.ran i reply.ended
    trees := c.effect reply world.trees
    events := world.events ++ [Event.git dir c reply.ended] }
  return outcome i limit reply.ended

/-- Deletes whatever is at a path. -/
def delete (path : Path) : Session Unit :=
  modify fun w => { w with
    trees := FileTree.remove path w.trees
    events := w.events ++ [Event.deleted path] }

/-- An operation of version control as one that may fail. -/
def liftVcs {α : Type} (m : ExceptT VcsError Session α) : Action α :=
  ExceptT.adapt Error.vcs m

/-- Runs a computation and gives its result, whether it fails or not. -/
def attempt {ε α : Type} (m : ExceptT ε Session α) : Action (Except ε α) := fun host => do
  return .ok (← m host)

/-- An operation of the store. -/
def onStore {α : Type} (f : Store → Store × Except Error α) : Action α := fun _ => do
  let world ← get
  let (store, result) := f world.store
  set { world with store }
  return result

/-- An operation of the store that tells its progress. -/
def onStoreReporting {α : Type} (f : Store → Store × List Progress × Except Error α) : Action α :=
  fun _ => do
    let world ← get
    let (store, progress, result) := f world.store
    set { world with store, progress := world.progress ++ progress }
    return result

/-- An operation of the registry, which is kept in the data directory. -/
def onRegistry {α : Type}
    (f : Registry → FileTree Stored → Registry × FileTree Stored × Except Error α) : Action α :=
  fun _ => do
    let world ← get
    let (registry, tree, result) := f world.registry world.store.tree
    set { world with registry, store := { world.store with tree } }
    return result

/-- A query of the store. -/
def fromStore {α : Type} (f : Store → Except Error α) : Action α := fun _ => do
  return f (← get).store

end Session

end CallImpact
