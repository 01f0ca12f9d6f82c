import CallImpact.Store

/-!
# The registry of projects

The registered projects in memory, and the file that every change is written to. A change is made in
memory first.
-/

namespace CallImpact

/-- The registered projects, in the order in which they were first entered. -/
structure Registry where
  projects : List Project := []
  deriving Repr, BEq, DecidableEq, Inhabited

namespace Registry

/-- Where the registry is kept in the data directory. -/
def file : Path := ["projects.toml"]

/-- The name under which the registry is written first. -/
def temporaryFile : Path := ["projects.toml.tmp"]

/-- Reads the registry; `shown` is how its path is written in messages. -/
def load (shown : String) (tree : FileTree Stored) : Except Error Registry :=
  match tree.get? file with
  | none => .ok {}
  | some (.file (.projects projects)) => .ok { projects }
  | some (.file (.text text)) =>
    match Project.parseAll? text with
    | some projects => .ok { projects }
    | none => .error (.config (.parse (shown ++ ": malformed registry")))
  | some (.dir _) => .error (.config (.io FileError.isDirectory.message))
  | some (.file _) => .error (.config (.io FileError.notText.message))

/-- What is written of the registered projects. There is no way to write a path that is no text. -/
def document (r : Registry) : Except ConfigError Stored :=
  if r.projects.all fun p => p.localPaths.all (·.text?.isSome) then .ok (.projects r.projects)
  else .error (.invalid "path contains invalid UTF-8 characters")

/-- A failed operation on files as an error of the registry. -/
def fileError (e : FileError) : ConfigError :=
  .io e.message

/-- Makes the data directory, writes the registry under a temporary name and moves it to its place.
What was written first stays when it cannot be moved. -/
def write (r : Registry) (tree : FileTree Stored) : FileTree Stored × Except ConfigError Unit :=
  match tree.makeDirs file.dropLast with
  | .error e => (tree, .error (fileError e))
  | .ok made =>
    match r.document with
    | .error e => (made, .error e)
    | .ok document =>
      match made.writeFile temporaryFile document with
      | .error e => (made, .error (fileError e))
      | .ok full =>
        match full.rename temporaryFile file with
        | .error e => (full, .error (fileError e))
        | .ok moved => (moved, .ok ())

/-- A changed registry, the data directory after it was written there, and a result; an error when
it could not be written. -/
def written {α : Type} (r : Registry) (tree : FileTree Stored) (a : α) :
    Registry × FileTree Stored × Except Error α :=
  match r.write tree with
  | (tree, .ok ()) => (r, tree, .ok a)
  | (tree, .error e) => (r, tree, .error (.config e))

/-- Puts a project in place of the first one with the same identifier, or at the end. -/
def put (p : Project) : List Project → List Project
  | [] => [p]
  | q :: rest => if q.id = p.id then p :: rest else q :: put p rest

/-- The project with an identifier. -/
def find? (r : Registry) (id : String) : Option Project :=
  r.projects.find? fun p => p.id == id

/-- Enters a project, or changes the one with the same identifier, which keeps the time of its
creation. -/
def upsert (r : Registry) (tree : FileTree Stored) (p : Project) (now : Instant) :
    Registry × FileTree Stored × Except Error Project :=
  let p := { p with updated := now, created := ((r.find? p.id).map (·.created)).getD p.created }
  written { projects := put p r.projects } tree p

/-- Removes the projects with an identifier, and tells whether there were any. -/
def remove (r : Registry) (tree : FileTree Stored) (id : String) :
    Registry × FileTree Stored × Except Error Bool :=
  let kept : Registry := { projects := r.projects.filter fun p => p.id != id }
  if kept.projects.length = r.projects.length then (kept, tree, .ok false)
  else written kept tree true

/-- The first project whose remote repository has the same address, however it is written. -/
def findByRemote? (r : Registry) (url : String) : Option Project :=
  r.projects.find? fun p => p.remote.any fun u => normalizeRemote u == normalizeRemote url

/-- How many components the longest local path of a project has that a path lies at or below. No
path that is text lies below one that is not. -/
def depth? (canonical : String → Path) (path : Path) (p : Project) : Option Nat :=
  let paths := (p.localPaths.filterMap (·.text?)).map canonical
  ((paths.filter fun l => l.isPrefixOf path).map (·.length)).max?

/-- The project with the longest local path that a path lies at or below; of several the last. -/
def findByPath? (r : Registry) (canonical : String → Path) (path : Path) : Option Project :=
  (r.projects.foldl (fun best p =>
    match depth? canonical path p, best with
    | some d, some (most, q) => if most ≤ d then some (d, p) else some (most, q)
    | some d, none => some (d, p)
    | none, best => best) none).map (·.2)

end Registry

end CallImpact
