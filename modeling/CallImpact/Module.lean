import CallImpact.Error
import CallImpact.Facts.Extract
import CallImpact.FileTree
import CallImpact.Go.Source
import CallImpact.Program
import CallImpact.Text.Glob

/-!
# Modules

Finding the Go module in a directory tree, its source files and its program. A module's sources are
the analyzable files below its root, without skipped directories, nested modules and what the user
excludes; files that are no text are left out.
-/

namespace CallImpact

/-! ## Module files and names -/

/-- The name of the file that makes a directory the root of a module. -/
def moduleFile : String :=
  "go.mod"

/-- The module path that one line of a module file gives. -/
def moduleLine? (line : String) : Option String := do
  let rest ← Text.after? "module" (Text.trim line)
  guard (rest.toList.head?.any Text.isBlank)
  let path := Text.trimChars (· = '"') (Text.trim (((Text.cut? "//" rest).map (·.1)).getD rest))
  if path = "" then none else some path

/-- The module path that a module file gives. -/
def modulePath? (text : String) : Option String :=
  (Text.lines text).findSome? moduleLine?

/-- The import path of the package in a directory below the root of a module. -/
def packagePath (modulePath dir : String) : String :=
  let dir := Text.trimChars (· = '/') dir
  if dir = "" || dir = "." then modulePath else modulePath ++ "/" ++ dir

/-- Backslashes as slashes. -/
def withSlashes (s : String) : String :=
  String.ofList (s.toList.map fun c => if c = '\\' then '/' else c)

/-- Whether a file is a hand-written Go source that is neither a test nor vendored. -/
def isAnalyzable (path : String) : Bool :=
  let path := withSlashes path
  Text.endsWith path ".go" && !Text.endsWith path "_test.go" && !Text.endsWith path ".pb.go" &&
    !Text.endsWith path "_gen.go" &&
    !(Text.startsWith path "vendor/" || Text.contains path "/vendor/")

/-! ## Exclusions -/

/-- What the user excludes: directories anywhere in the tree, and patterns for paths and names. -/
structure Exclusions where
  dirs : List String := []
  globs : List (List Glob.Part) := []
  deriving Repr, Inhabited

namespace Exclusions

/-- Adds a pattern as it is written: one that ends in a slash names a directory, an empty one and
one that does not compile have no effect. -/
def add (e : Exclusions) (pattern : String) : Exclusions :=
  let pattern := Text.trim pattern
  if pattern = "" then e
  else match Text.before? "/" pattern with
    | some dir => { e with dirs := e.dirs ++ [Text.trimChars (· = '/') dir] }
    | none =>
      match Glob.compile? pattern with
      | some parts => { e with globs := e.globs ++ [parts] }
      | none => e

/-- The exclusions that patterns stand for. -/
def ofPatterns (patterns : List String) : Exclusions :=
  patterns.foldl add {}

/-- Whether a path is excluded. -/
def excludes (e : Exclusions) (path : String) : Bool :=
  e.dirs.any (fun d => Text.startsWith path (d ++ "/") || Text.contains path ("/" ++ d ++ "/")) ||
    e.globs.any fun g =>
      Glob.matchesParts g path.toList || Glob.matchesParts g (Text.lastPiece '/' path).toList

end Exclusions

/-! ## Finding the module -/

/-- Whether a directory is never searched for sources. -/
def isSkippedDir (name : String) : Bool :=
  Text.startsWith name "." || Text.startsWith name "_" || name = "vendor" || name = "testdata"

/-- A directory and its path below the root of the search. -/
abbrev Located := Path × FileTree Content

/-- The directories directly below one that are searched, in order. -/
def searchedBelow (d : Located) : List Located :=
  (d.2.entries.filter fun (name, sub) => sub.isDir && !isSkippedDir name).map fun (name, sub) =>
    (d.1 ++ [name], sub)

/-- The first directory with a module file among the given ones, else among those below them, at
most the given number of levels down. -/
def moduleAmong? : (levels : Nat) → List Located → Option Located
  | levels, dirs =>
    match dirs.find? fun d => d.2.hasFile [moduleFile] with
    | some found => some found
    | none =>
      match levels with
      | 0 => none
      | levels + 1 => moduleAmong? levels (dirs.flatMap searchedBelow)

/-- How many levels below the source root a module is searched. -/
def moduleSearchDepth : Nat := 2

/-- The root of the module in a directory. -/
def moduleRoot? (root : FileTree Content) : Option Located :=
  moduleAmong? moduleSearchDepth [([], root)]

/-! ## Sources -/

mutual

/-- The files of a directory and those below it, nested modules and skipped directories left out. -/
def sourcesOf (here : Path) : List (String × FileTree Content) → List (Path × Content)
  | [] => []
  | (name, sub) :: rest => sourcesAt (here ++ [name]) name sub ++ sourcesOf here rest

/-- The files at one entry of a directory. -/
def sourcesAt (here : Path) (name : String) : FileTree Content → List (Path × Content)
  | .file content => [(here, content)]
  | .dir entries =>
    if isSkippedDir name || (FileTree.dir entries).hasFile [moduleFile] then []
    else sourcesOf here entries

end

/-- The analyzable and not excluded files of a module, with their paths below the source root, in
the order of the paths' components. -/
def moduleSources (module : Located) (exclusions : Exclusions) : List (Path × Content) :=
  (sourcesOf module.1 module.2.entries).filter fun (path, _) =>
    isAnalyzable path.text && !exclusions.excludes (withSlashes path.text)

/-- The facts of a source file; none when it is no text. -/
def fileFacts? (moduleDir : Path) (modulePath : String) (file : Path × Content) :
    Option FileFacts :=
  match file.2 with
  | .binary => none
  | .text source =>
    let dir := file.1.dropLast.drop moduleDir.length
    some (extractFile (Go.parseSource source) (withSlashes file.1.text)
      (packagePath modulePath (withSlashes (Path.text dir))))

/-- A module found in a directory: where it is and what its path is. `shown` is the directory as
it is written in messages. -/
def openModule (shown : String) (root : Option (FileTree Content)) :
    Except GraphError (Located × String) := do
  match root with
  | some (.dir entries) =>
    match moduleRoot? (.dir entries) with
    | none => throw (.missingModule shown)
    | some (dir, tree) =>
      match tree.content? [moduleFile] with
      | some (.text text) =>
        match modulePath? text with
        | some path => return ((dir, tree), path)
        | none => throw (.parse (joinPath shown (dir ++ [moduleFile])) "no module directive")
      | _ => throw (.io FileError.notText.message)
  | _ => throw (.invalidRoot shown)

/-- The program of the module in a directory. -/
def loadProgram (shown : String) (root : Option (FileTree Content)) (exclude : List String) :
    Except GraphError Program := do
  let (module, path) ← openModule shown root
  let files := moduleSources module (Exclusions.ofPatterns exclude)
  return Program.ofFiles path (files.filterMap (fileFacts? module.1 path))

end CallImpact
