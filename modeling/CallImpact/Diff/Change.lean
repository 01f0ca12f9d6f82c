import CallImpact.Diff.Hunk
import CallImpact.Module
import CallImpact.Spans

/-!
# Changed functions

The functions that hunks touch. A function is touched when its lines and the affected lines of a
hunk share a line; a file that is gone gives placeholders instead. `changesOf` puts the files of a
diff together, each function once.
-/

namespace CallImpact

/-- How a function changed. -/
inductive ChangeType where
  | added
  | modified
  | deleted
  deriving Repr, BEq, DecidableEq, Inhabited

/-- The name of a kind of change. -/
def ChangeType.id : ChangeType → String
  | .added => "added"
  | .modified => "modified"
  | .deleted => "deleted"

/-- A function whose lines a hunk touches. The full name is empty when it is not known. -/
structure ChangedFunction where
  name : String
  fullName : String
  package : String
  file : String
  lineStart : Nat
  lineEnd : Nat
  change : ChangeType
  linesAdded : Nat
  linesRemoved : Nat
  deriving Repr, BEq, DecidableEq, Inhabited

/-- A changed function in JSON. -/
def ChangedFunction.toJson (f : ChangedFunction) : Json :=
  .obj [("name", .str f.name), ("full_name", .str f.fullName), ("package", .str f.package),
    ("file", .str f.file), ("line_start", .nat f.lineStart), ("line_end", .nat f.lineEnd),
    ("change_type", .str f.change.id), ("lines_added", .nat f.linesAdded),
    ("lines_removed", .nat f.linesRemoved)]

namespace Diff

/-! ## One file -/

/-- The kind of change that a hunk makes to a function. -/
def changeOf (h : Hunk) : ChangeType :=
  if h.added then .added else if h.deleted then .deleted else .modified

/-- The hunks that touch a span, in order. -/
def touching (span : FunctionSpan) (hunks : List Hunk) : List Hunk :=
  hunks.filter fun h => span.overlaps h.affectedLines.1 h.affectedLines.2

/-- A sum that stops at the greatest number of 32 bits. -/
def boundedSum (ns : List Nat) : Nat :=
  ns.foldl (fun total n => min Text.max32 (total + n)) 0

/-- The name of a function for people: `F` or `T.M`. -/
def shownName (span : FunctionSpan) : String :=
  match span.receiver with
  | some type => type ++ "." ++ span.name
  | none => span.name

/-- What hunks change about a function, if they touch it. -/
def change? (file package : String) (hunks : List Hunk) (span : FunctionSpan) :
    Option ChangedFunction :=
  match touching span hunks with
  | [] => none
  | first :: rest => some
    { name := shownName span
      fullName := span.qualifiedName
      package
      file
      lineStart := span.startLine
      lineEnd := span.endLine
      change := changeOf first
      linesAdded := boundedSum ((first :: rest).map (·.newCount))
      linesRemoved := boundedSum ((first :: rest).map (·.oldCount)) }

/-- The functions of a file that hunks touch, in the order of their declarations. -/
def touchedFunctions (file package : String) (spans : List FunctionSpan) (hunks : List Hunk) :
    List ChangedFunction :=
  spans.filterMap (change? file package hunks)

/-- What stands for a hunk of a file that is gone. -/
def placeholder (file : String) (h : Hunk) : ChangedFunction :=
  { name := "unknown"
    fullName := ""
    package := ""
    file
    lineStart := h.affectedLines.1
    lineEnd := h.affectedLines.2
    change := .deleted
    linesAdded := h.newCount
    linesRemoved := h.oldCount }

/-- The package path of files in a directory, from the module file that is nearest above it; `down`
leads from that directory to the files' own. -/
def packageAbove (repo : FileTree Content) : (up : List String) → (down : Path) → Option String
  | up, down =>
    match repo.get? (up.reverse ++ [moduleFile]) with
    | some (.file (.text text)) => (modulePath? text).map fun m =>
      packagePath m (withSlashes down.text)
    | some (.file .binary) => none
    | _ =>
      match up with
      | [] => none
      | name :: up => packageAbove repo up (name :: down)

/-- The package path of a file below the repository. -/
def packageOf? (repo : FileTree Content) (file : String) : Option String :=
  packageAbove repo (pathOf file).dropLast.reverse []

/-- The functions of a file that hunks touch; one placeholder for each hunk when the file is gone.
-/
def changedInFile (repo : FileTree Content) (file : String) (hunks : List Hunk) :
    Except Error (List ChangedFunction) :=
  match hunks.any (·.deleted), repo.content? (pathOf file) with
  | true, _ | _, none => .ok (hunks.map (placeholder file))
  | false, some .binary => .error (.inputInvalid (file ++ ": " ++ FileError.notText.message))
  | false, some (.text source) =>
    let root := Go.parseSource source
    match root.firstErrorLine? with
    | some line => .error (.inputInvalid (file ++ ":" ++ toString line ++ ": syntax error"))
    | none =>
      let package := (packageOf? repo file).getD ""
      .ok (touchedFunctions file package (functionSpans root package) hunks)

/-! ## All files -/

/-- What tells changed functions apart: the full name, or the file and the name. -/
def key (f : ChangedFunction) : String :=
  if f.fullName = "" then f.file ++ ":" ++ f.name else f.fullName

/-- The functions without those whose key occurred before. -/
def firstByKey (seen : List String) : List ChangedFunction → List ChangedFunction
  | [] => []
  | f :: rest =>
    if seen.contains (key f) then firstByKey seen rest
    else f :: firstByKey (key f :: seen) rest

/-- Each changed function once, where it occurs first. -/
def dedup (fs : List ChangedFunction) : List ChangedFunction :=
  firstByKey [] fs

/-- How many files and functions changed. -/
structure Summary where
  filesChanged : Nat := 0
  functionsChanged : Nat := 0
  functionsAdded : Nat := 0
  functionsModified : Nat := 0
  functionsDeleted : Nat := 0
  deriving Repr, BEq, DecidableEq, Inhabited

/-- Counts the changes. -/
def summarize (files : List String) (fs : List ChangedFunction) : Summary :=
  { filesChanged := files.length
    functionsChanged := fs.length
    functionsAdded := fs.countP (·.change == .added)
    functionsModified := fs.countP (·.change == .modified)
    functionsDeleted := fs.countP (·.change == .deleted) }

/-- A summary in JSON. -/
def Summary.toJson (s : Summary) : Json :=
  .obj [("files_changed", .nat s.filesChanged), ("functions_changed", .nat s.functionsChanged),
    ("functions_added", .nat s.functionsAdded), ("functions_modified", .nat s.functionsModified),
    ("functions_deleted", .nat s.functionsDeleted)]

/-- What changed over a range of commits. -/
structure Changes where
  range : String
  files : List String
  functions : List ChangedFunction
  summary : Summary
  deriving Repr, BEq, DecidableEq, Inhabited

/-- Changes in JSON. -/
def Changes.toJson (c : Changes) : Json :=
  .obj [("commit_range", .str c.range), ("changed_files", .ofList .str c.files),
    ("changed_functions", .ofList ChangedFunction.toJson c.functions),
    ("summary", c.summary.toJson)]

/-- Puts a hunk with those of its file. A file without hunks so far comes last. -/
def addHunk (h : Hunk) : List (String × List Hunk) → List (String × List Hunk)
  | [] => [(h.file, [h])]
  | (file, hunks) :: groups =>
    if file = h.file then (file, hunks ++ [h]) :: groups else (file, hunks) :: addHunk h groups

/-- The analyzable files of hunks, in the order in which they occur first, each with its hunks. -/
def groupByFile (hunks : List Hunk) : List (String × List Hunk) :=
  (hunks.filter fun h => isAnalyzable h.file).foldl (fun groups h => addHunk h groups) []

/-- What hunks change in a repository. A file that cannot be read gives no functions. -/
def changesOf (repo : FileTree Content) (range : String) (hunks : List Hunk) : Changes :=
  let groups := groupByFile hunks
  let files := groups.map (·.1)
  let functions := dedup (groups.flatMap fun (file, hunks) =>
    match changedInFile repo file hunks with
    | .ok found => found
    | .error _ => [])
  { range, files, functions, summary := summarize files functions }

end Diff

end CallImpact
