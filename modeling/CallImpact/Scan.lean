import CallImpact.Json
import CallImpact.Module

/-!
# Finding entry points

The functions of a module that start a program: `main` of main packages, which are recommended, and
the initializers of packages.
-/

namespace CallImpact

/-- A function that may serve as an entry point. -/
structure EntryCandidate where
  file : String
  function : String
  package : String
  recommended : Bool
  reason : String
  deriving Repr, BEq, DecidableEq, Inhabited

namespace EntryCandidate

/-- The candidate that a function is. -/
def of? (f : Function) : Option EntryCandidate :=
  if f.decl.receiver.isSome then none
  else if f.name = "main" && f.packageName = "main" then
    some ⟨f.file, f.name, f.package, true, "program entry point"⟩
  else if f.name = "init" then
    some ⟨f.file, f.name, f.package, false, "package initializer, runs on import"⟩
  else none

/-- Recommended candidates first, then by file, then by function. -/
def le (a b : EntryCandidate) : Bool :=
  if a.recommended != b.recommended then a.recommended
  else if a.file != b.file then decide (a.file < b.file)
  else decide (a.function ≤ b.function)

/-- A candidate in JSON. -/
def toJson (c : EntryCandidate) : Json :=
  .obj [("file", .str c.file), ("function", .str c.function), ("package", .str c.package),
    ("recommended", .bool c.recommended), ("reason", .str c.reason)]

end EntryCandidate

/-- The candidates of a program. -/
def Program.entryCandidates (p : Program) : List EntryCandidate :=
  (p.functions.filterMap EntryCandidate.of?).mergeSort EntryCandidate.le

/-- The candidates of the module in a directory. -/
def scanEntries (shown : String) (root : Option (FileTree Content)) (exclude : List String) :
    Except Error (List EntryCandidate) :=
  match loadProgram shown root exclude with
  | .ok p => .ok p.entryCandidates
  | .error e => .error (Error.ofGraph e)

end CallImpact
