import CallImpact.CommandLine.Arguments

/-!
# Requests

What a command line asks for.
-/

namespace CallImpact.CommandLine

/-- What is asked about stored graphs. -/
inductive HistoryAction where
  | list
  | setLatest (reference : String)
  | delete (reference : String)
  | clean (maxCount maxAgeDays : Option Nat)
  deriving Repr, BEq, DecidableEq, Inhabited

/-- What is asked about the project in a directory. -/
inductive Request where
  | scan
  | status (commit : Option String)
  | generate (commit : Option String) (algorithm : Option Algorithm) (entries : List EntryPoint)
      (fallback : Bool)
  | diff (range : String)
  | impact (functions : List String) (depth : Int) (commit : Option String)
  | impactOfRange (range : String) (depth : Int)
  | history (action : HistoryAction)
  | search (query : String) (limit : Nat) (commit : Option String)
  | callees (function : String) (depth : Nat) (commit : Option String)
  deriving Repr, BEq, DecidableEq, Inhabited

/-- A request with the directory that it is about, and how to answer it. -/
structure Order where
  config : Option String := none
  json : Bool := false
  path : String := "."
  request : Request
  deriving Repr, BEq, DecidableEq, Inhabited

/-- The values for a name at the innermost level that gives any. -/
def valuesOf (levels : List Level) (name : String) : List String :=
  match levels.find? (·.has name) with
  | some l => l.values name
  | none => []

/-- The value that a command has for a name when none is given. -/
def Level.standard? (l : Level) (name : String) : Option String :=
  ((l.options.find? fun o => o.long == name).bind (·.standard))
    <|> ((l.command.arguments.find? fun a => a.name == name).bind (·.standard))

/-- The value for a name: the one that is given, else the one that the command has. -/
def valueOf? (levels : List Level) (name : String) : Option String :=
  (valuesOf levels name).head? <|> levels.findSome? (·.standard? name)

/-- The request that the levels of a command line make. -/
def requestOf (levels : List Level) : Option Request :=
  let text (name : String) := (valueOf? levels name).getD ""
  let commit := valueOf? levels "commit"
  let int (name : String) := ((valueOf? levels name).bind Text.readInt?).getD 0
  match levels.head?.map (·.command.names) with
  | some ["scan"] => some .scan
  | some ["status"] => some (.status commit)
  | some ["generate"] =>
    some (.generate commit
      ((valueOf? levels "algorithm").bind fun s => (Algorithm.parse s).toOption)
      (entryPointsOf (valuesOf levels "entry")) (levels.any (·.has "fallback")))
  | some ["diff"] => some (.diff (text "range"))
  | some ["impact"] =>
    match valueOf? levels "range" with
    | some range => some (.impactOfRange range (int "depth"))
    | none => some (.impact (valuesOf levels "functions") (int "depth") commit)
  | some ["history", "list"] => some (.history .list)
  | some ["history", "set-latest"] => some (.history (.setLatest (text "commit")))
  | some ["history", "delete"] => some (.history (.delete (text "commit")))
  | some ["history", "clean"] =>
    some (.history (.clean ((valueOf? levels "max-count").bind (Text.readNat? Text.max64))
      (((valueOf? levels "max-age-days").bind Text.readInt?).map Int.toNat)))
  | some ["search"] =>
    some (.search (text "query")
      (((valueOf? levels "limit").bind (Text.readNat? Text.max64)).getD 0)
      commit)
  | some ["callees"] => some (.callees (text "function") (int "depth").toNat commit)
  | _ => none

/-- What a command line orders. -/
def orderOf (words : List String) : Except Stop Order := do
  let levels ← readArguments words
  match requestOf levels with
  | some request =>
    return { config := valueOf? levels "config", json := levels.any (·.has "json")
             path := (valueOf? levels "path").getD ".", request }
  | none => .error .usage

end CallImpact.CommandLine
