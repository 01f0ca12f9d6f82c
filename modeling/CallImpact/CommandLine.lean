import CallImpact.CommandLine.Help
import CallImpact.CommandLine.Report
import CallImpact.CommandLine.Request
import CallImpact.Config.Document
import CallImpact.Snapshot.Search

/-!
# The command line

Running a command line: its settings are loaded, then the registry, then the request is answered.
What fails is reported with what was attempted, the causes from the outermost on, and a hint where
there is one; the exit code tells the kinds of failure apart.
-/

namespace CallImpact.CommandLine

open Session

/-- What is printed: lines, or a document. -/
inductive Printed where
  | lines (ls : List String)
  | document (j : Json)
  deriving Inhabited

/-- The printed text. -/
def Printed.text : Printed → String
  | .lines ls => String.join (ls.map (· ++ "\n"))
  | .document j => j.renderIndented ++ "\n"

/-- How a command line ends. -/
structure Exit where
  code : Nat := 0
  out : Printed := .lines []
  err : List String := []
  deriving Inhabited

/-- Why a command line fails. -/
inductive Complaint where
  /-- The settings cannot be used. -/
  | settings (error : ConfigError)
  /-- An operation failed, with what was attempted. -/
  | operation (attempted : Option String) (error : Error)
  deriving Repr, BEq, DecidableEq, Inhabited

namespace Complaint

/-- The exit code of a failure. -/
def code : Complaint → Nat
  | .settings _ => 2
  | .operation _ error =>
    match error with
    | .inputInvalid _ | .config _ => 2
    | .notFound _ => 3
    | .algorithmFailed _ => 4
    | .vcs _ => 5
    | .store _ | .graph _ | .internal _ => 1
    | .aborted => 101

/-- What is printed about a failure. -/
def report : Complaint → List String
  | .settings error => ["Error: " ++ Text.join ": " ("Cannot load config" :: error.chain)]
  | .operation attempted error =>
    ("Error: " ++ Text.join ": " (attempted.toList ++ error.chain))
      :: (error.suggestion?.map ("Hint: " ++ ·)).toList

end Complaint

/-- An operation on the command line. -/
abbrev Answering := ExceptT Complaint Session

/-- An operation, and what it attempts. -/
def attempting {α : Type} (what : String) (m : Action α) : Answering α :=
  ExceptT.adapt (.operation (some what)) m

/-! ## Files -/

/-- Where the components of a path lead from a directory. Going up from what is not a directory
leads nowhere. -/
def follow? (trees : FileTree Content) : (back : Path) → List String → Option Path
  | back, [] => some back.reverse
  | back, c :: rest =>
    if c = "" || c = "." then follow? trees back rest
    else if c = ".." then
      if trees.hasDir back.reverse then follow? trees back.tail rest else none
    else follow? trees (c :: back) rest

/-- What a path is below the root of the working trees. -/
def belowRoot? (root path : String) : Option String :=
  (Text.after? root path).filter fun rest => rest == "" || Text.startsWith rest "/"

/-- The place that a word on the command line names, from the directory in which the program runs.
-/
def placeAt (shown : String) : Session Place := do
  let host ← read
  let world ← get
  let full := if (belowRoot? host.root shown).isSome then shown
    else appendPath (joinPath host.root host.workingDir) shown
  let dir := (belowRoot? host.root full).bind fun rest =>
    follow? world.trees [] (Text.pieces '/' rest)
  return ⟨shown, dir.getD ("/" :: components full)⟩

/-- The settings in a file that is named, else the standard ones. -/
def settingsIn (path : Option String) : Session (Except ConfigError Settings) := do
  match path with
  | none => return .ok {}
  | some path =>
    let place ← placeAt path
    match (← get).trees.get? place.dir with
    | some (.dir _) => return .error (.io FileError.isDirectory.message)
    | some (.file content) => return Settings.load path (some content)
    | none => return Settings.load path none

/-- Makes the store and the registry those of the settings. Another data directory starts out
empty. -/
def openData (s : Settings) : Action Unit := fun _ => do
  let world ← get
  let tree := if world.store.dataDir = s.storage.dataDir then world.store.tree else .dir []
  let store : Store := { dataDir := s.storage.dataDir, retention := s.storage.retention, tree }
  match Registry.load s.registryPath tree with
  | .ok registry =>
    set { world with store, registry }
    return .ok ()
  | .error e => return .error e

/-! ## Requests -/

/-- The answer to a request about stored graphs. -/
def answerHistory (s : Settings) (json : Bool) (p : Place) : HistoryAction → Answering Printed
  | .list => do
    let graphs ← attempting "Cannot list call graphs" (Service.history p)
    if json then return .document (.ofList CallGraph.toJson graphs)
    let id ← ExceptT.adapt (.operation none) (Service.projectId p)
    let latest := ((← get).store.latest id).toOption
    return .lines (reportHistory (latest.map (·.commit)) graphs)
  | .setLatest reference => do
    let g ← attempting ("Cannot set latest to " ++ reference) (Service.setLatest p reference)
    if json then return .document g.toJson
    return .lines ["Latest call graph is now " ++ short g.commit]
  | .delete reference => do
    let g ← attempting ("Cannot delete call graph " ++ reference) (Service.deleteGraph p reference)
    if json then return .document g.toJson
    return .lines ["Deleted call graph " ++ short g.commit]
  | .clean maxCount maxAgeDays => do
    let gs ← attempting "Cannot clean call graphs" (Service.cleanHistory s p maxCount maxAgeDays)
    if json then return .document (.ofList CallGraph.toJson gs)
    return .lines (reportRemoved gs)

/-- The answer to a request. -/
def answer (s : Settings) (json : Bool) (p : Place) : Request → Answering Printed
  | .scan => do
    let found ← attempting ("Cannot scan " ++ p.shown) (Service.scan s p)
    if json then return .document (.ofList EntryCandidate.toJson found)
    return .lines (reportCandidates found)
  | .status commit => do
    let status ← attempting ("Cannot read status of " ++ p.shown) (Service.status s p commit)
    if json then return .document status.toJson
    return .lines (reportStatus p.shown status)
  | .generate commit algorithm entries fallback => do
    let outcome ← attempting ("Cannot generate call graph for " ++ p.shown)
      (Service.generate s { place := p, commit, algorithm, entries
                            allowFallback := if fallback then some true else none })
    if json then return .document outcome.toJson
    return .lines (reportGenerated outcome)
  | .diff range => do
    let changes ← attempting "Cannot analyze diff" (Service.diff s p range)
    if json then return .document changes.toJson
    return .lines (reportChanges changes)
  | .impact functions depth commit => do
    let report ← attempting "Cannot run impact analysis" (Service.impact p commit functions depth)
    if json then return .document report.toJson
    return .lines (reportImpact report)
  | .impactOfRange range depth => do
    let analysis ← attempting "Cannot run impact analysis" (Service.fullAnalysis s p range depth)
    if json then return .document analysis.toJson
    return .lines (reportAnalysis analysis)
  | .history action => answerHistory s json p action
  | .search query limit commit => do
    let (_, snapshot) ← attempting "Cannot open call graph" (Service.openSnapshot p commit)
    let found := snapshot.search query limit
    if json then return .document (.ofList GraphNode.toJson found)
    return .lines (reportFound query found)
  | .callees function depth commit => do
    let (_, snapshot) ← attempting "Cannot open call graph" (Service.openSnapshot p commit)
    match snapshot.named [function] with
    | [] =>
      throw (.operation none (.notFound ("no function named " ++ function ++ " in the call graph")))
    | target :: _ =>
      let found := snapshot.reach .callees target.id (max depth 1)
      if json then return .document (.ofList calleeJson found)
      return .lines (reportCallees target found)

/-- Carries out an order. -/
def Order.carryOut (o : Order) : Answering Printed := do
  let settings ← ExceptT.adapt Complaint.settings (settingsIn o.config)
  attempting "Cannot open project registry" (openData settings)
  answer settings o.json (← placeAt o.path) o.request

/-- The version of the program. -/
def versionText : String := programName ++ " 0.1.0"

/-- Runs a command line. -/
def run (words : List String) : Session Exit := do
  match orderOf words with
  | .error .version => return { out := .lines [versionText] }
  | .error (.help command) => return { out := .lines command.help }
  | .error .usage =>
    return { code := 2, err := ["error: invalid usage", "", "Usage: " ++ program.usage] }
  | .ok order =>
    match ← (order.carryOut : Session (Except Complaint Printed)) with
    | .ok out => return { out }
    | .error complaint => return { code := complaint.code, err := complaint.report }

end CallImpact.CommandLine
