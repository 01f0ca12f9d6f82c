import CallImpact.Service

/-!
# Reports

What the program prints for the results of its operations, line by line.
-/

namespace CallImpact.CommandLine

/-- The start of a commit. -/
def short (commit : String) : String :=
  String.ofList (commit.toList.take 12)

/-- A text that is indented by its depth. -/
def indented (depth : Nat) (text : String) : String :=
  String.ofList (List.replicate (2 * depth) ' ') ++ text

/-- A place in a file. -/
def site (file : String) (line : Nat) : String :=
  "[" ++ file ++ ":" ++ toString line ++ "]"

/-- The lines of a file. -/
def lineRange (file : String) (first last : Nat) : String :=
  file ++ ":" ++ toString first ++ "-" ++ toString last

/-- Entry points. -/
def reportCandidates : List EntryCandidate → List String
  | [] => ["No main or init functions found; use --algorithm cha or --entry file:function"]
  | found =>
    "Entry point candidates:" :: found.map (fun c =>
      "  " ++ (if c.recommended then "*" else " ") ++ " " ++ c.file ++ ":"
        ++ Text.padRight 20 c.function ++ " " ++ c.package ++ " (" ++ c.reason ++ ")")
      ++ ["", "  * recommended"]

/-- How far behind a graph is. -/
def reportAge (s : Store.Status) : String :=
  if s.upToDate then "  State:     up to date"
  else "  State:     " ++ toString s.commitsBehind ++ " commit"
    ++ (if s.commitsBehind = 1 then "" else "s") ++ " behind HEAD"

/-- The status of a project. -/
def reportStatus (path : String) (s : Store.Status) : List String :=
  ["Call graph status for " ++ path, ""]
    ++ (s.head.map fun c => "  HEAD:      " ++ short c).toList
    ++ if s.found then
        (s.current.map fun c => "  Graph:     " ++ short c).toList
          ++ (s.created.map fun i =>
              "  Created:   " ++ i.dateText ++ " " ++ i.secondText ++ " UTC").toList
          ++ (s.funcCount.map fun n => "  Functions: " ++ toString n).toList
          ++ [reportAge s]
      else ["  Graph:     none (run `ripple generate`)"]

/-- A generated graph. -/
def reportGenerated (o : GenerateOutcome) : List String :=
  ["Call graph generated for " ++ o.modulePath, "",
   "  Commit:    " ++ short o.graph.commit]
    ++ (o.graph.branch.map fun b => "  Branch:    " ++ b).toList
    ++ ["  Algorithm: " ++ o.actual.label]
    ++ (o.fallbackReason.map fun r =>
        "  Fallback:  " ++ o.requested.label ++ " failed: " ++ r).toList
    ++ ["  Functions: " ++ toString o.graph.funcCount,
        "  Edges:     " ++ toString o.graph.edgeCount,
        "  Time:      " ++ toString o.graph.millis ++ " ms",
        "  Stored at: " ++ o.graph.dataPath]

/-- The sign of a change. -/
def changeSign : ChangeType → String
  | .added => "+"
  | .modified => "~"
  | .deleted => "-"

/-- A changed function. -/
def reportChange (f : ChangedFunction) : String :=
  "  " ++ changeSign f.change ++ " " ++ Text.padRight 40 f.name ++ " "
    ++ lineRange f.file f.lineStart f.lineEnd
    ++ "  (+" ++ toString f.linesAdded ++ " -" ++ toString f.linesRemoved ++ ")"

/-- What changed. -/
def reportChanges (c : Diff.Changes) : List String :=
  ["Diff " ++ c.range ++ ": " ++ toString c.summary.filesChanged ++ " file(s), "
      ++ toString c.summary.functionsChanged ++ " function(s)",
   "  added " ++ toString c.summary.functionsAdded
      ++ ", modified " ++ toString c.summary.functionsModified
      ++ ", deleted " ++ toString c.summary.functionsDeleted]
    ++ if c.functions.isEmpty then [] else "" :: c.functions.map reportChange

/-- The callers of one function. -/
def reportFunctionImpact (f : FunctionImpact) : List String :=
  ["", "  " ++ f.displayName ++ " (" ++ f.file ++ ")  " ++ toString f.totalCallers
      ++ " caller(s), max depth " ++ toString f.maxDepthReached]
    ++ f.callers.map fun c =>
      "  " ++ indented c.depth ("<- " ++ c.displayName ++ " " ++ site c.file c.line)

/-- The callers of functions. -/
def reportImpact (r : ImpactReport) : List String :=
  ["Impact against graph " ++ short r.commit]
    ++ (if r.unmatched.isEmpty then [] else
        ["  (" ++ toString r.unmatched.length ++ " requested function(s) not in the graph: "
          ++ Text.join ", " r.unmatched ++ ")"])
    ++ r.impacts.flatMap reportFunctionImpact
    ++ ["", "  " ++ toString r.totalAffected ++ " affected function(s) in "
          ++ toString r.affectedFiles.length ++ " file(s)"]

/-- What changed, and the callers of it. -/
def reportAnalysis (a : FullAnalysis) : List String :=
  [toString a.diff.summary.functionsChanged ++ " changed function(s) in " ++ a.diff.range, ""]
    ++ reportImpact a.impact

/-- A stored graph. -/
def reportGraph (mark : String) (g : CallGraph) : String :=
  "  " ++ Text.padRight 12 (short g.commit) ++ " " ++ Text.padRight 1 mark ++ " "
    ++ g.created.dateText ++ " " ++ g.created.minuteText ++ "  "
    ++ Text.padLeft 6 (toString g.funcCount) ++ " funcs "
    ++ Text.padLeft 7 (toString g.edgeCount) ++ " edges  " ++ g.algorithm.label
    ++ (if g.fallback then " (fallback)" else "")

/-- Stored graphs; the latest one is marked. -/
def reportHistory (latest : Option String) : List CallGraph → List String
  | [] => ["No stored call graphs"]
  | graphs => graphs.map fun g => reportGraph (if latest = some g.commit then "*" else "") g

/-- Removed graphs. -/
def reportRemoved (graphs : List CallGraph) : List String :=
  ("Removed " ++ toString graphs.length ++ " call graph(s)") :: graphs.map (reportGraph "")

/-- Functions that a query finds. -/
def reportFound (query : String) : List GraphNode → List String
  | [] => ["No functions match: " ++ query]
  | found => found.flatMap fun n =>
    ["  " ++ Text.padRight 40 (displayName n.package n.localName) ++ " "
        ++ lineRange n.file n.lineStart n.lineEnd,
     "    " ++ n.fullName]

/-- The functions that a function calls. -/
def reportCallees (target : GraphNode) (found : List Snapshot.Reached) : List String :=
  (displayName target.package target.localName ++ " calls " ++ toString found.length
      ++ " function(s)") ::
    found.map fun r =>
      indented r.depth ("-> " ++ displayName r.node.package r.node.localName ++ " "
        ++ site r.file r.line)

/-- A called function in JSON. -/
def calleeJson (r : Snapshot.Reached) : Json :=
  .obj [("function", .str r.node.fullName),
    ("display_name", .str (displayName r.node.package r.node.localName)),
    ("depth", .nat r.depth), ("call_site_file", .str r.file), ("call_site_line", .nat r.line)]

end CallImpact.CommandLine
