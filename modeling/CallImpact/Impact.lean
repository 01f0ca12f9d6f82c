import CallImpact.Names
import CallImpact.Ordered
import CallImpact.Snapshot

/-!
# Impact

Who calls a function, directly or through others: for each requested function its callers within a
distance, and what they add up to.
-/

namespace CallImpact

/-- A function that calls the target, directly or through others. -/
structure CallerInfo where
  function : String
  displayName : String
  package : String
  file : String
  line : Nat
  depth : Nat
  deriving Repr, BEq, DecidableEq, Inhabited

/-- The callers of one function. -/
structure FunctionImpact where
  function : String
  displayName : String
  file : String
  callers : List CallerInfo
  totalCallers : Nat
  maxDepthReached : Nat
  deriving Repr, BEq, DecidableEq, Inhabited

/-- The callers of all requested functions. -/
structure ImpactReport where
  commit : String := ""
  impacts : List FunctionImpact := []
  functionsAnalyzed : Nat := 0
  /-- The requested names that no function has, each once. -/
  unmatched : List String := []
  totalAffected : Nat := 0
  affectedFiles : List String := []
  deriving Repr, BEq, DecidableEq, Inhabited

namespace Impact

/-- The distance within which callers are sought unless a positive one is asked for. -/
def standardDepth : Nat := 3

/-- The distance within which callers are sought. -/
def effectiveDepth (depth : Int) : Nat :=
  if 0 < depth then depth.toNat else standardDepth

/-- What is told of a caller. -/
def callerInfo (r : Snapshot.Reached) : CallerInfo :=
  { function := r.node.fullName
    displayName := displayName r.node.package r.node.localName
    package := r.node.package
    file := r.file
    line := r.line
    depth := r.depth }

/-- The callers of a node. -/
def impactOf (s : Snapshot) (depth : Nat) (target : GraphNode) : FunctionImpact :=
  let callers := (s.reach .callers target.id depth).map callerInfo
  { function := target.fullName
    displayName := displayName target.package target.localName
    file := target.file
    callers
    totalCallers := callers.length
    maxDepthReached := (callers.map (·.depth)).foldl max 0 }

/-- The impact of changes to functions, given by full or canonical names. -/
def query (s : Snapshot) (functions : List String) (depth : Int) : ImpactReport :=
  let depth := effectiveDepth depth
  let targets := s.named functions
  let reached := targets.flatMap fun t => s.reach .callers t.id depth
  { commit := (s.text? "commit").getD ""
    impacts := targets.map (impactOf s depth)
    functionsAnalyzed := functions.length
    unmatched := firstOccurrences (functions.filter fun name =>
      !targets.any (Snapshot.isNamed name))
    totalAffected := (firstOccurrences (reached.map (·.node.id))).length
    affectedFiles := orderedTexts (reached.map (·.file)) }

end Impact

/-- A caller in JSON. -/
def CallerInfo.toJson (c : CallerInfo) : Json :=
  .obj [("function", .str c.function), ("display_name", .str c.displayName),
    ("package", .str c.package), ("file", .str c.file), ("line", .nat c.line),
    ("depth", .nat c.depth)]

/-- The callers of a function in JSON. -/
def FunctionImpact.toJson (f : FunctionImpact) : Json :=
  .obj [("function", .str f.function), ("display_name", .str f.displayName), ("file", .str f.file),
    ("callers", .ofList CallerInfo.toJson f.callers), ("total_callers", .nat f.totalCallers),
    ("max_depth_reached", .nat f.maxDepthReached)]

/-- A report in JSON. -/
def ImpactReport.toJson (r : ImpactReport) : Json :=
  .obj [("analysis_commit", .str r.commit), ("impacts", .ofList FunctionImpact.toJson r.impacts),
    ("summary", .obj [("functions_analyzed", .nat r.functionsAnalyzed),
      ("unmatched", .ofList .str r.unmatched), ("total_affected", .nat r.totalAffected),
      ("affected_files", .ofList .str r.affectedFiles)])]

end CallImpact
