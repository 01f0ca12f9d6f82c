import CallImpact.Algorithm
import CallImpact.Json

/-!
# Call graphs

Functions and calls as they are stored: nodes with numbers of their own, and one edge for each call
that was resolved. Two calls of one function by another are two edges.
-/

namespace CallImpact

/-- A function of a call graph. -/
structure GraphNode where
  id : Int
  fullName : String
  canonicalName : String
  package : String
  localName : String
  file : String
  lineStart : Nat
  lineEnd : Nat
  exported : Bool
  deriving Repr, BEq, DecidableEq, Inhabited

/-- A resolved call and where it stands. -/
structure GraphEdge where
  caller : Int
  callee : Int
  file : String
  line : Nat
  deriving Repr, BEq, DecidableEq, Inhabited

/-- A call graph as it is built, with the algorithm that was asked for and the one that built it. -/
structure BuiltGraph where
  modulePath : String
  requested : Algorithm
  actual : Algorithm
  fallback : Bool
  fallbackReason : Option String
  nodes : List GraphNode
  edges : List GraphEdge
  deriving Repr, BEq, DecidableEq, Inhabited

/-- An algorithm in JSON. -/
def Algorithm.toJson (a : Algorithm) : Json :=
  .str a.id

/-- A node in JSON. -/
def GraphNode.toJson (n : GraphNode) : Json :=
  .obj [("id", .int n.id), ("full_name", .str n.fullName), ("canonical_name", .str n.canonicalName),
    ("package", .str n.package), ("func_name", .str n.localName), ("file_path", .str n.file),
    ("line_start", .nat n.lineStart), ("line_end", .nat n.lineEnd),
    ("is_exported", .bool n.exported)]

/-- An edge in JSON. -/
def GraphEdge.toJson (e : GraphEdge) : Json :=
  .obj [("caller_id", .int e.caller), ("callee_id", .int e.callee), ("call_site_file", .str e.file),
    ("call_site_line", .nat e.line)]

/-- A built graph in JSON. -/
def BuiltGraph.toJson (g : BuiltGraph) : Json :=
  .obj [("module_path", .str g.modulePath), ("requested", g.requested.toJson),
    ("actual", g.actual.toJson), ("fallback", .bool g.fallback),
    ("fallback_reason", .ofStr? g.fallbackReason), ("nodes", .ofList GraphNode.toJson g.nodes),
    ("edges", .ofList GraphEdge.toJson g.edges)]

end CallImpact
