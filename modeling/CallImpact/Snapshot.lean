import CallImpact.Error
import CallImpact.Graph

/-!
# Snapshots

A stored call graph: nodes with unique numbers, edges between them in the order in which they were
written, and some texts by key. Writes come in batches, and a batch that breaks a rule changes
nothing. `reach` is a breadth-first walk, level by level, so every function is met at its least
distance.
-/

namespace CallImpact

/-- A stored call graph. Nodes are kept in the order of their numbers. -/
structure Snapshot where
  nodes : List GraphNode := []
  edges : List GraphEdge := []
  texts : List (String × String) := [("schema_version", "1")]
  deriving Repr, BEq, DecidableEq, Inhabited

namespace Snapshot

/-! ## Writing -/

/-- Whether a number belongs to a node. -/
def hasNode (s : Snapshot) (id : Int) : Bool :=
  s.nodes.any fun n => n.id == id

/-- Puts a node in its place among nodes in the order of their numbers; none when its number is
taken. -/
def insertNode? (n : GraphNode) : List GraphNode → Option (List GraphNode)
  | [] => some [n]
  | m :: rest =>
    if n.id < m.id then some (n :: m :: rest)
    else if m.id < n.id then (insertNode? n rest).map (m :: ·)
    else none

/-- Writes nodes; no number may occur twice. -/
def writeNodes (s : Snapshot) (nodes : List GraphNode) : Except StoreError Snapshot :=
  match nodes.foldlM (fun all n => insertNode? n all) s.nodes with
  | some all => .ok { s with nodes := all }
  | none => .error (.database "UNIQUE constraint failed: func_nodes.id")

/-- Whether both ends of an edge are nodes. -/
def joinsNodes (s : Snapshot) (e : GraphEdge) : Bool :=
  s.hasNode e.caller && s.hasNode e.callee

/-- Writes edges; both ends must be nodes. -/
def writeEdges (s : Snapshot) (edges : List GraphEdge) : Except StoreError Snapshot :=
  if edges.all s.joinsNodes then .ok { s with edges := s.edges ++ edges }
  else .error (.database "FOREIGN KEY constraint failed")

/-- Sets the text of a key. -/
def setText (s : Snapshot) (key value : String) : Snapshot :=
  { s with texts := (key, value) :: s.texts.filter fun (k, _) => k != key }

/-! ## Point queries -/

/-- The text of a key. -/
def text? (s : Snapshot) (key : String) : Option String :=
  s.texts.lookup key

/-- The node with a number. -/
def node? (s : Snapshot) (id : Int) : Option GraphNode :=
  s.nodes.find? fun n => n.id == id

/-- Whether a node has a full or canonical name. -/
def isNamed (name : String) (n : GraphNode) : Bool :=
  n.fullName == name || n.canonicalName == name

/-- The nodes with one of the names, in the order of their numbers. -/
def named (s : Snapshot) (names : List String) : List GraphNode :=
  s.nodes.filter fun n => names.any fun name => isNamed name n

/-! ## Neighbours -/

/-- The way in which calls are followed. -/
inductive Direction where
  | callers
  | callees
  deriving Repr, BEq, DecidableEq, Inhabited

/-- The end of an edge where a walk arrives. -/
def Direction.target (d : Direction) (e : GraphEdge) : Int :=
  match d with
  | .callers => e.caller
  | .callees => e.callee

/-- The end of an edge where a walk starts. -/
def Direction.source (d : Direction) (e : GraphEdge) : Int :=
  match d with
  | .callers => e.callee
  | .callees => e.caller

/-- A neighbour and the call that leads to it. -/
structure Neighbour where
  node : GraphNode
  file : String
  line : Nat
  deriving Repr, BEq, DecidableEq, Inhabited

/-- The neighbours of a node, one for each edge, in the order in which the edges were written. -/
def neighbours (s : Snapshot) (d : Direction) (id : Int) : List Neighbour :=
  (s.edges.filter fun e => d.source e == id).filterMap fun e =>
    (s.node? (d.target e)).map fun node => { node, file := e.file, line := e.line }

/-! ## Walks -/

/-- A function met on a walk, its distance from the start, and the call that led to it first. -/
structure Reached where
  node : GraphNode
  depth : Nat
  file : String
  line : Nat
  deriving Repr, BEq, DecidableEq, Inhabited

/-- The neighbours that are not seen yet, each once, at the given depth. -/
def unseen (depth : Nat) : (seen : List Int) → List Neighbour → List Reached
  | _, [] => []
  | seen, n :: rest =>
    if seen.contains n.node.id then unseen depth seen rest
    else { node := n.node, depth, file := n.file, line := n.line } ::
      unseen depth (n.node.id :: seen) rest

/-- The functions met from a level of a walk on, at most the given number of levels further. -/
def levels (s : Snapshot) (d : Direction) :
    (more : Nat) → (depth : Nat) → (seen level : List Int) → List Reached
  | 0, _, _, _ => []
  | more + 1, depth, seen, level =>
    match unseen (depth + 1) seen (level.flatMap (s.neighbours d)) with
    | [] => []
    | met =>
      let ids := met.map (·.node.id)
      met ++ levels s d more (depth + 1) (ids ++ seen) ids

/-- By depth, then by full name. -/
def Reached.le (a b : Reached) : Bool :=
  a.depth < b.depth || (a.depth == b.depth && a.node.fullName ≤ b.node.fullName)

/-- The functions within a distance from the start, which itself is never among them. -/
def reach (s : Snapshot) (d : Direction) (start : Int) (maxDepth : Nat) : List Reached :=
  (levels s d maxDepth 0 [start] [start]).mergeSort Reached.le

/-! ## JSON -/

/-- A neighbour in JSON. -/
def Neighbour.toJson (n : Neighbour) : Json :=
  .obj [("node", n.node.toJson), ("file", .str n.file), ("line", .nat n.line)]

/-- A function met on a walk in JSON. -/
def Reached.toJson (r : Reached) : Json :=
  .obj [("node", r.node.toJson), ("depth", .nat r.depth), ("call_site_file", .str r.file),
    ("call_site_line", .nat r.line)]

end Snapshot

end CallImpact
