import CallImpact.Construct.Budget
import CallImpact.Program.Dispatch

/-!
# Direct calls and the type hierarchy

The edges of a call graph, the construction from direct calls alone, and the one in which a dynamic
call reaches the methods of all concrete types that fit. The targets of dynamic calls are looked up
once per interface and method, or per method name, and remembered.
-/

namespace CallImpact

/-- A resolved call: the call with number `site` of `caller` may call `callee`. -/
structure Edge where
  caller : Nat
  site : Nat
  callee : Nat
  deriving Repr, BEq, DecidableEq, Inhabited

/-- Edges are ordered by caller, then by call, then by callee. -/
def Edge.le (a b : Edge) : Bool :=
  a.caller < b.caller || (a.caller == b.caller &&
    (a.site < b.site || (a.site == b.site && a.callee ≤ b.callee)))

/-- The outcome of a construction: edges, and the functions that the graph covers, all when none are
given. -/
structure Resolution where
  edges : List Edge
  reachable : Option (List Nat) := none
  deriving Repr, BEq, DecidableEq, Inhabited

/-- How every call of every function selects what it calls. -/
def dispatchTable (p : Program) : List (List Dispatch) :=
  p.functions.map p.dispatches

/-- Whether a value of a type can answer a dynamic call. -/
def admits (p : Program) (d : Dispatch) (t : TypeRef) : Bool :=
  match d with
  | .interface iface _ => p.implements t iface
  | .dynamic method => p.hasMethod t method
  | .static _ | .external => false

/-- The methods with a name of the given types, in order and without repeats. -/
def methodsOf (p : Program) (types : List TypeRef) (method : String) : List Nat :=
  orderedNats (types.filterMap fun t => p.lookupMethod? t method)

/-- The edges from one call to several callees. -/
def edgesTo (caller site : Nat) (callees : List Nat) : List Edge :=
  callees.map fun callee => { caller, site, callee }

/-! ## Direct calls -/

/-- The edges of the direct calls of one function. -/
def directEdges (caller : Nat) (sites : List Dispatch) : List Edge :=
  sites.zipIdx.flatMap fun (d, site) =>
    match d with
    | .static callee => [{ caller, site, callee }]
    | _ => []

/-- Builds the graph of direct calls, one step per function. -/
def buildDirect (p : Program) : Budgeted Resolution := do
  let edges ← (dispatchTable p).zipIdx.mapM fun (sites, caller) => do
    tick
    return directEdges caller sites
  return { edges := edges.flatten }

/-! ## The type hierarchy -/

/-- The targets of dynamic calls that were looked up before. -/
structure Hierarchy where
  byInterface : List ((TypeRef × String) × List Nat) := []
  byMethod : List (String × List Nat) := []
  deriving Repr, Inhabited

namespace Hierarchy

/-- The methods that a call through an interface can reach. -/
def interfaceTargets (p : Program) (iface : TypeRef) (method : String) : List Nat :=
  methodsOf p (p.concreteTypes.filter fun t => p.implements t iface) method

/-- The methods that a call on a value of unknown type can reach. -/
def dynamicTargets (p : Program) (method : String) : List Nat :=
  methodsOf p (p.concreteTypes.filter fun t => p.hasMethod t method) method

/-- All that a call can reach, and the memory with it. -/
def targets (p : Program) (d : Dispatch) (h : Hierarchy) : List Nat × Hierarchy :=
  match d with
  | .static callee => ([callee], h)
  | .external => ([], h)
  | .interface iface method =>
    match h.byInterface.lookup (iface, method) with
    | some found => (found, h)
    | none =>
      let found := interfaceTargets p iface method
      (found, { h with byInterface := ((iface, method), found) :: h.byInterface })
  | .dynamic method =>
    match h.byMethod.lookup method with
    | some found => (found, h)
    | none =>
      let found := dynamicTargets p method
      (found, { h with byMethod := (method, found) :: h.byMethod })

/-- The targets of several calls in order. -/
def targetsAll (p : Program) : List Dispatch → Hierarchy → List (List Nat) × Hierarchy
  | [], h => ([], h)
  | d :: ds, h =>
    let (found, h) := targets p d h
    let (rest, h) := targetsAll p ds h
    (found :: rest, h)

/-- The targets of all calls of all functions. -/
def targetsTable (p : Program) :
    List (List Dispatch) → Hierarchy → List (List (List Nat)) × Hierarchy
  | [], h => ([], h)
  | sites :: table, h =>
    let (found, h) := targetsAll p sites h
    let (rest, h) := targetsTable p table h
    (found :: rest, h)

end Hierarchy

/-- What every call of every function can reach by the type hierarchy. -/
def hierarchyTable (p : Program) : List (List (List Nat)) :=
  (Hierarchy.targetsTable p (dispatchTable p) {}).1

/-- Builds the graph by the type hierarchy, one step per call. -/
def buildHierarchy (p : Program) : Budgeted Resolution := do
  let edges ← (hierarchyTable p).zipIdx.mapM fun (sites, caller) =>
    sites.zipIdx.mapM fun (callees, site) => do
      tick
      return edgesTo caller site callees
  return { edges := edges.flatten.flatten }

end CallImpact
