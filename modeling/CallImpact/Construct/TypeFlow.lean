import CallImpact.Construct.Hierarchy

/-!
# Type flow analysis

Types flow from where they are allocated through variables, results and fields. A dynamic call
reaches the methods of the types that flow to its receiver; a receiver of which nothing is known
keeps all targets of the type hierarchy. Each function costs a step, and so does each arrival of a
type at a place.
-/

namespace CallImpact

/-- A place through which values flow. -/
inductive Slot where
  | variable (function : Nat) (name : String)
  | result (function : Nat)
  | field (owner : TypeRef) (name : String)
  deriving Repr, BEq, DecidableEq, Inhabited

/-- Where the value of an expression comes from. -/
structure Sources where
  slots : List Slot := []
  types : List TypeRef := []
  /-- Whether part of the value is not followed. -/
  unmodelled : Bool := false
  deriving Repr, Inhabited

/-- The flow of types: edges between places, and the types that start at places. -/
structure FlowGraph where
  edges : List (Slot × Slot) := []
  seeds : List (Slot × TypeRef) := []
  deriving Repr, Inhabited

/-- The struct that a field belongs to, the given type when no struct declares it. -/
def Program.ownerOf (p : Program) (t : TypeRef) (field : String) : TypeRef :=
  (p.fieldOwner? t field).getD t

namespace FlowGraph

/-- Where the value of an expression of a function comes from, when the calls of the function have
the given targets. -/
def sources (p : Program) (number : Nat) (f : Function) (targets : List (List Nat)) :
    Expr → Budgeted Sources
  | .var name => return { slots := [.variable number name] }
  | .field base name =>
    match p.staticType f base with
    | .named owner => return { slots := [.field (p.ownerOf owner name) name] }
    | .foreign | .unknown => return { unmodelled := true }
  | .alloc type => return { types := [type] }
  | .result site => do
    let callees ← element targets site
    return { slots := callees.map .result, unmodelled := callees.isEmpty }
  | .assert value _ => sources p number f targets value
  | .unknown => return { unmodelled := true }

/-- Adds an edge unless it is there. -/
def addEdge (g : FlowGraph) (source target : Slot) : FlowGraph :=
  if g.edges.contains (source, target) then g
  else { g with edges := g.edges ++ [(source, target)] }

/-- Lets what is known of a value flow to a place. -/
def flow (g : FlowGraph) (from' : Sources) (target : Slot) : FlowGraph :=
  let g := from'.slots.foldl (fun g source => g.addEdge source target) g
  { g with seeds := g.seeds ++ from'.types.map fun t => (target, t) }

/-- The values of a function and the places to which they flow directly, calls aside. -/
def localFlows (p : Program) (number : Nat) (f : Function) : List (Expr × Slot) :=
  let body := f.decl.body
  let stores := body.fieldStores.filterMap fun store =>
    match p.staticType f store.base with
    | .named owner => some (store.value, Slot.field (p.ownerOf owner store.field) store.field)
    | _ => none
  let inits := body.fieldInits.map fun init =>
    (init.value, Slot.field (p.ownerOf init.type init.field) init.field)
  stores ++ inits ++ body.returns.map fun value => (value, Slot.result number)

/-- The arguments and the receiver of a call, and the places in a callee to which they flow. -/
def callFlows (callee : Nat) (g : Function) (site : CallSite) : List (Expr × Slot) :=
  let args := (g.decl.params.zip site.args).filterMap fun (param, arg) =>
    param.name.map fun name => (arg, Slot.variable callee name)
  let receiver := match site.callee, g.decl.receiver.bind (·.var) with
    | .method value _, some var => [(value, Slot.variable callee var)]
    | _, _ => []
  args ++ receiver

/-- Adds the flows of values to places. -/
def addFlows (p : Program) (number : Nat) (f : Function) (targets : List (List Nat)) :
    List (Expr × Slot) → FlowGraph → Budgeted FlowGraph
  | [], g => return g
  | (value, target) :: flows, g => do
    let known ← sources p number f targets value
    addFlows p number f targets flows (g.flow known target)

/-- The variables of a function that hold a value of their declared type from the start. -/
def declaredSeeds (p : Program) (number : Nat) (f : Function) : List (Slot × TypeRef) :=
  (f.decl.body.declared.filter fun (_, t) => !p.isInterface t).map fun (name, t) =>
    (.variable number name, t)

/-- The flows of all calls of a function. -/
def allCallFlows (p : Program) (f : Function) (targets : List (List Nat)) :
    Budgeted (List (Expr × Slot)) := do
  let flows ← (f.decl.body.calls.zip targets).mapM fun (site, callees) =>
    callees.mapM fun callee => do
      let g ← element p.functions callee
      return callFlows callee g site
  return flows.flatten.flatten

/-- Adds all flows of a function. -/
def addFunction (p : Program) (number : Nat) (f : Function) (targets : List (List Nat))
    (g : FlowGraph) : Budgeted FlowGraph := do
  let assigns := f.decl.body.assigns.map fun (name, value) => (value, Slot.variable number name)
  let g ← addFlows p number f targets assigns g
  let g := { g with seeds := g.seeds ++ declaredSeeds p number f }
  let g ← addFlows p number f targets (localFlows p number f) g
  addFlows p number f targets (← allCallFlows p f targets) g

/-- Adds all flows of functions with their numbers and the targets of their calls; every function
costs a step. -/
def addFunctions (p : Program) : List ((Function × List (List Nat)) × Nat) → FlowGraph →
    Budgeted FlowGraph
  | [], g => return g
  | ((f, targets), number) :: rest, g => do
    tick
    addFunctions p rest (← addFunction p number f targets g)

/-- The places to which a place flows directly. -/
def successors (g : FlowGraph) (s : Slot) : List Slot :=
  (g.edges.filter fun (source, _) => source == s).map (·.2)

/-- The types known to arrive at places. -/
abbrev Arrivals := List (Slot × TypeRef)

/-- Lets a type arrive at the places in the queue and at all places behind them; every arrival costs
a step. -/
def propagateType (g : FlowGraph) (t : TypeRef) :
    (budget : Nat) → List Slot → Arrivals → Except Cause (Arrivals × Nat)
  | budget, [], known => .ok (known, budget)
  | 0, _ :: _, _ => .error .outOfSteps
  | budget + 1, s :: queue, known =>
    if known.contains (s, t) then propagateType g t budget queue known
    else propagateType g t budget (queue ++ g.successors s) ((s, t) :: known)

/-- Lets the types of seeds arrive wherever they flow. -/
def propagate (g : FlowGraph) : List (Slot × TypeRef) → Arrivals → Budgeted Arrivals
  | [], known => return known
  | (s, t) :: seeds, known => do
    let known ← (fun budget => propagateType g t budget [s] known : Budgeted Arrivals)
    propagate g seeds known

/-- The types that a value can have. -/
def typesOf (arrivals : Arrivals) (known : Sources) : List TypeRef :=
  known.types ++ (arrivals.filter fun (s, _) => known.slots.contains s).map (·.2)

/-- The callees of one call. -/
def callees (p : Program) (arrivals : Arrivals) (number : Nat) (f : Function)
    (targets : List (List Nat)) (d : Dispatch) (site : CallSite) (all : List Nat) :
    Budgeted (List Nat) := do
  match d, site.callee with
  | .static callee, _ => return [callee]
  | .external, _ => return []
  | .interface _ method, .method receiver _ | .dynamic method, .method receiver _ =>
    let known ← sources p number f targets receiver
    if known.unmodelled && known.slots.isEmpty && known.types.isEmpty then return all
    else return methodsOf p ((typesOf arrivals known).filter (admits p d)) method
  | .interface _ _, _ | .dynamic _, _ => return []

end FlowGraph

/-- Builds the graph by the flow of types. -/
def buildTypeFlow (p : Program) : Budgeted Resolution := do
  let table := hierarchyTable p
  let numbered := (p.functions.zip table).zipIdx
  let graph ← FlowGraph.addFunctions p numbered {}
  let arrivals ← graph.propagate graph.seeds []
  let edges ← numbered.mapM fun ((f, targets), caller) =>
    ((p.dispatches f).zip (f.decl.body.calls.zip targets)).zipIdx.mapM
      fun ((d, call, all), site) => do
        return edgesTo caller site (← FlowGraph.callees p arrivals caller f targets d call all)
  return { edges := edges.flatten.flatten }

end CallImpact
