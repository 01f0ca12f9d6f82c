import CallImpact.Construct.Hierarchy

/-!
# Rapid type analysis

Starting from entry functions, reachable functions and the types they allocate or declare are
collected until neither grows. A dynamic call reaches the methods of collected types only. Each
function that is taken up costs a step, and so does each pair of a dynamic call and a collected type
in every round.
-/

namespace CallImpact

/-- The state of the analysis. -/
structure Rapid where
  /-- Functions found so far, in order. -/
  reachable : List Nat := []
  /-- Types that reachable code allocates or declares, in order. -/
  live : List TypeRef := []
  /-- Dynamic calls of reachable functions. -/
  pending : List (Nat × Nat × Dispatch) := []
  edges : List Edge := []
  /-- Functions found and not yet taken up. -/
  worklist : List Nat := []
  deriving Repr, Inhabited

namespace Rapid

/-- Adds a function, to be taken up unless it was found before. -/
def reach (s : Rapid) (f : Nat) : Rapid :=
  if s.reachable.contains f then s
  else { s with
    reachable := insertOrdered (fun a b => decide (a < b)) f s.reachable
    worklist := s.worklist ++ [f] }

/-- Adds an edge unless it is there. -/
def addEdge (s : Rapid) (e : Edge) : Rapid :=
  if s.edges.contains e then s else { s with edges := s.edges ++ [e] }

/-- Adds a type unless it is there. -/
def addLive (s : Rapid) (t : TypeRef) : Rapid :=
  { s with live := insertOrdered (fun a b => !TypeRef.le b a) t s.live }

/-- Takes up one call of a reachable function. -/
def takeCall (caller : Nat) (s : Rapid) (d : Dispatch) (site : Nat) : Rapid :=
  match d with
  | .static callee => (s.addEdge { caller, site, callee }).reach callee
  | .interface _ _ | .dynamic _ => { s with pending := s.pending ++ [(caller, site, d)] }
  | .external => s

/-- Takes up a function: its types become live and its calls are followed. -/
def takeUp (p : Program) (caller : Nat) (f : Function) (s : Rapid) : Rapid :=
  let s := f.decl.body.allocs.foldl addLive s
  let s := (f.decl.body.declared.map (·.2)).foldl addLive s
  (p.dispatches f).zipIdx.foldl (fun s (d, site) => takeCall caller s d site) s

/-- Takes up waiting functions until none is left; every one costs a step. -/
def drain (p : Program) : (budget : Nat) → Rapid → Except Cause (Rapid × Nat)
  | budget, s@{ worklist := [], .. } => .ok (s, budget)
  | 0, { worklist := _ :: _, .. } => .error .outOfSteps
  | budget + 1, s@{ worklist := f :: rest, .. } =>
    match p.functions[f]? with
    | some function => drain p budget (takeUp p f function { s with worklist := rest })
    | none => .error (.outOfBounds p.size f)

/-- Resolves a dynamic call for one live type, and says whether anything was found anew. -/
def resolveOne (p : Program) (caller site : Nat) (d : Dispatch) (method : String)
    (state : Rapid × Bool) (t : TypeRef) : Rapid × Bool :=
  let (s, grew) := state
  if admits p d t then
    match p.lookupMethod? t method with
    | some callee =>
      let edge : Edge := { caller, site, callee }
      let fresh := !s.edges.contains edge || !s.reachable.contains callee
      ((s.addEdge edge).reach callee, grew || fresh)
    | none => (s, grew)
  else (s, grew)

/-- Resolves a dynamic call for the given types; every type costs a step. -/
def resolveCall (p : Program) (caller site : Nat) (d : Dispatch) (method : String) :
    List TypeRef → Rapid × Bool → Budgeted (Rapid × Bool)
  | [], state => return state
  | t :: types, state => do
    tick
    resolveCall p caller site d method types (resolveOne p caller site d method state t)

/-- Resolves all dynamic calls for all live types, and says whether anything was found anew. -/
def resolvePending (p : Program) (live : List TypeRef) :
    List (Nat × Nat × Dispatch) → Rapid × Bool → Budgeted (Rapid × Bool)
  | [], state => return state
  | (caller, site, d) :: pending, state => do
    match d.method? with
    | some method =>
      resolvePending p live pending (← resolveCall p caller site d method live state)
    | none => resolvePending p live pending state

/-- Alternates between taking up functions and resolving dynamic calls while something new is found.
A round that finds something costs a step at least, so the rounds can be bounded by the budget. -/
def rounds (p : Program) : (bound : Nat) → Rapid → Budgeted Rapid
  | 0, _ => throw .outOfSteps
  | bound + 1, s => do
    let s ← (fun budget => drain p budget s : Budgeted Rapid)
    let (s, grew) ← resolvePending p s.live s.pending (s, false)
    if grew then rounds p bound s else return s

end Rapid

/-- Builds the graph of what can be reached from the entries. -/
def buildRapid (p : Program) (entries : List Nat) : Budgeted Resolution := do
  if entries.isEmpty then throw .noEntryPoint
  let s ← Rapid.rounds p ((← get) + 1) (entries.foldl Rapid.reach {})
  return { edges := s.edges.mergeSort Edge.le, reachable := some s.reachable }

end CallImpact
