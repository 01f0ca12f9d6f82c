import CallImpact.Construct
import CallImpact.Graph
import CallImpact.Module
import CallImpact.Progress

/-!
# Building call graphs

From a directory to the call graph of the module in it: loading, construction with a fallback to
cheaper algorithms, and numbering of the functions that the graph covers. A build reports its
progress whether it succeeds or not.
-/

namespace CallImpact

/-! ## Entry points -/

/-- A function to start from, in any file or in a given one. -/
structure EntryPoint where
  file : Option String
  function : String
  deriving Repr, BEq, DecidableEq, Inhabited

namespace EntryPoint

/-- Reads `file.go:Func` or `Func`. -/
def parse (s : String) : Except String EntryPoint :=
  let s := Text.trim s
  let entry : EntryPoint := match Text.cutLast? ':' s with
    | some (file, function) => ⟨some (Text.trim file), Text.trim function⟩
    | none => ⟨none, s⟩
  if entry.function = "" || entry.file = some "" then
    .error ("invalid entry point '" ++ s ++ "', expected file.go:Func or Func")
  else .ok entry

/-- The written form of an entry point. -/
def text (e : EntryPoint) : String :=
  match e.file with
  | some file => file ++ ":" ++ e.function
  | none => e.function

end EntryPoint

/-- The entry points among texts; the others are left out. -/
def entryPointsOf (texts : List String) : List EntryPoint :=
  texts.filterMap fun s => (EntryPoint.parse s).toOption

/-! ## Options -/

/-- The number of steps that construction may take unless another is set. -/
def standardSteps : Nat := 2000000

/-- How a graph is to be built. -/
structure BuildOptions where
  algorithm : Algorithm := .standard
  entries : List EntryPoint := []
  exclude : List String := []
  allowFallback : Bool := false
  maxSteps : Nat := standardSteps
  deriving Repr, BEq, DecidableEq, Inhabited

/-! ## From resolutions to graphs -/

/-- The functions that start the program, then those among the configured entries that exist and are
not there yet. -/
def resolveEntries (p : Program) (configured : List EntryPoint) : List Nat :=
  configured.foldl (fun entries e =>
    match p.resolveEntry? e.file e.function with
    | some f => if entries.contains f then entries else entries ++ [f]
    | none => entries) p.defaultEntries

/-- The functions that a resolution covers, in order. -/
def Resolution.covered (r : Resolution) (p : Program) : List Nat :=
  r.reachable.getD (List.range p.size)

/-- The node of a function. -/
def nodeOf (f : Function) (id : Nat) : GraphNode :=
  { id
    fullName := f.fullName
    canonicalName := canonicalName f.fullName
    package := f.package
    localName := f.localName
    file := f.file
    lineStart := f.decl.lineStart
    lineEnd := f.decl.lineEnd
    exported := isExported f.name }

/-- The nodes of the functions that a resolution covers, numbered from one. -/
def Resolution.nodes (r : Resolution) (p : Program) : List GraphNode :=
  (r.covered p).zipIdx.filterMap fun (f, i) => (p.functions[f]?).map fun fn => nodeOf fn (i + 1)

/-- The number of a function among the covered ones, counted from one. -/
def nodeId? (covered : List Nat) (f : Nat) : Option Nat :=
  (covered.idxOf? f).map (· + 1)

/-- The edge of a resolved call; none when one of its ends is not covered. -/
def graphEdge? (p : Program) (covered : List Nat) (e : Edge) : Option GraphEdge := do
  let caller ← nodeId? covered e.caller
  let callee ← nodeId? covered e.callee
  let f ← p.functions[e.caller]?
  let site ← f.decl.body.calls[e.site]?
  return { caller, callee, file := f.file, line := site.line }

/-- The edges between covered functions, in order. -/
def Resolution.graphEdges (r : Resolution) (p : Program) : List GraphEdge :=
  r.edges.filterMap (graphEdge? p (r.covered p))

/-- The graph of a program from what an attempt found. -/
def Attempted.graph (a : Attempted) (p : Program) (requested : Algorithm) : BuiltGraph :=
  { modulePath := p.modulePath
    requested
    actual := a.algorithm
    fallback := a.failure.isSome
    fallbackReason := a.failure.map Failure.message
    nodes := a.resolution.nodes p
    edges := a.resolution.graphEdges p }

/-- Builds the graph of a loaded program. -/
def Program.build (p : Program) (options : BuildOptions) : Except Failure BuiltGraph :=
  (constructWithFallback p options.algorithm (resolveEntries p options.entries) options.maxSteps
    options.allowFallback).map fun a => a.graph p options.algorithm

/-! ## Builds with progress -/

/-- Builds the graph of the module in a directory. `shown` is the directory as it is written in
messages. -/
def buildGraph (shown : String) (root : Option (FileTree Content)) (options : BuildOptions) :
    List Progress × Except GraphError BuiltGraph :=
  let loading : List Progress := [⟨0, "Loading packages"⟩]
  match loadProgram shown root options.exclude with
  | .error e => (loading, .error e)
  | .ok p =>
    let building := loading ++
      [⟨40, "Loaded " ++ toString p.size ++ " functions from " ++ p.modulePath⟩,
       ⟨45, "Building call graph (" ++ options.algorithm.label ++ ")"⟩]
    match p.build options with
    | .error failure => (building, .error (.algorithm failure))
    | .ok g => (building ++ [⟨80, "Extracting nodes and edges"⟩, ⟨100, "Done"⟩], .ok g)

/-- Builds the graph of the module in what has to be a directory, as a part of a larger operation
that leaves the stretch from `start` to `stop` to it. -/
def buildWithin (shown : String) (root : Option (FileTree Content)) (options : BuildOptions)
    (start stop : Nat) : List Progress × Except Error BuiltGraph :=
  if root.any FileTree.isDir then
    let (progress, result) := buildGraph shown root options
    (progress.map (Progress.scale start stop), result.mapError Error.ofGraph)
  else ([], .error (.inputInvalid (shown ++ " is not a directory")))

end CallImpact
