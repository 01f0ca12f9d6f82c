import CallImpact.Proofs.Construct.Bounds
import CallImpact.Proofs.Construct.Reach
import CallImpact.Proofs.Snapshot.Writing
import CallImpact.Proofs.Spans

/-!
# Graphs of resolutions

A construction that works out finds edges between functions that it covers (`isWhole_of_construct`).
So nothing is lost when the functions are numbered: there is one node for each covered function
(`IsWhole.nodes`, `IsWhole.ids`) and one edge for each resolved call (`IsWhole.graphEdges`). Such a
graph satisfies what a snapshot asks of nodes and edges (`write_of_build`), and is read back call by
call (`stored_as_resolved`).
-/

namespace CallImpact

open Snapshot (Direction Neighbour Increasing)

/-! ## Whole resolutions -/

/-- Whether a resolution is about functions and calls of a program, and no edge leaves what it
covers. -/
structure IsWhole (p : Program) (r : Resolution) : Prop extends InBounds p r where
  increasing : (r.covered p).Pairwise (· < ·)
  ends : ∀ e ∈ r.edges, e.caller ∈ r.covered p ∧ e.callee ∈ r.covered p

section
variable {p : Program} {r : Resolution} {algorithm : Algorithm} {entries : List Nat}
  {maxSteps : Nat}

/-- A resolution in bounds that covers all functions is whole. -/
theorem InBounds.isWhole (h : InBounds p r) (hr : r.reachable = none) : IsWhole p r := by
  have hcovered : r.covered p = List.range p.size := by rw [Resolution.covered, hr]; rfl
  refine { h with increasing := hcovered ▸ List.pairwise_lt_range, ends := fun e he => ?_ }
  obtain ⟨f, hf, -⟩ := h.site e he
  rw [hcovered, List.mem_range, List.mem_range]
  exact ⟨(List.getElem?_eq_some_iff.mp hf).1, h.callee e he⟩

/-- What rapid type analysis finds from entries in range is whole. -/
theorem isWhole_of_rapid (hentries : ∀ n ∈ entries, n < p.size)
    (h : construct p .rapid entries maxSteps = .ok r) : IsWhole p r := by
  have hrun := run_of_construct h
  obtain ⟨covered, hcovered, hbound, hsub, -⟩ :=
    (buildRapid_ensures IsOrderly (.inl rfl) (.inr rfl) p entries (.inl hentries)).of_run hrun
  obtain ⟨covered', hcovered', hincreasing, hends⟩ := (buildRapid_closed p entries).of_run hrun
  obtain rfl : covered' = covered := Option.some.inj (hcovered'.symm.trans hcovered)
  have heq : r.covered p = covered' := by rw [Resolution.covered, hcovered]; rfl
  refine { InBounds.of_sublist (fun n hn => ?_) hsub with
    increasing := heq ▸ hincreasing, ends := heq ▸ hends }
  rcases hbound with hbound | hbound
  · exact hbound n (heq ▸ hn)
  · rcases hbound 0 0 with h | h <;> cases h

/-- What a construction finds from entries in range is whole, whatever facts the program has. -/
theorem isWhole_of_construct (hentries : ∀ n ∈ entries, n < p.size)
    (h : construct p algorithm entries maxSteps = .ok r) : IsWhole p r := by
  have hnone : algorithm ≠ .rapid → r.edges.Sublist
      (edgesOf ((dispatchTable p).map (List.map (hierarchyTargets p)))) → IsWhole p r := by
    intro hne hsub
    have hr := reachable_of_construct h hne
    exact (InBounds.of_sublist (lt_size_of_mem_covered hr) hsub).isWhole hr
  cases algorithm with
  | direct => exact hnone nofun (edges_direct h ▸ directEdges_sublist p)
  | hierarchy => exact hnone nofun (edges_hierarchy h ▸ List.Sublist.refl _)
  | typeFlow => exact hnone nofun (edges_typeFlow h).2
  | rapid => exact isWhole_of_rapid hentries h

end

/-! ## Nodes and edges -/

/-- Whether a node is that of a function, under the number of its place among the covered ones,
counted from one. -/
def IsNodeOf (p : Program) (covered : List Nat) (f : Nat) (n : GraphNode) : Prop :=
  ∃ i function, covered[i]? = some f ∧ p.functions[f]? = some function ∧ n = nodeOf function (i + 1)

/-- Whether a file and a line are those of a call. -/
def StandsAt (p : Program) (e : Edge) (file : String) (line : Nat) : Prop :=
  ∃ function call, p.functions[e.caller]? = some function ∧
    function.decl.body.calls[e.site]? = some call ∧ file = function.file ∧ line = call.line

/-- Whether an edge of a graph is that of a resolved call. -/
structure IsEdgeOf (p : Program) (covered : List Nat) (e : Edge) (g : GraphEdge) : Prop where
  caller : ∃ i : Nat, covered[i]? = some e.caller ∧ g.caller = ↑(i + 1)
  callee : ∃ i : Nat, covered[i]? = some e.callee ∧ g.callee = ↑(i + 1)
  site : StandsAt p e g.file g.line

/-- The end of a resolved call where a walk starts. -/
def Edge.source (d : Direction) (e : Edge) : Nat :=
  match d with
  | .callers => e.callee
  | .callees => e.caller

/-- The end of a resolved call where a walk arrives. -/
def Edge.target (d : Direction) (e : Edge) : Nat :=
  match d with
  | .callers => e.caller
  | .callees => e.callee

/-- Whether a neighbour is the function at the other end of a resolved call, with the place of the
call. -/
def IsNeighbourOf (p : Program) (covered : List Nat) (d : Direction) (e : Edge) (n : Neighbour) :
    Prop :=
  IsNodeOf p covered (e.target d) n.node ∧ StandsAt p e n.file n.line

/-- The number of a covered function is one more than its place among the covered ones. -/
theorem nodeId?_eq_some {covered : List Nat} {f id : Nat} (h : nodeId? covered f = some id) :
    ∃ i, covered[i]? = some f ∧ id = i + 1 := by
  obtain ⟨i, hi, rfl⟩ := Option.map_eq_some_iff.mp h
  obtain ⟨hlt, hget, -⟩ := List.idxOf?_eq_some_iff.mp hi
  exact ⟨i, by rw [List.getElem?_eq_getElem hlt, hget], rfl⟩

/-- What becomes of a resolved call is its edge. -/
theorem isEdgeOf_of_graphEdge? {p : Program} {covered : List Nat} {e : Edge} {g : GraphEdge}
    (h : graphEdge? p covered e = some g) : IsEdgeOf p covered e g := by
  unfold graphEdge? at h
  obtain ⟨caller, hcaller, h⟩ := Option.bind_eq_some_iff.mp h
  obtain ⟨callee, hcallee, h⟩ := Option.bind_eq_some_iff.mp h
  obtain ⟨function, hfunction, h⟩ := Option.bind_eq_some_iff.mp h
  obtain ⟨call, hcall, h⟩ := Option.bind_eq_some_iff.mp h
  cases h
  obtain ⟨i, hi, rfl⟩ := nodeId?_eq_some hcaller
  obtain ⟨j, hj, rfl⟩ := nodeId?_eq_some hcallee
  exact ⟨⟨i, hi, rfl⟩, ⟨j, hj, rfl⟩, function, call, hfunction, hcall, rfl, rfl⟩

namespace IsEdgeOf

variable {p : Program} {covered : List Nat} {e : Edge} {g : GraphEdge}

/-- The ends of an edge are numbers of covered functions, whichever way it is followed. -/
theorem source (h : IsEdgeOf p covered e g) (d : Direction) :
    ∃ i : Nat, covered[i]? = some (e.source d) ∧ d.source g = ↑(i + 1) := by
  cases d with
  | callers => exact h.callee
  | callees => exact h.caller

/-- The end of a stored edge in either direction is the number of the function that the resolved
edge has there. -/
theorem target (h : IsEdgeOf p covered e g) (d : Direction) :
    ∃ i : Nat, covered[i]? = some (e.target d) ∧ d.target g = ↑(i + 1) := by
  cases d with
  | callers => exact h.caller
  | callees => exact h.callee

/-- As no function is covered twice, an edge starts at the number of a function when its call starts
at the function. -/
theorem source_iff (h : IsEdgeOf p covered e g) (hnodup : covered.Nodup) {d : Direction} {k f : Nat}
    (hk : covered[k]? = some f) : e.source d == f ↔ d.source g == ↑(k + 1) := by
  obtain ⟨i, hi, hid⟩ := h.source d
  have hlt : i < covered.length := (List.getElem?_eq_some_iff.mp hi).1
  rw [beq_iff_eq, beq_iff_eq, hid, Int.ofNat_inj, Nat.add_right_cancel_iff]
  constructor
  · intro hf
    exact (List.getElem?_inj hlt hnodup).mp (by rw [hi, hk, hf])
  · rintro rfl
    exact Option.some.inj (hi.symm.trans hk)

end IsEdgeOf

namespace IsWhole

variable {p : Program} {r : Resolution}

/-- Every covered function has its node, under the number of its place. -/
theorem nodes_zipIdx (h : IsWhole p r) :
    List.Forall₂ (fun (x : Nat × Nat) n => n.id = ↑(x.2 + 1) ∧ IsNodeOf p (r.covered p) x.1 n)
      (r.covered p).zipIdx (r.nodes p) := by
  have hall : List.Forall₂ (fun (x : Nat × Nat) n => n.id = ↑(x.2 + 1) ∧
      IsNodeOf p (r.covered p) x.1 n) ((r.covered p).zipIdx.filterMap some) (r.nodes p) := by
    refine forall₂_filterMap fun x hx => ?_
    obtain ⟨f, i⟩ := x
    have hlt : f < p.functions.length := h.covered f (List.fst_mem_of_mem_zipIdx hx)
    have hget : p.functions[f]? = some p.functions[f] := List.getElem?_eq_getElem hlt
    refine .inr ⟨(f, i), nodeOf p.functions[f] (i + 1), rfl, ?_, rfl, ?_⟩
    · dsimp only
      rw [hget]
      rfl
    · exact ⟨i, _, List.mem_zipIdx_iff_getElem?.mp hx, hget, rfl⟩
  rwa [List.filterMap_some] at hall

/-- There is one node for each covered function, in the order of the functions. -/
theorem nodes (h : IsWhole p r) :
    List.Forall₂ (IsNodeOf p (r.covered p)) (r.covered p) (r.nodes p) := by
  have hfst : List.Forall₂ (IsNodeOf p (r.covered p)) ((r.covered p).zipIdx.map Prod.fst)
      (r.nodes p) :=
    List.forall₂_map_left_iff.mpr (h.nodes_zipIdx.imp fun _ _ hx => hx.2)
  rwa [List.zipIdx_map_fst] at hfst

/-- The numbers of the nodes are counted from one. -/
theorem ids (h : IsWhole p r) :
    (r.nodes p).map (·.id) = (List.range' 1 (r.covered p).length).map Int.ofNat := by
  have hids : List.Forall₂ (· = ·) ((r.covered p).zipIdx.map fun x => Int.ofNat (x.2 + 1))
      ((r.nodes p).map (·.id)) := by
    rw [List.forall₂_map_left_iff, List.forall₂_map_right_iff]
    exact h.nodes_zipIdx.imp fun _ _ hx => hx.1.symm
  have hsnd : (r.covered p).zipIdx.map (fun x => Int.ofNat (x.2 + 1)) =
      (((r.covered p).zipIdx.map Prod.snd).map (1 + ·)).map Int.ofNat := by
    rw [List.map_map, List.map_map]
    exact List.map_congr_left fun x _ => congrArg Int.ofNat (Nat.add_comm x.2 1)
  rw [List.forall₂_eq_eq_eq] at hids
  rw [← hids, hsnd, List.zipIdx_map_snd, List.map_add_range', Nat.add_zero]

/-- The nodes of a resolved graph are in increasing order of their numbers. -/
theorem increasing_nodes (h : IsWhole p r) : Increasing (r.nodes p) := by
  have hids : ((r.nodes p).map (·.id)).Pairwise (· < ·) := by
    rw [h.ids, List.pairwise_map]
    exact (List.pairwise_lt_range' 1).imp fun hab => Int.ofNat_lt.mpr hab
  exact List.pairwise_map.mp hids

/-- The number of a covered function is that of its node. -/
theorem exists_node (h : IsWhole p r) {i f : Nat} (hi : (r.covered p)[i]? = some f) :
    ∃ n ∈ r.nodes p, n.id = ↑(i + 1) ∧ IsNodeOf p (r.covered p) f n := by
  have hlt : f < p.functions.length := h.covered f (List.mem_of_getElem? hi)
  have hget : p.functions[f]? = some p.functions[f] := List.getElem?_eq_getElem hlt
  refine ⟨nodeOf p.functions[f] (i + 1), List.mem_filterMap.mpr ⟨(f, i), ?_, ?_⟩, rfl, i, _, hi,
    hget, rfl⟩
  · exact List.mem_zipIdx_iff_getElem?.mpr hi
  · dsimp only
    rw [hget]
    rfl

/-- Every resolved call has its edge. -/
theorem graphEdges (h : IsWhole p r) :
    List.Forall₂ (IsEdgeOf p (r.covered p)) r.edges (r.graphEdges p) := by
  have hall : List.Forall₂ (IsEdgeOf p (r.covered p)) (r.edges.filterMap some)
      (r.graphEdges p) := by
    refine forall₂_filterMap fun e he => ?_
    obtain ⟨hcaller, hcallee⟩ := h.ends e he
    obtain ⟨g, hg⟩ := Option.isSome_iff_exists.mp
      (h.toInBounds.isSome_graphEdge? he hcaller hcallee)
    exact .inr ⟨e, g, rfl, hg, isEdgeOf_of_graphEdge? hg⟩
  rwa [List.filterMap_some] at hall

/-! ## Storing -/

/-- Both ends of an edge are nodes. -/
theorem joinsNodes (h : IsWhole p r) {s : Snapshot} (hs : s.nodes = r.nodes p) {g : GraphEdge}
    (hg : g ∈ r.graphEdges p) : s.joinsNodes g := by
  obtain ⟨e, -, he⟩ := exists_of_forall₂ h.graphEdges hg
  have hnode : ∀ {i f : Nat} {id : Int}, (r.covered p)[i]? = some f → id = ↑(i + 1) →
      s.hasNode id := by
    intro i f id hi hid
    obtain ⟨n, hn, hnid, -⟩ := h.exists_node hi
    exact List.any_eq_true.mpr ⟨n, hs ▸ hn, by rw [hnid, hid, beq_self_eq_true]⟩
  obtain ⟨i, hi, hcaller⟩ := he.caller
  obtain ⟨j, hj, hcallee⟩ := he.callee
  exact Bool.and_eq_true_iff.mpr ⟨hnode hi hcaller, hnode hj hcallee⟩

/-- The nodes and edges of a whole resolution go into a fresh snapshot as they are. -/
theorem write (h : IsWhole p r) :
    ({} : Snapshot).writeNodes (r.nodes p) = .ok { nodes := r.nodes p } ∧
      ({ nodes := r.nodes p } : Snapshot).writeEdges (r.graphEdges p) =
        .ok { nodes := r.nodes p, edges := r.graphEdges p } :=
  ⟨Snapshot.writeNodes_of_increasing h.increasing_nodes,
    Snapshot.writeEdges_eq_ok_iff.mpr ⟨fun _ hg => h.joinsNodes rfl hg, rfl⟩⟩

/-- The neighbours of a covered function are the other ends of its calls, one for each call. -/
theorem neighbours (h : IsWhole p r) {s : Snapshot} (hnodes : s.nodes = r.nodes p)
    (hedges : s.edges = r.graphEdges p) {k f : Nat} (hk : (r.covered p)[k]? = some f)
    (d : Direction) :
    List.Forall₂ (IsNeighbourOf p (r.covered p) d) (r.edges.filter fun e => e.source d == f)
      (s.neighbours d ↑(k + 1)) := by
  have hnodup : (r.covered p).Nodup := h.increasing.imp Nat.ne_of_lt
  have hsome : ∀ {e : Edge} {g : GraphEdge}, IsEdgeOf p (r.covered p) e g →
      Option.Rel (IsNeighbourOf p (r.covered p) d) (some e)
        ((s.node? (d.target g)).map fun node => { node, file := g.file, line := g.line }) := by
    intro e g hg
    obtain ⟨i, hi, hid⟩ := hg.target d
    obtain ⟨n, hn, hnid, hnode⟩ := h.exists_node hi
    have hfound : s.node? (d.target g) = some n := by
      rw [hid, ← hnid]
      exact Snapshot.node?_of_mem (hnodes ▸ h.increasing_nodes) (hnodes ▸ hn)
    rw [hfound]
    exact .some ⟨hnode, hg.site⟩
  have hfiltered : List.Forall₂ (IsEdgeOf p (r.covered p))
      (r.edges.filter fun e => e.source d == f)
      (s.edges.filter fun g => d.source g == ↑(k + 1)) :=
    List.rel_filter (fun _ _ hg => hg.source_iff hnodup hk) (hedges ▸ h.graphEdges)
  have hall := List.rel_filterMap (fun _ _ hg => hsome hg) hfiltered
  rwa [List.filterMap_some] at hall

end IsWhole

/-- The nodes and edges of a graph that was built go into a fresh snapshot as they are. -/
theorem write_of_build {p : Program} {options : BuildOptions} {g : BuiltGraph}
    (h : p.build options = .ok g) :
    ({} : Snapshot).writeNodes g.nodes = .ok { nodes := g.nodes } ∧
      ({ nodes := g.nodes } : Snapshot).writeEdges g.edges =
        .ok { nodes := g.nodes, edges := g.edges } := by
  obtain ⟨r, hr, hnodes, hedges⟩ := Program.build_ok h
  rw [hnodes, hedges]
  exact (isWhole_of_construct (lt_size_of_mem_resolveEntries p options.entries) hr).write

/-- Whatever the program, the algorithm and the number of steps: the graph of an attempt that works
out has one node for each covered function, numbered from one in the order of the functions, and one
edge for each resolved call, in the order of the calls. A fresh snapshot takes both as they are, and
the callers and callees of a node that it then lists are those of the calls into and out of the
function of the node, one for each call and in order. -/
theorem stored_as_resolved {p : Program} {algorithm : Algorithm} {entries : List Nat}
    {maxSteps : Nat} {allowFallback : Bool} {a : Attempted}
    (hentries : ∀ n ∈ entries, n < p.size)
    (h : constructWithFallback p algorithm entries maxSteps allowFallback = .ok a) :
    let covered := a.resolution.covered p
    let g := a.graph p algorithm
    (a.algorithm ≠ .rapid → covered = List.range p.size) ∧
    (a.algorithm = .rapid → a.resolution.reachable = some covered) ∧
    covered.Pairwise (· < ·) ∧
    g.nodes.map (·.id) = (List.range' 1 covered.length).map Int.ofNat ∧
    List.Forall₂ (IsNodeOf p covered) covered g.nodes ∧
    List.Forall₂ (IsEdgeOf p covered) a.resolution.edges g.edges ∧
    ∃ stored, (({} : Snapshot).writeNodes g.nodes >>= fun s => s.writeEdges g.edges) = .ok stored ∧
      stored.nodes = g.nodes ∧ stored.nodes.length = covered.length ∧
      stored.edges = g.edges ∧ stored.edges.length = a.resolution.edges.length ∧
      ∀ (k f : Nat), covered[k]? = some f → ∀ d, List.Forall₂ (IsNeighbourOf p covered d)
        (a.resolution.edges.filter fun e => e.source d == f) (stored.neighbours d ↑(k + 1)) := by
  have hconstruct := construct_of_attempted h
  have hwhole := isWhole_of_construct hentries hconstruct
  refine ⟨fun hne => ?_, fun hrapid => ?_, hwhole.increasing, hwhole.ids, hwhole.nodes,
    hwhole.graphEdges, ?_⟩
  · rw [Resolution.covered, reachable_of_construct hconstruct hne]
    rfl
  · rw [hrapid] at hconstruct
    obtain ⟨covered, hcovered, -⟩ := edges_rapid hconstruct
    rw [Resolution.covered, hcovered]
    rfl
  · obtain ⟨hnodes, hedges⟩ := hwhole.write
    refine ⟨{ nodes := a.resolution.nodes p, edges := a.resolution.graphEdges p }, ?_, rfl,
      hwhole.nodes.length_eq.symm, rfl, hwhole.graphEdges.length_eq.symm,
      fun k f hk d => hwhole.neighbours rfl rfl hk d⟩
    change (({} : Snapshot).writeNodes (a.resolution.nodes p) >>=
      fun s => s.writeEdges (a.resolution.graphEdges p)) = _
    rw [hnodes]
    exact hedges

/-- A function that nothing calls, before one that calls the last. -/
def idleFirst : Program :=
  let function (name : String) (line : Nat) (calls : List CallSite) : Function :=
    { package := "m", packageName := "", file := "x.go"
      decl := { name, lineStart := line, lineEnd := line, body := { calls } } }
  { modulePath := "m"
    functions := [function "idle" 1 [], function "main" 2 [⟨2, .ident "help", []⟩],
      function "help" 3 []]
    types := [] }

/-- What rapid type analysis finds there, which leaves the first function out. -/
def idleLeftOut : Attempted :=
  { algorithm := .rapid
    resolution := { edges := [⟨1, 0, 2⟩], reachable := some [1, 2] }
    failure := none }

/-- The case of a program whose first function is never called and so is left out. -/
theorem stored_as_resolved_idleFirst :
    constructWithFallback idleFirst .rapid [1] 10 false = .ok idleLeftOut ∧
      (idleLeftOut.graph idleFirst .rapid).nodes.map (·.id) = [1, 2] ∧
      List.Forall₂ (IsEdgeOf idleFirst [1, 2]) [⟨1, 0, 2⟩]
        (idleLeftOut.graph idleFirst .rapid).edges := by
  have hfound : constructWithFallback idleFirst .rapid [1] 10 false = .ok idleLeftOut := by cbv
  obtain ⟨-, -, -, hids, -, hedges, -⟩ := stored_as_resolved (by decide) hfound
  exact ⟨hfound, hids, hedges⟩

end CallImpact
