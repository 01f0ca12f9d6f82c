import CallImpact.Proofs.Snapshot.Walk
import CallImpact.Proofs.Snapshot.Writing

/-!
# Writes in transactions

A batch is not written at once: each of its rows is a statement of its own, and a statement may
fail, because it breaks a key or for a reason of its own (`Faults`), when others have changed the
tables already. A call that fails drops its transaction, which brings back the tables as they were
when it began (`Connection.rollBack`), so it leaves them unchanged, and a call that works leaves
just what the batch as a whole leaves (`perform_cases`). After any calls on a fresh snapshot the
tables hold the batches of those that worked and nothing else (`IsWrittenBy`, kept by one batch in
`IsWrittenBy.apply` and by all calls in `isWrittenBy_performAll`). What is read from them follows
(`writes_exact`).
-/

namespace CallImpact.Snapshot

/-! ## Statements and transactions -/

/-- A row that one statement writes. -/
inductive Row where
  | node (n : GraphNode)
  | edge (e : GraphEdge)
  | text (key value : String)
  deriving Repr, DecidableEq

/-- Enters a row into the tables, where the declared keys allow it. -/
def Row.enter (s : Snapshot) : Row → Except StoreError Snapshot
  | .node n => s.writeNodes [n]
  | .edge e => s.writeEdges [e]
  | .text key value => .ok (s.setText key value)

/-- A call that writes into a snapshot. -/
inductive Write where
  | nodes (batch : List GraphNode)
  | edges (batch : List GraphEdge)
  | text (key value : String)
  deriving Repr, DecidableEq

namespace Write

/-- What a call comes to as a whole. -/
def apply (s : Snapshot) : Write → Except StoreError Snapshot
  | .nodes batch => s.writeNodes batch
  | .edges batch => s.writeEdges batch
  | .text key value => .ok (s.setText key value)

/-- The rows of a call, in the order of its statements. -/
def rows : Write → List Row
  | .nodes batch => batch.map .node
  | .edges batch => batch.map .edge
  | .text key value => [.text key value]

/-- The nodes that a call writes. -/
def newNodes : Write → List GraphNode
  | .nodes batch => batch
  | .edges _ => []
  | .text _ _ => []

/-- The edges that a call writes. -/
def newEdges : Write → List GraphEdge
  | .nodes _ => []
  | .edges batch => batch
  | .text _ _ => []

end Write

/-- What makes a call fail besides the keys, by the number of statements that were executed before;
after the last one it is the commit that fails. -/
abbrev Faults := Nat → Option StoreError

/-- A connection: the tables as its statements see them, and those that come back when the
transaction that is open is dropped. -/
structure Connection where
  tables : Snapshot := {}
  before : Option Snapshot := none
  deriving Repr, DecidableEq

namespace Connection

def start (c : Connection) : Connection :=
  { c with before := some c.tables }

def commit (c : Connection) : Connection :=
  { c with before := none }

def rollBack (c : Connection) : Connection :=
  { tables := c.before.getD c.tables }

/-- Executes statements up to the first that fails. The tables keep what was entered so far. -/
def execute (faults : Faults) : (executed : Nat) → List Row → Connection →
    Connection × Option StoreError
  | executed, [], c => (c, faults executed)
  | executed, row :: rest, c =>
    match faults executed with
    | some e => (c, some e)
    | none =>
      match row.enter c.tables with
      | .error e => (c, some e)
      | .ok tables => execute faults (executed + 1) rest { c with tables }

/-- One call, in a transaction of its own that is dropped where it fails. -/
def perform (c : Connection) (w : Write) (faults : Faults) : Connection × Option StoreError :=
  match execute faults 0 w.rows c.start with
  | (c', none) => (c'.commit, none)
  | (c', some e) => (c'.rollBack, some e)

end Connection

/-- One more call, which is noted among those that were done when it works. -/
def note (state : Connection × List Write) (call : Write × Faults) : Connection × List Write :=
  let (c, error) := state.1.perform call.1 call.2
  (c, if error.isSome then state.2 else state.2 ++ [call.1])

/-- A connection to a fresh snapshot after calls one after the other, and those of them that
worked. -/
def performAll (calls : List (Write × Faults)) : Connection × List Write :=
  calls.foldl note ({}, [])

/-! ## A call as a whole -/

/-- Nodes are written as one batch or one by one. -/
theorem writeNodes_cons (s : Snapshot) (n : GraphNode) (rest : List GraphNode) :
    s.writeNodes (n :: rest) = s.writeNodes [n] >>= fun s' => s'.writeNodes rest := by
  simp only [writeNodes, List.foldlM_cons, List.foldlM_nil, bind_pure]
  cases insertNode? n s.nodes with
  | none => rfl
  | some all => rfl

/-- Edges are written as one batch or one by one. -/
theorem writeEdges_cons (s : Snapshot) (e : GraphEdge) (rest : List GraphEdge) :
    s.writeEdges (e :: rest) = s.writeEdges [e] >>= fun s' => s'.writeEdges rest := by
  by_cases he : s.joinsNodes e
  · have hone : s.writeEdges [e] = .ok { s with edges := s.edges ++ [e] } :=
      writeEdges_eq_ok_iff.mpr ⟨by simpa using he, rfl⟩
    -- an edge that is written does not change which others join nodes
    have hjoins : joinsNodes { s with edges := s.edges ++ [e] } = s.joinsNodes := rfl
    rw [hone]
    change _ = writeEdges { s with edges := s.edges ++ [e] } rest
    simp only [writeEdges, hjoins, List.all_cons, he, Bool.true_and, List.append_assoc,
      List.singleton_append]
  · simp only [writeEdges, List.all_cons, he, Bool.false_and, Bool.false_eq_true, if_false]
    rfl

/-- The rows of a call, entered one by one, come to the call as a whole. -/
theorem foldlM_rows (w : Write) (s : Snapshot) : w.rows.foldlM Row.enter s = w.apply s := by
  cases w with
  | nodes batch =>
    change (batch.map Row.node).foldlM Row.enter s = s.writeNodes batch
    induction batch generalizing s with
    | nil => rfl
    | cons n rest ih =>
      rw [writeNodes_cons, List.map_cons, List.foldlM_cons]
      exact bind_congr ih
  | edges batch =>
    change (batch.map Row.edge).foldlM Row.enter s = s.writeEdges batch
    induction batch generalizing s with
    | nil => simp [writeEdges, pure, Except.pure]
    | cons e rest ih =>
      rw [writeEdges_cons, List.map_cons, List.foldlM_cons]
      exact bind_congr ih
  | text key value => rfl

namespace Connection

/-- Statements leave alone what a dropped transaction brings back, and when none of them fails the
rows were entered one by one. -/
theorem execute_cases (faults : Faults) (executed : Nat) (rows : List Row) (c : Connection) :
    (execute faults executed rows c).1.before = c.before ∧
      ((execute faults executed rows c).2 = none →
        rows.foldlM Row.enter c.tables = .ok (execute faults executed rows c).1.tables) := by
  induction rows generalizing executed c with
  | nil => exact ⟨rfl, fun _ => rfl⟩
  | cons row rest ih =>
    rw [execute, List.foldlM_cons]
    cases faults executed with
    | some e => exact ⟨rfl, nofun⟩
    | none =>
      cases row.enter c.tables with
      | error e => exact ⟨rfl, nofun⟩
      | ok tables => exact ih (executed + 1) { c with tables }

/-- Where nothing but the keys makes a statement fail, the error is that of the rows. -/
theorem execute_of_faultless {faults : Faults} (h : ∀ k, faults k = none) (executed : Nat)
    (rows : List Row) (c : Connection) :
    (execute faults executed rows c).2 =
      match rows.foldlM Row.enter c.tables with
      | .ok _ => none
      | .error e => some e := by
  induction rows generalizing executed c with
  | nil => exact h executed
  | cons row rest ih =>
    rw [execute, List.foldlM_cons, h]
    cases row.enter c.tables with
    | error e => rfl
    | ok tables => exact ih (executed + 1) { c with tables }

/-- A call that fails leaves the tables as they are, and one that works leaves what it comes to as a
whole. No transaction stays open. -/
theorem perform_cases (c : Connection) (w : Write) (faults : Faults) :
    (c.perform w faults).1.before = none ∧
      (∀ e, (c.perform w faults).2 = some e → (c.perform w faults).1.tables = c.tables) ∧
      ((c.perform w faults).2 = none → w.apply c.tables = .ok (c.perform w faults).1.tables) := by
  obtain ⟨hbefore, hdone⟩ := execute_cases faults 0 w.rows c.start
  rw [foldlM_rows] at hdone
  unfold perform
  rcases hrun : execute faults 0 w.rows c.start with ⟨c', _ | e⟩
  · rw [hrun] at hdone
    exact ⟨rfl, nofun, fun _ => hdone rfl⟩
  · rw [hrun] at hbefore
    refine ⟨rfl, fun _ _ => ?_, nofun⟩
    -- the transaction began with the tables that the call found
    change c'.before.getD c'.tables = c.tables
    rw [show c'.before = some c.tables from hbefore]
    rfl

/-- Without faults, a write fails only on what it finds in the tables. -/
theorem perform_of_faultless {faults : Faults} (h : ∀ k, faults k = none)
    (c : Connection) (w : Write) :
    (c.perform w faults).2 = match w.apply c.tables with
      | .ok _ => none
      | .error e => some e := by
  have herror := execute_of_faultless h 0 w.rows c.start
  rw [foldlM_rows] at herror
  refine Eq.trans ?_ herror
  unfold perform
  rcases execute faults 0 w.rows c.start with ⟨c', _ | e⟩ <;> rfl

end Connection

/-! ## What was written -/

/-- Whether the tables hold what calls have written, in the order of the calls, and nothing else. -/
structure IsWrittenBy (done : List Write) (s : Snapshot) : Prop where
  increasing : Increasing s.nodes
  nodes : s.nodes.Perm (done.flatMap Write.newNodes)
  edges : s.edges = done.flatMap Write.newEdges
  joined : ∀ e ∈ s.edges, s.joinsNodes e

/-- No writes at all leave an empty snapshot. -/
theorem isWrittenBy_nil : IsWrittenBy [] {} :=
  ⟨.nil, .nil, rfl, nofun⟩

/-- A call that works adds its batch. -/
theorem IsWrittenBy.apply {done : List Write} {s s' : Snapshot} (h : IsWrittenBy done s) {w : Write}
    (hw : w.apply s = .ok s') : IsWrittenBy (done ++ [w]) s' := by
  cases w with
  | nodes batch =>
    have hperm := writeNodes_perm hw
    have hincreasing := writeNodes_increasing hw h.increasing
    obtain ⟨all, -, rfl⟩ := writeNodes_eq_ok_iff.mp hw
    refine ⟨hincreasing, ?_, by simpa [Write.newEdges] using h.edges, fun e he => ?_⟩
    · refine hperm.trans (List.perm_append_comm.trans ?_)
      simpa [Write.newNodes] using h.nodes.append_right batch
    · have hkept : ∀ id ∈ s.nodes.map (·.id), id ∈ all.map (·.id) := fun id hid =>
        (hperm.map _).mem_iff.mpr (by simpa using .inr (List.mem_map.mp hid))
      obtain ⟨hcaller, hcallee⟩ := joinsNodes_iff.mp (h.joined e he)
      exact joinsNodes_iff.mpr ⟨hkept _ hcaller, hkept _ hcallee⟩
  | edges batch =>
    obtain ⟨hjoins, rfl⟩ := writeEdges_eq_ok_iff.mp hw
    refine ⟨h.increasing, by simpa [Write.newNodes] using h.nodes, ?_, fun e he => ?_⟩
    · simp [Write.newEdges, h.edges]
    · exact (List.mem_append.mp he).elim (h.joined e) (hjoins e)
  | text key value =>
    cases hw
    exact ⟨h.increasing, by simpa [Write.newNodes] using h.nodes,
      by simpa [Write.newEdges] using h.edges, h.joined⟩

/-- After any calls no transaction is open and the tables hold what those that worked have
written. -/
theorem isWrittenBy_performAll (calls : List (Write × Faults)) :
    (performAll calls).1.before = none ∧
      IsWrittenBy (performAll calls).2 (performAll calls).1.tables := by
  induction calls using List.reverseRecOn with
  | nil => exact ⟨rfl, isWrittenBy_nil⟩
  | append_singleton calls call ih =>
    have hnext : performAll (calls ++ [call]) = note (performAll calls) call := List.foldl_append
    obtain ⟨hbefore, hfailed, hdone⟩ :=
      Connection.perform_cases (performAll calls).1 call.1 call.2
    rw [hnext, note]
    rcases hrun : (performAll calls).1.perform call.1 call.2 with ⟨c, _ | e⟩
    · rw [hrun] at hbefore hdone
      exact ⟨hbefore, ih.2.apply (hdone rfl)⟩
    · rw [hrun] at hbefore hfailed
      refine ⟨hbefore, ?_⟩
      change IsWrittenBy (performAll calls).2 c.tables
      rw [show c.tables = _ from hfailed e rfl]
      exact ih.2

namespace IsWrittenBy

variable {done : List Write} {s : Snapshot}

/-- What writes leave is well-formed. -/
theorem isWellFormed (h : IsWrittenBy done s) : s.IsWellFormed where
  ids := h.increasing.nodup_ids
  joined := h.joined

/-- There are as many nodes as the writes brought. -/
theorem length_nodes (h : IsWrittenBy done s) :
    s.nodes.length = (done.map fun w => w.newNodes.length).sum := by
  rw [h.nodes.length_eq, List.length_flatMap]

/-- There are as many edges as the writes brought. -/
theorem length_edges (h : IsWrittenBy done s) :
    s.edges.length = (done.map fun w => w.newEdges.length).sum := by
  rw [h.edges, List.length_flatMap]

/-- A number finds the node that was written with it. -/
theorem node?_eq_some_iff (h : IsWrittenBy done s) {id : Int} {n : GraphNode} :
    s.node? id = some n ↔ (∃ w ∈ done, n ∈ w.newNodes) ∧ n.id = id := by
  rw [← List.mem_flatMap, ← h.nodes.mem_iff]
  constructor
  · exact mem_of_node?
  · rintro ⟨hn, rfl⟩
    exact node?_of_mem h.increasing hn

/-- The neighbours of a node are listed as the edges at it were written, one for each. -/
theorem neighbours (h : IsWrittenBy done s) (d : Direction) (id : Int) :
    List.Forall₂ (fun e entry => s.node? (d.target e) = some entry.node ∧ entry.file = e.file ∧
        entry.line = e.line)
      ((done.flatMap Write.newEdges).filter fun e => d.source e == id) (s.neighbours d id) := by
  unfold Snapshot.neighbours
  rw [← h.edges]
  have hnodes : ∀ e ∈ s.edges.filter (fun e => d.source e == id),
      ∃ n, s.node? (d.target e) = some n :=
    fun e he => exists_node_of_hasNode (h.isWellFormed.hasNode (List.mem_of_mem_filter he) d).2
  generalize s.edges.filter (fun e => d.source e == id) = edges at hnodes
  induction edges with
  | nil => exact .nil
  | cons e rest ih =>
    obtain ⟨n, hn⟩ := hnodes e List.mem_cons_self
    rw [List.filterMap_cons_some (by rw [hn]; rfl)]
    exact .cons ⟨hn, rfl, rfl⟩ (ih fun e he => hnodes e (List.mem_cons_of_mem _ he))

end IsWrittenBy

/-- After any calls on a fresh snapshot, of which any may fail at any statement, the tables are
well formed and hold just what the calls that worked have written: there are as many nodes and
edges as in their batches, a number finds the node that was written with it, and the calls of a
function are listed in the order in which they were written, repeated ones too. A further call
that fails changes nothing; one that works does what its batch does as a whole, and it works where
only the keys could prevent that and the batch keeps them. -/
theorem writes_exact (calls : List (Write × Faults)) :
    let c := (performAll calls).1
    let done := (performAll calls).2
    let s := c.tables
    (s.IsWellFormed ∧
      s.nodes.length = (done.map fun w => w.newNodes.length).sum ∧
      s.edges.length = (done.map fun w => w.newEdges.length).sum ∧
      (∀ id n, s.node? id = some n ↔ (∃ w ∈ done, n ∈ w.newNodes) ∧ n.id = id) ∧
      ∀ d id, List.Forall₂ (fun e entry => s.node? (d.target e) = some entry.node ∧
          entry.file = e.file ∧ entry.line = e.line)
        ((done.flatMap Write.newEdges).filter fun e => d.source e == id) (s.neighbours d id)) ∧
    ∀ w faults,
      (∀ e, (c.perform w faults).2 = some e → (c.perform w faults).1 = c) ∧
      ((c.perform w faults).2 = none → w.apply s = .ok (c.perform w faults).1.tables) ∧
      ((∀ k, faults k = none) →
        ((c.perform w faults).2 = none ↔ ∃ s', w.apply s = .ok s')) := by
  intro c done s
  obtain ⟨hopen, h⟩ : c.before = none ∧ IsWrittenBy done s := isWrittenBy_performAll calls
  refine ⟨⟨h.isWellFormed, h.length_nodes, h.length_edges, fun _ _ => h.node?_eq_some_iff,
    h.neighbours⟩, fun w faults => ?_⟩
  obtain ⟨hbefore, hfailed, hdone⟩ := c.perform_cases w faults
  refine ⟨fun e he => ?_, hdone, fun hfaults => ?_⟩
  · have htables := hfailed e he
    exact congrArg₂ Connection.mk htables (hbefore.trans hopen.symm)
  · rw [Connection.perform_of_faultless hfaults]
    cases hw : w.apply s with
    | ok s' => exact iff_of_true rfl ⟨s', rfl⟩
    | error e => exact iff_of_false nofun nofun

/-- Calls of one function by another, one of them written twice, among batches that fail: nodes of
which the second has a number that is taken, an edge to no node, and a node that is not committed.
-/
def interruptedCalls : List (Write × Faults) :=
  let node (id : Int) : GraphNode := { (default : GraphNode) with id }
  let edge (caller callee : Int) (line : Nat) : GraphEdge :=
    { caller, callee, file := "x.go", line }
  [(.nodes [node 1, node 2], fun _ => none), (.nodes [node 3, node 1], fun _ => none),
    (.edges [edge 1 2 4, edge 1 2 7], fun _ => none),
    (.edges [edge 2 1 5, edge 2 9 6], fun _ => none),
    (.nodes [node 3], fun k => if k = 1 then some (.database "disk I/O error") else none),
    (.edges [edge 1 2 4], fun _ => none)]

/-- The case of writes among which three fail, each for a reason of its own. -/
theorem writes_exact_interruptedCalls :
    let c := (performAll interruptedCalls).1
    let node (id : Int) : GraphNode := { (default : GraphNode) with id }
    let edge (line : Nat) : GraphEdge := { caller := 1, callee := 2, file := "x.go", line }
    (performAll interruptedCalls).2 =
        [.nodes [node 1, node 2], .edges [edge 4, edge 7], .edges [edge 4]] ∧
      c.tables.nodes.length = 2 ∧ c.tables.edges.length = 3 ∧ c.tables.node? 2 = some (node 2) ∧
      List.Forall₂ (fun e entry => c.tables.node? e.callee = some entry.node ∧ entry.file = e.file ∧
        entry.line = e.line) [edge 4, edge 7, edge 4] (c.tables.neighbours .callees 1) ∧
      (c.perform (.nodes [node 3, node 1]) fun _ => none).1 = c ∧
      (c.perform (.nodes [node 3]) fun _ => none).2 = none := by
  intro c node edge
  have hdone : (performAll interruptedCalls).2 =
      [.nodes [node 1, node 2], .edges [edge 4, edge 7], .edges [edge 4]] := by rfl
  obtain ⟨⟨-, hnodes, hedges, hnode, hneighbours⟩, hcall⟩ := writes_exact interruptedCalls
  rw [hdone] at hnodes hedges hnode hneighbours
  refine ⟨hdone, hnodes, hedges, (hnode 2 (node 2)).mpr ⟨?_, rfl⟩, hneighbours .callees 1,
    (hcall (.nodes [node 3, node 1]) _).1 _ rfl,
    ((hcall (.nodes [node 3]) _).2.2 fun _ => rfl).mpr ?_⟩
  · exact ⟨_, List.mem_cons_self, by simp [Write.newNodes]⟩
  · exact ⟨_, rfl⟩

end CallImpact.Snapshot
