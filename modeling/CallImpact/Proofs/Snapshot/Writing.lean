import CallImpact.Snapshot
import Mathlib.Data.List.Basic

/-!
# Writing into a snapshot

What a batch of nodes leaves behind: the nodes that were there and the new ones, in the order of
their numbers (`writeNodes_perm`, `writeNodes_increasing`). Nodes are refused when a number would
occur twice (`writeNodes_error_iff`), edges when an end is no node (`writeEdges_error_iff`). Nodes
that come in order are kept as they come (`writeNodes_of_increasing`). A node is found by its number
(`node?_of_mem`), and a text that was set is read back (`text?_setText`).
-/

namespace CallImpact.Snapshot

/-- Nodes in the order of their numbers, no number twice. -/
def Increasing (nodes : List GraphNode) : Prop :=
  nodes.Pairwise fun a b => a.id < b.id

/-- Increasing numbers are distinct. -/
theorem Increasing.nodup_ids {nodes : List GraphNode} (h : Increasing nodes) :
    (nodes.map (·.id)).Nodup :=
  List.pairwise_map.mpr (h.imp fun hlt => Int.ne_of_lt hlt)

/-! ## One node -/

/-- Inserting a node adds it and keeps the others. -/
theorem perm_of_insertNode? {n : GraphNode} {nodes all : List GraphNode}
    (h : insertNode? n nodes = some all) : all.Perm (n :: nodes) := by
  induction nodes generalizing all with
  | nil =>
    cases h
    rfl
  | cons m rest ih =>
    unfold insertNode? at h
    split at h
    · cases h
      rfl
    · split at h
      · obtain ⟨inner, hin, rfl⟩ := Option.map_eq_some_iff.mp h
        exact ((ih hin).cons m).trans (List.Perm.swap n m rest)
      · cases h

/-- Inserting a node keeps the order of the numbers. -/
theorem Increasing.insertNode? {n : GraphNode} {nodes all : List GraphNode}
    (hs : Increasing nodes) (h : Snapshot.insertNode? n nodes = some all) : Increasing all := by
  induction nodes generalizing all with
  | nil =>
    cases h
    exact List.pairwise_singleton _ _
  | cons m rest ih =>
    obtain ⟨hm, hrest⟩ := List.pairwise_cons.mp hs
    unfold Snapshot.insertNode? at h
    split at h
    · rename_i hlt
      cases h
      refine List.pairwise_cons.mpr ⟨fun x hx => ?_, hs⟩
      rcases List.mem_cons.mp hx with rfl | hx
      · exact hlt
      · exact Int.lt_trans hlt (hm x hx)
    · split at h
      · rename_i hlt
        obtain ⟨inner, hin, rfl⟩ := Option.map_eq_some_iff.mp h
        refine List.pairwise_cons.mpr ⟨fun x hx => ?_, ih hrest hin⟩
        rcases List.mem_cons.mp ((perm_of_insertNode? hin).mem_iff.mp hx) with rfl | hx
        · exact hlt
        · exact hm x hx
      · cases h

/-- A node is inserted exactly where its number is not taken. -/
theorem isSome_insertNode?_iff {n : GraphNode} {nodes : List GraphNode} (hs : Increasing nodes) :
    (Snapshot.insertNode? n nodes).isSome ↔ n.id ∉ nodes.map (·.id) := by
  induction nodes with
  | nil => simp [Snapshot.insertNode?]
  | cons m rest ih =>
    obtain ⟨hm, hrest⟩ := List.pairwise_cons.mp hs
    rw [List.map_cons, List.mem_cons, not_or]
    unfold Snapshot.insertNode?
    split
    · rename_i hlt
      refine iff_of_true rfl ⟨Int.ne_of_lt hlt, fun hmem => ?_⟩
      obtain ⟨x, hx, heq⟩ := List.mem_map.mp hmem
      have := hm x hx
      omega
    · split
      · rw [Option.isSome_map, ih hrest, and_iff_right]
        omega
      · exact iff_of_false nofun fun h => h.1 (by omega)

/-- A node with a greater number than all others goes to the end. -/
theorem insertNode?_of_forall_lt {n : GraphNode} {nodes : List GraphNode}
    (h : ∀ m ∈ nodes, m.id < n.id) : insertNode? n nodes = some (nodes ++ [n]) := by
  induction nodes with
  | nil => rfl
  | cons m rest ih =>
    have hm := h m List.mem_cons_self
    have hnot : ¬ n.id < m.id := by omega
    simp [insertNode?, hm, hnot, ih fun x hx => h x (List.mem_cons_of_mem m hx)]

/-! ## A batch of nodes -/

/-- Writing nodes inserts them one by one. -/
theorem writeNodes_eq_ok_iff {s s' : Snapshot} {nodes : List GraphNode} :
    s.writeNodes nodes = .ok s' ↔
      ∃ all, nodes.foldlM (fun all n => insertNode? n all) s.nodes = some all ∧
        s' = { s with nodes := all } := by
  unfold writeNodes
  split
  · rename_i all h
    rw [h, Except.ok.injEq]
    exact ⟨fun he => ⟨all, rfl, he.symm⟩, fun ⟨_, ha, hs'⟩ => by cases ha; exact hs'.symm⟩
  · rename_i h
    simp [h]

/-- Inserting nodes one by one adds them all and keeps the order of the numbers. -/
theorem insertAll {nodes old all : List GraphNode}
    (h : nodes.foldlM (fun all n => insertNode? n all) old = some all) :
    all.Perm (nodes ++ old) ∧ (Increasing old → Increasing all) := by
  induction nodes generalizing old with
  | nil =>
    cases h
    exact ⟨List.Perm.refl _, id⟩
  | cons n rest ih =>
    rw [List.foldlM_cons] at h
    obtain ⟨next, hn, hrest⟩ := Option.bind_eq_some_iff.mp h
    obtain ⟨hperm, hinc⟩ := ih hrest
    have hnext : (rest ++ next).Perm (rest ++ n :: old) :=
      (perm_of_insertNode? hn).append_left rest
    exact ⟨(hperm.trans hnext).trans List.perm_middle, fun hs => hinc (hs.insertNode? hn)⟩

/-- Nodes are inserted one by one exactly where no number occurs twice. -/
theorem isSome_insertAll_iff (nodes : List GraphNode) {old : List GraphNode} (hs : Increasing old) :
    (nodes.foldlM (fun all n => insertNode? n all) old).isSome ↔
      ((nodes ++ old).map (·.id)).Nodup := by
  induction nodes generalizing old with
  | nil => exact iff_of_true rfl hs.nodup_ids
  | cons n rest ih =>
    rw [List.foldlM_cons, Option.bind_eq_bind, List.cons_append, List.map_cons, List.nodup_cons]
    cases hn : insertNode? n old with
    | none =>
      have htaken : n.id ∈ old.map (·.id) := by
        by_contra hfree
        have hsome := (isSome_insertNode?_iff hs).mpr hfree
        rw [hn] at hsome
        cases hsome
      refine iff_of_false nofun fun h => h.1 ?_
      rw [List.map_append]
      exact List.mem_append_right _ htaken
    | some next =>
      have hperm : ((rest ++ next).map (·.id)).Perm (n.id :: (rest ++ old).map (·.id)) :=
        (((perm_of_insertNode? hn).append_left rest).trans List.perm_middle).map _
      rw [Option.bind_some, ih (hs.insertNode? hn), hperm.nodup_iff, List.nodup_cons]

/-- A batch of nodes is added to those that are there. -/
theorem writeNodes_perm {s s' : Snapshot} {nodes : List GraphNode}
    (h : s.writeNodes nodes = .ok s') : s'.nodes.Perm (nodes ++ s.nodes) := by
  obtain ⟨all, hall, rfl⟩ := writeNodes_eq_ok_iff.mp h
  exact (insertAll hall).1

/-- A batch of nodes is refused exactly when a number would occur twice. -/
theorem writeNodes_error_iff {s : Snapshot} (nodes : List GraphNode) (hs : Increasing s.nodes) :
    (∃ e, s.writeNodes nodes = .error e) ↔ ¬ ((nodes ++ s.nodes).map (·.id)).Nodup := by
  rw [← isSome_insertAll_iff nodes hs]
  unfold writeNodes
  cases nodes.foldlM (fun all n => insertNode? n all) s.nodes with
  | none => simp
  | some all => simp

/-- A batch of nodes keeps the order of the numbers. -/
theorem writeNodes_increasing {s s' : Snapshot} {nodes : List GraphNode}
    (h : s.writeNodes nodes = .ok s') (hs : Increasing s.nodes) : Increasing s'.nodes := by
  obtain ⟨all, hall, rfl⟩ := writeNodes_eq_ok_iff.mp h
  exact (insertAll hall).2 hs

/-- Nodes in the order of their numbers are written into a fresh snapshot as they are. -/
theorem writeNodes_of_increasing {nodes : List GraphNode} (h : Increasing nodes) :
    ({} : Snapshot).writeNodes nodes = .ok { nodes } := by
  have hall : ∀ rest old : List GraphNode, Increasing (old ++ rest) →
      rest.foldlM (fun all n => insertNode? n all) old = some (old ++ rest) := by
    intro rest
    induction rest with
    | nil => intro old _; simp
    | cons n rest ih =>
      intro old hs
      have hn : insertNode? n old = some (old ++ [n]) :=
        insertNode?_of_forall_lt fun m hm => (List.pairwise_append.mp hs).2.2 m hm n (by simp)
      rw [List.foldlM_cons, hn, Option.bind_eq_bind, Option.bind_some, ih _ (by simpa using hs)]
      simp
  exact writeNodes_eq_ok_iff.mpr ⟨nodes, hall nodes [] h, rfl⟩

/-- A node among nodes in the order of their numbers is found by its number. -/
theorem node?_of_mem {s : Snapshot} (hs : Increasing s.nodes) {n : GraphNode} (hn : n ∈ s.nodes) :
    s.node? n.id = some n := by
  have hfind : ∀ nodes : List GraphNode, Increasing nodes → n ∈ nodes →
      nodes.find? (fun m => m.id == n.id) = some n := by
    intro nodes hnodes hmem
    induction nodes with
    | nil => cases hmem
    | cons m rest ih =>
      obtain ⟨hm, hrest⟩ := List.pairwise_cons.mp hnodes
      rcases List.mem_cons.mp hmem with rfl | hmem
      · exact List.find?_cons_of_pos (beq_self_eq_true n.id)
      · have hlt := hm n hmem
        rw [List.find?_cons_of_neg (by simpa using Int.ne_of_lt hlt)]
        exact ih hrest hmem
  exact hfind s.nodes hs hn

/-! ## Edges and texts -/

/-- Edges are written when their ends are nodes, after those that are there. -/
theorem writeEdges_eq_ok_iff {s s' : Snapshot} {edges : List GraphEdge} :
    s.writeEdges edges = .ok s' ↔
      (∀ e ∈ edges, s.joinsNodes e) ∧ s' = { s with edges := s.edges ++ edges } := by
  unfold writeEdges
  split
  · rename_i h
    rw [Except.ok.injEq, and_iff_right (List.all_eq_true.mp h)]
    exact eq_comm
  · rename_i h
    simp only [reduceCtorEq, false_iff, not_and]
    exact fun hall => absurd (List.all_eq_true.mpr hall) h

/-- A batch of edges is refused exactly when one of them does not join nodes. -/
theorem writeEdges_error_iff (s : Snapshot) (edges : List GraphEdge) :
    (∃ e, s.writeEdges edges = .error e) ↔ ∃ e ∈ edges, ¬ s.joinsNodes e := by
  cases h : s.writeEdges edges with
  | ok s' =>
    obtain ⟨hjoins, -⟩ := writeEdges_eq_ok_iff.mp h
    exact iff_of_false (by rintro ⟨e, ⟨⟩⟩) fun ⟨e, he, hnot⟩ => hnot (hjoins e he)
  | error e =>
    refine iff_of_true ⟨e, rfl⟩ ?_
    by_contra hall
    push Not at hall
    rw [writeEdges_eq_ok_iff.mpr ⟨hall, rfl⟩] at h
    cases h

/-- An edge joins nodes when both its ends are numbers of nodes. -/
theorem joinsNodes_iff {s : Snapshot} {e : GraphEdge} :
    s.joinsNodes e ↔ e.caller ∈ s.nodes.map (·.id) ∧ e.callee ∈ s.nodes.map (·.id) := by
  simp [joinsNodes, hasNode]

/-- A text that is set is read back, and the texts of other keys are as before. -/
theorem text?_setText (s : Snapshot) (key value other : String) :
    (s.setText key value).text? other = if other = key then some value else s.text? other := by
  unfold text? setText
  by_cases h : other = key
  · simp [h]
  · have hb : (other == key) = false := by simpa using h
    simp only [List.lookup_cons, hb, h, if_false]
    induction s.texts with
    | nil => rfl
    | cons entry rest ih =>
      obtain ⟨k, v⟩ := entry
      by_cases hk : k = key
      · rw [List.filter_cons_of_neg (by simp [hk]), ih]
        simp [List.lookup_cons, hk, hb]
      · rw [List.filter_cons_of_pos (by simpa using hk)]
        simp only [List.lookup_cons, ih]

@[simp] theorem nodes_setText (s : Snapshot) (key value : String) :
    (s.setText key value).nodes = s.nodes := rfl

@[simp] theorem edges_setText (s : Snapshot) (key value : String) :
    (s.setText key value).edges = s.edges := rfl

end CallImpact.Snapshot
