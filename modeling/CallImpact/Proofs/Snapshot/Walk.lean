import CallImpact.Snapshot
import Mathlib

/-!
# Walks of bounded depth

The distance of a node from the start of a walk is the least number of stored calls that lead to
it (`IsDistance`). A walk keeps the nodes that were seen and those of the last level (`AtLevel`):
what was seen is what some number of calls up to the depth leads to, and the last level is what
lies at this distance. So a level finds just the nodes at the next distance, each by a call from
the level before (`Covers`), and the whole walk finds each node within its depth once, at its
distance (`reach_exact`). Nothing is asked of the graph but that numbers are unique and that both
ends of each edge are nodes: edges may be repeated, and cycles and calls of a function by itself
do not matter.
-/

namespace CallImpact.Snapshot

/-! ## Distances -/

/-- Whether the numbers of nodes are unique and both ends of each edge are nodes. -/
structure IsWellFormed (s : Snapshot) : Prop where
  ids : (s.nodes.map (·.id)).Nodup
  joined : ∀ e ∈ s.edges, s.joinsNodes e

/-- Whether a number of edges leads from the start to a node, one after the other. -/
inductive Leads (s : Snapshot) (d : Direction) (start : Int) : Nat → Int → Prop where
  | start : Leads s d start 0 start
  | step {n : Nat} {e : GraphEdge} :
      Leads s d start n (d.source e) → e ∈ s.edges → Leads s d start (n + 1) (d.target e)

/-- Whether a number is the least number of edges that lead to a node. -/
def IsDistance (s : Snapshot) (d : Direction) (start : Int) (n : Nat) (id : Int) : Prop :=
  IsLeast {n | Leads s d start n id} n

section
variable {s : Snapshot} {d : Direction} {start : Int}

/-- No edge at all leads only to the start. -/
theorem leads_zero_iff {id : Int} : Leads s d start 0 id ↔ id = start := by
  constructor
  · rintro ⟨⟩
    rfl
  · rintro rfl
    exact .start

/-- The last of some edges leads on from where the others lead. -/
theorem leads_succ_iff {n : Nat} {id : Int} :
    Leads s d start (n + 1) id ↔
      ∃ e ∈ s.edges, d.target e = id ∧ Leads s d start n (d.source e) := by
  constructor
  · rintro (_ | ⟨h, he⟩)
    exact ⟨_, he, rfl, h⟩
  · rintro ⟨e, he, rfl, h⟩
    exact .step h he

/-- Only the start is at no distance. -/
theorem isDistance_zero_iff {id : Int} : IsDistance s d start 0 id ↔ id = start :=
  ⟨fun h => leads_zero_iff.mp h.1, fun h => ⟨leads_zero_iff.mpr h, fun _ _ => Nat.zero_le _⟩⟩

/-- A node lies at a distance when it lies at no smaller one and an edge leads to it from a node at
the distance before. -/
theorem isDistance_succ_iff {n : Nat} {id : Int} :
    IsDistance s d start (n + 1) id ↔ (∀ m ≤ n, ¬ Leads s d start m id) ∧
      ∃ e ∈ s.edges, d.target e = id ∧ IsDistance s d start n (d.source e) := by
  constructor
  · rintro ⟨hleads, hleast⟩
    have hnone : ∀ m ≤ n, ¬ Leads s d start m id := fun m hm h =>
      Nat.not_succ_le_self n (Nat.le_trans (hleast h) hm)
    obtain ⟨e, he, rfl, hsource⟩ := leads_succ_iff.mp hleads
    refine ⟨hnone, e, he, rfl, hsource, fun m hm => Nat.le_of_not_lt fun hlt => ?_⟩
    -- a shorter way to the source would be a shorter way to the node
    exact hnone (m + 1) hlt (.step hm he)
  · rintro ⟨hnone, e, he, rfl, hsource⟩
    exact ⟨Leads.step hsource.1 he, fun m hm => Nat.lt_of_not_le fun hle => hnone m hle hm⟩

/-! ## Nodes and neighbours -/

/-- A node found by a number is a node of the snapshot with this number. -/
theorem mem_of_node? {id : Int} {n : GraphNode} (h : s.node? id = some n) :
    n ∈ s.nodes ∧ n.id = id :=
  ⟨List.mem_of_find?_eq_some h, by simpa using List.find?_some h⟩

/-- A node that there is can be found by its number. -/
theorem exists_node_of_hasNode {id : Int} (h : s.hasNode id) : ∃ n, s.node? id = some n := by
  rw [← Option.isSome_iff_exists, node?, List.find?_isSome]
  exact List.any_eq_true.mp h

/-- Both ends of an edge of a well-formed snapshot are nodes. -/
theorem IsWellFormed.hasNode (hs : s.IsWellFormed) {e : GraphEdge} (he : e ∈ s.edges)
    (d : Direction) : s.hasNode (d.source e) ∧ s.hasNode (d.target e) := by
  have hjoins := hs.joined e he
  rw [joinsNodes, Bool.and_eq_true] at hjoins
  cases d with
  | callers => exact hjoins.symm
  | callees => exact hjoins

/-- Every node is the only one with its number. -/
theorem IsWellFormed.eq_of_id (hs : s.IsWellFormed) {m n : GraphNode} (hm : m ∈ s.nodes)
    (hn : n ∈ s.nodes) (h : m.id = n.id) : m = n :=
  List.inj_on_of_nodup_map hs.ids hm hn h

/-- The neighbours of a node are the nodes to which its edges lead, each with the place of the
call. -/
theorem mem_neighbours {id : Int} {n : Neighbour} :
    n ∈ s.neighbours d id ↔ ∃ e ∈ s.edges, d.source e = id ∧ s.node? (d.target e) = some n.node ∧
      e.file = n.file ∧ e.line = n.line := by
  obtain ⟨node, file, line⟩ := n
  simp only [neighbours, List.mem_filterMap, List.mem_filter, beq_iff_eq, Option.map_eq_some_iff,
    Neighbour.mk.injEq]
  constructor
  · rintro ⟨e, ⟨he, hsource⟩, node', hnode, rfl, rfl, rfl⟩
    exact ⟨e, he, hsource, hnode, rfl, rfl⟩
  · rintro ⟨e, he, hsource, hnode, rfl, rfl⟩
    exact ⟨e, ⟨he, hsource⟩, node, hnode, rfl, rfl, rfl⟩

/-! ## One level -/

section
variable {depth : Nat} {seen : List Int} {ns : List Neighbour}

/-- What a level meets are neighbours that were not seen. -/
theorem exists_neighbour_of_mem_unseen {r : Reached} (h : r ∈ unseen depth seen ns) :
    r.depth = depth ∧ r.node.id ∉ seen ∧
      ∃ n ∈ ns, n.node = r.node ∧ n.file = r.file ∧ n.line = r.line := by
  induction ns generalizing seen with
  | nil => cases h
  | cons n rest ih =>
    unfold unseen at h
    split at h
    · obtain ⟨hdepth, hseen, n', hn', heq⟩ := ih h
      exact ⟨hdepth, hseen, n', List.mem_cons_of_mem n hn', heq⟩
    · rename_i hnew
      rcases List.mem_cons.mp h with rfl | h
      · exact ⟨rfl, by simpa using hnew, n, List.mem_cons_self, rfl, rfl, rfl⟩
      · obtain ⟨hdepth, hseen, n', hn', heq⟩ := ih h
        exact ⟨hdepth, fun hc => hseen (List.mem_cons_of_mem _ hc), n',
          List.mem_cons_of_mem n hn', heq⟩

/-- A level meets every neighbour that was not seen. -/
theorem exists_met_of_mem (depth : Nat) {n : Neighbour} (hn : n ∈ ns) (hnew : n.node.id ∉ seen) :
    ∃ r ∈ unseen depth seen ns, r.node.id = n.node.id := by
  induction ns generalizing seen with
  | nil => cases hn
  | cons m rest ih =>
    unfold unseen
    split
    · rename_i hm
      rcases List.mem_cons.mp hn with rfl | hn
      · exact absurd (by simpa using hm) hnew
      · exact ih hn hnew
    · by_cases heq : m.node.id = n.node.id
      · exact ⟨_, List.mem_cons_self, heq⟩
      · rcases List.mem_cons.mp hn with rfl | hn
        · exact absurd rfl heq
        · have hnew' : n.node.id ∉ m.node.id :: seen := by simp [hnew, Ne.symm heq]
          obtain ⟨r, hr, hid⟩ := ih hn hnew'
          exact ⟨r, List.mem_cons_of_mem _ hr, hid⟩

/-- A level meets no node twice. -/
theorem nodup_unseen (depth : Nat) (seen : List Int) (ns : List Neighbour) :
    ((unseen depth seen ns).map (·.node.id)).Nodup := by
  induction ns generalizing seen with
  | nil => exact .nil
  | cons n rest ih =>
    unfold unseen
    split
    · exact ih seen
    · refine List.nodup_cons.mpr ⟨fun hmem => ?_, ih _⟩
      obtain ⟨r, hr, hid⟩ := List.mem_map.mp hmem
      obtain ⟨-, hnot, -⟩ := exists_neighbour_of_mem_unseen hr
      exact hnot (hid ▸ List.mem_cons_self)

end

/-- What a walk knows when it comes to a level: what was seen lies within the depth, and what lies
at the depth is the level. -/
structure AtLevel (s : Snapshot) (d : Direction) (start : Int) (depth : Nat)
    (seen level : List Int) : Prop where
  seen : ∀ id, id ∈ seen ↔ ∃ n ≤ depth, Leads s d start n id
  level : ∀ id, id ∈ level ↔ IsDistance s d start depth id

/-- A walk starts at a level of the start alone. -/
theorem atLevel_start (s : Snapshot) (d : Direction) (start : Int) :
    AtLevel s d start 0 [start] [start] where
  seen id := by simp [leads_zero_iff]
  level id := by rw [List.mem_singleton, isDistance_zero_iff]

/-- What a part of a walk finds between two depths: each node at a distance between them once, at
its distance, and by a call from a node at the distance before. -/
structure Covers (s : Snapshot) (d : Direction) (start : Int) (depth more : Nat)
    (found : List Reached) : Prop where
  sound : ∀ r ∈ found, r.node ∈ s.nodes ∧ IsDistance s d start r.depth r.node.id ∧
    depth < r.depth ∧ r.depth ≤ depth + more
  complete : ∀ n ∈ s.nodes, ∀ k, IsDistance s d start k n.id → depth < k → k ≤ depth + more →
    ∃ r ∈ found, r.node = n ∧ r.depth = k
  nodup : (found.map (·.node.id)).Nodup
  calls : ∀ r ∈ found, ∃ e ∈ s.edges, d.target e = r.node.id ∧ e.file = r.file ∧ e.line = r.line ∧
    ∃ k, r.depth = k + 1 ∧ IsDistance s d start k (d.source e)

section
variable {depth : Nat} {seen level : List Int}

/-- What a level meets lies at the next distance. -/
theorem AtLevel.met (h : AtLevel s d start depth seen level) {r : Reached}
    (hr : r ∈ unseen (depth + 1) seen (level.flatMap (s.neighbours d))) :
    r.node ∈ s.nodes ∧ r.depth = depth + 1 ∧ IsDistance s d start (depth + 1) r.node.id ∧
      ∃ e ∈ s.edges, d.target e = r.node.id ∧ e.file = r.file ∧ e.line = r.line ∧
        IsDistance s d start depth (d.source e) := by
  obtain ⟨hdepth, hnew, n, hn, hnode, hfile, hline⟩ := exists_neighbour_of_mem_unseen hr
  obtain ⟨id, hid, hn⟩ := List.mem_flatMap.mp hn
  obtain ⟨e, he, rfl, htarget, hfile', hline'⟩ := mem_neighbours.mp hn
  obtain ⟨hmem, hid'⟩ := mem_of_node? htarget
  rw [hnode] at hmem hid'
  have hsource := (h.level _).mp hid
  have hnone : ∀ m ≤ depth, ¬ Leads s d start m r.node.id := fun m hm hleads =>
    hnew ((h.seen _).mpr ⟨m, hm, hleads⟩)
  exact ⟨hmem, hdepth, isDistance_succ_iff.mpr ⟨hnone, e, he, hid'.symm, hsource⟩, e, he, hid'.symm,
    hfile'.trans hfile, hline'.trans hline, hsource⟩

/-- All that lies at the next distance is met. -/
theorem AtLevel.exists_met (h : AtLevel s d start depth seen level) (hs : s.IsWellFormed) {id : Int}
    (hid : IsDistance s d start (depth + 1) id) :
    ∃ r ∈ unseen (depth + 1) seen (level.flatMap (s.neighbours d)), r.node.id = id := by
  obtain ⟨hnone, e, he, rfl, hsource⟩ := isDistance_succ_iff.mp hid
  obtain ⟨n, hn⟩ := exists_node_of_hasNode (hs.hasNode he d).2
  obtain ⟨-, hnid⟩ := mem_of_node? hn
  have hnew : n.id ∉ seen := fun hc => by
    obtain ⟨m, hm, hleads⟩ := (h.seen _).mp hc
    exact hnone m hm (hnid ▸ hleads)
  have hneighbour : (⟨n, e.file, e.line⟩ : Neighbour) ∈ level.flatMap (s.neighbours d) :=
    List.mem_flatMap.mpr ⟨d.source e, (h.level _).mpr hsource,
      mem_neighbours.mpr ⟨e, he, rfl, hn, rfl, rfl⟩⟩
  obtain ⟨r, hr, hrid⟩ := exists_met_of_mem (depth + 1) hneighbour hnew
  exact ⟨r, hr, hrid.trans hnid⟩

/-- A level covers the next distance. -/
theorem AtLevel.covers (h : AtLevel s d start depth seen level) (hs : s.IsWellFormed) :
    Covers s d start depth 1 (unseen (depth + 1) seen (level.flatMap (s.neighbours d))) where
  sound r hr := by
    obtain ⟨hmem, hdepth, hdistance, -⟩ := h.met hr
    exact ⟨hmem, hdepth ▸ hdistance, by omega, by omega⟩
  complete n hn k hk hlt hle := by
    obtain rfl : k = depth + 1 := by omega
    obtain ⟨r, hr, hid⟩ := h.exists_met hs hk
    obtain ⟨hmem, hdepth, -⟩ := h.met hr
    exact ⟨r, hr, hs.eq_of_id hmem hn hid, hdepth⟩
  nodup := nodup_unseen _ _ _
  calls r hr := by
    obtain ⟨-, hdepth, -, e, he, htarget, hfile, hline, hsource⟩ := h.met hr
    exact ⟨e, he, htarget, hfile, hline, depth, hdepth, hsource⟩

/-- What a level meets is the next level. -/
theorem AtLevel.next (h : AtLevel s d start depth seen level) (hs : s.IsWellFormed) {ids : List Int}
    (hids : ids = (unseen (depth + 1) seen (level.flatMap (s.neighbours d))).map (·.node.id)) :
    AtLevel s d start (depth + 1) (ids ++ seen) ids := by
  have hlevel : ∀ id, id ∈ ids ↔ IsDistance s d start (depth + 1) id := by
    intro id
    rw [hids, List.mem_map]
    constructor
    · rintro ⟨r, hr, rfl⟩
      exact (h.met hr).2.2.1
    · exact h.exists_met hs
  refine ⟨fun id => ?_, hlevel⟩
  rw [List.mem_append, hlevel, h.seen]
  constructor
  · rintro (hdistance | ⟨n, hn, hleads⟩)
    · exact ⟨depth + 1, Nat.le_refl _, hdistance.1⟩
    · exact ⟨n, Nat.le_succ_of_le hn, hleads⟩
  · rintro ⟨n, hn, hleads⟩
    by_cases hseen : ∃ m ≤ depth, Leads s d start m id
    · exact .inr hseen
    · -- nothing shorter leads here, so this is the distance
      have hnone : ∀ m ≤ depth, ¬ Leads s d start m id := fun m hm hm' => hseen ⟨m, hm, hm'⟩
      obtain rfl : n = depth + 1 :=
        Nat.le_antisymm hn (Nat.lt_of_not_le fun hle => hnone n hle hleads)
      exact .inl ⟨hleads, fun m hm => Nat.lt_of_not_le fun hle => hnone m hle hm⟩

end

/-! ## Whole walks -/

/-- A node has one distance only. -/
theorem IsDistance.unique {m n : Nat} {id : Int} (hm : IsDistance s d start m id)
    (hn : IsDistance s d start n id) : m = n :=
  IsLeast.unique hm hn

/-- Two parts of a walk, one after the other. -/
theorem Covers.append {depth more : Nat} {met rest : List Reached}
    (hmet : Covers s d start depth 1 met) (hrest : Covers s d start (depth + 1) more rest) :
    Covers s d start depth (more + 1) (met ++ rest) where
  sound r hr := by
    rcases List.mem_append.mp hr with hr | hr
    · obtain ⟨hmem, hdistance, hlt, hle⟩ := hmet.sound r hr
      exact ⟨hmem, hdistance, hlt, by omega⟩
    · obtain ⟨hmem, hdistance, hlt, hle⟩ := hrest.sound r hr
      exact ⟨hmem, hdistance, by omega, by omega⟩
  complete n hn k hk hlt hle := by
    by_cases hfirst : k ≤ depth + 1
    · obtain ⟨r, hr, heq⟩ := hmet.complete n hn k hk hlt hfirst
      exact ⟨r, List.mem_append_left _ hr, heq⟩
    · obtain ⟨r, hr, heq⟩ := hrest.complete n hn k hk (by omega) (by omega)
      exact ⟨r, List.mem_append_right _ hr, heq⟩
  nodup := by
    rw [List.map_append, List.nodup_append']
    refine ⟨hmet.nodup, hrest.nodup, fun id hid hid' => ?_⟩
    obtain ⟨r, hr, rfl⟩ := List.mem_map.mp hid
    obtain ⟨q, hq, heq⟩ := List.mem_map.mp hid'
    obtain ⟨-, hr', -, hle⟩ := hmet.sound r hr
    obtain ⟨-, hq', hlt, -⟩ := hrest.sound q hq
    have hdepth : r.depth = q.depth := hr'.unique (heq ▸ hq')
    omega
  calls r hr := (List.mem_append.mp hr).elim (hmet.calls r) (hrest.calls r)

/-- A walk ends at a level without nodes. -/
theorem levels_nil (s : Snapshot) (d : Direction) (more depth : Nat) (seen : List Int) :
    levels s d more depth seen [] = [] := by
  cases more <;> rfl

/-- A walk that meets nothing stops, and would meet nothing further on either. -/
theorem levels_succ (s : Snapshot) (d : Direction) (more depth : Nat) (seen level : List Int) :
    levels s d (more + 1) depth seen level =
      unseen (depth + 1) seen (level.flatMap (s.neighbours d)) ++
        levels s d more (depth + 1)
          ((unseen (depth + 1) seen (level.flatMap (s.neighbours d))).map (·.node.id) ++ seen)
          ((unseen (depth + 1) seen (level.flatMap (s.neighbours d))).map (·.node.id)) := by
  rw [levels]
  split
  · rename_i hmet
    rw [hmet, List.map_nil, levels_nil, List.append_nil]
  · rfl

/-- A walk meets nodes of the graph only. -/
theorem mem_nodes_of_mem_levels {more depth : Nat} {seen level : List Int} {r : Reached}
    (h : r ∈ levels s d more depth seen level) : r.node ∈ s.nodes := by
  induction more generalizing depth seen level with
  | zero => cases h
  | succ more ih =>
    rw [levels_succ] at h
    rcases List.mem_append.mp h with h | h
    · obtain ⟨-, -, n, hn, hnode, -⟩ := exists_neighbour_of_mem_unseen h
      obtain ⟨id, -, hn⟩ := List.mem_flatMap.mp hn
      obtain ⟨e, -, -, htarget, -⟩ := mem_neighbours.mp hn
      exact hnode ▸ (mem_of_node? htarget).1
    · exact ih h

/-- A walk covers all distances up to its depth. -/
theorem AtLevel.covers_levels {depth : Nat} {seen level : List Int}
    (h : AtLevel s d start depth seen level) (hs : s.IsWellFormed) (more : Nat) :
    Covers s d start depth more (levels s d more depth seen level) := by
  induction more generalizing depth seen level with
  | zero =>
    exact
      { sound := fun r hr => by cases hr
        complete := fun n hn k hk hlt hle => absurd hlt (Nat.not_lt.mpr hle)
        nodup := .nil
        calls := fun r hr => by cases hr }
  | succ more ih =>
    rw [levels_succ]
    exact (h.covers hs).append (ih (h.next hs rfl))

end

/-- What a walk reaches are nodes of the snapshot. -/
theorem mem_nodes_of_mem_reach {s : Snapshot} {d : Direction} {start : Int} {maxDepth : Nat}
    {r : Reached} (h : r ∈ s.reach d start maxDepth) : r.node ∈ s.nodes :=
  mem_nodes_of_mem_levels ((List.mergeSort_perm _ _).mem_iff.mp h)

/-- What a walk reaches is ordered by depth, and then by name. -/
theorem Reached.le_iff {a b : Reached} : Reached.le a b ↔
    a.depth < b.depth ∨ a.depth = b.depth ∧ a.node.fullName ≤ b.node.fullName := by
  simp only [Reached.le, Bool.or_eq_true, Bool.and_eq_true, decide_eq_true_eq, beq_iff_eq]

/-- The order of what a walk reaches is transitive. -/
theorem Reached.trans_le (a b c : Reached) (hab : Reached.le a b) (hbc : Reached.le b c) :
    Reached.le a c := by
  rw [Reached.le_iff] at *
  rcases hab with hab | ⟨hab, hname⟩
  · exact .inl (by omega)
  · rcases hbc with hbc | ⟨hbc, hname'⟩
    · exact .inl (by omega)
    · exact .inr ⟨hab.trans hbc, le_trans hname hname'⟩

/-- Of two nodes that a walk reaches one comes no later than the other. -/
theorem Reached.total_le (a b : Reached) : Reached.le a b || Reached.le b a := by
  rw [Bool.or_eq_true, Reached.le_iff, Reached.le_iff]
  rcases Nat.lt_trichotomy a.depth b.depth with hlt | heq | hlt
  · exact .inl (.inl hlt)
  · exact (le_total a.node.fullName b.node.fullName).imp (fun h => .inr ⟨heq, h⟩)
      fun h => .inr ⟨heq.symm, h⟩
  · exact .inr (.inl hlt)

/-- What a walk reaches comes by depth, and then by full name. -/
theorem pairwise_reach (s : Snapshot) (d : Direction) (start : Int) (maxDepth : Nat) :
    (s.reach d start maxDepth).Pairwise fun a b =>
      a.depth < b.depth ∨ a.depth = b.depth ∧ a.node.fullName ≤ b.node.fullName :=
  (List.pairwise_mergeSort Reached.trans_le Reached.total_le _).imp Reached.le_iff.mp

/-- Whatever the graph, the start, the direction and the depth: a walk reaches just the nodes other
than the start whose distance is at most the depth, each once and at its distance; they come by
depth and then by full name; and the place kept with each is that of a call which joins it to the
start or to a node reached at the distance before. -/
theorem reach_exact {s : Snapshot} (hs : s.IsWellFormed) (d : Direction) (start : Int)
    (maxDepth : Nat) :
    (∀ n k, (∃ r ∈ s.reach d start maxDepth, r.node = n ∧ r.depth = k) ↔
      n ∈ s.nodes ∧ n.id ≠ start ∧ IsDistance s d start k n.id ∧ 1 ≤ k ∧ k ≤ maxDepth) ∧
    ((s.reach d start maxDepth).map (·.node.id)).Nodup ∧
    (s.reach d start maxDepth).Pairwise (fun a b =>
      a.depth < b.depth ∨ a.depth = b.depth ∧ a.node.fullName ≤ b.node.fullName) ∧
    ∀ r ∈ s.reach d start maxDepth, ∃ e ∈ s.edges,
      d.target e = r.node.id ∧ e.file = r.file ∧ e.line = r.line ∧
        (r.depth = 1 ∧ d.source e = start ∨
          ∃ q ∈ s.reach d start maxDepth, q.node.id = d.source e ∧ q.depth + 1 = r.depth) := by
  have hcovers := (atLevel_start s d start).covers_levels hs maxDepth
  have hperm : (s.reach d start maxDepth).Perm (levels s d maxDepth 0 [start] [start]) :=
    List.mergeSort_perm _ _
  refine ⟨fun n k => ?_, ?_, pairwise_reach s d start maxDepth, fun r hr => ?_⟩
  · constructor
    · rintro ⟨r, hr, rfl, rfl⟩
      obtain ⟨hmem, hdistance, hlt, hle⟩ := hcovers.sound r (hperm.mem_iff.mp hr)
      refine ⟨hmem, fun hstart => ?_, hdistance, hlt, by omega⟩
      have hzero : r.depth = 0 := hdistance.unique (isDistance_zero_iff.mpr hstart)
      omega
    · rintro ⟨hmem, -, hdistance, hlt, hle⟩
      obtain ⟨r, hr, heq⟩ := hcovers.complete n hmem k hdistance hlt (by omega)
      exact ⟨r, hperm.mem_iff.mpr hr, heq⟩
  · exact (hperm.map _).nodup_iff.mpr hcovers.nodup
  · obtain ⟨-, -, -, hle⟩ := hcovers.sound r (hperm.mem_iff.mp hr)
    obtain ⟨e, he, htarget, hfile, hline, k, hdepth, hsource⟩ :=
      hcovers.calls r (hperm.mem_iff.mp hr)
    refine ⟨e, he, htarget, hfile, hline, ?_⟩
    rcases Nat.eq_zero_or_pos k with rfl | hpos
    · exact .inl ⟨hdepth, isDistance_zero_iff.mp hsource⟩
    · obtain ⟨n, hn⟩ := exists_node_of_hasNode (hs.hasNode he d).1
      obtain ⟨hn, hid⟩ := mem_of_node? hn
      obtain ⟨q, hq, rfl, hqdepth⟩ :=
        hcovers.complete n hn k (hid ▸ hsource) hpos (by omega)
      exact .inr ⟨q, hperm.mem_iff.mpr hq, hid, by omega⟩

/-- Three functions in a cycle, of which the first also calls itself and calls the second twice, and
one that the third calls on the way. -/
def cyclic : Snapshot :=
  let node (id : Int) (name : String) : GraphNode :=
    { id, fullName := name, canonicalName := name, package := "m", localName := name, file := "a.go"
      lineStart := 1, lineEnd := 1, exported := false }
  { nodes := [node 1 "m.a", node 2 "m.d", node 3 "m.c", node 4 "m.b"]
    edges := [⟨1, 1, "a.go", 1⟩, ⟨1, 2, "a.go", 2⟩, ⟨1, 2, "a.go", 3⟩, ⟨2, 3, "a.go", 4⟩,
      ⟨3, 1, "a.go", 5⟩, ⟨3, 4, "a.go", 6⟩, ⟨2, 4, "a.go", 7⟩] }

/-- The case of a walk of two steps from a node of a cycle. -/
theorem reach_exact_cyclic :
    cyclic.IsWellFormed ∧
    (cyclic.reach .callees 1 2).map (fun r => (r.node.id, r.depth, r.line)) =
      [(2, 1, 2), (4, 2, 7), (3, 2, 4)] ∧
    ∀ n k, (∃ r ∈ cyclic.reach .callees 1 2, r.node = n ∧ r.depth = k) ↔
      n ∈ cyclic.nodes ∧ n.id ≠ 1 ∧ IsDistance cyclic .callees 1 k n.id ∧ 1 ≤ k ∧ k ≤ 2 := by
  have hs : cyclic.IsWellFormed := ⟨by decide, by decide⟩
  exact ⟨hs, by cbv, (reach_exact hs .callees 1 2).1⟩

end CallImpact.Snapshot
