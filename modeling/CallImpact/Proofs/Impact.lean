import CallImpact.Impact
import CallImpact.Proofs.Ordered
import CallImpact.Proofs.Snapshot.Walk
import CallImpact.Proofs.Snapshot.Writing

/-!
# Impact reports

A report names each function that was asked for once, whatever names it was asked for by, and each
name that no function has (`mem_unmatched_iff`). What it adds up is counted over all callers:
nodes by their numbers, which tell nodes of a snapshot apart (`totalAffected_eq`), and files by
their names (`mem_affectedFiles_iff`). All of this depends on which names were asked for, not on
their order or on how often (`query_congr`), so a report is right for every list of names
(`query_exact`).
-/

namespace CallImpact.Impact

open Snapshot (Increasing)

/-! ## Functions that are asked for -/

/-- Whether a node is asked for: its full or its canonical name is among the names. -/
def IsRequested (names : List String) (n : GraphNode) : Prop :=
  n.fullName ∈ names ∨ n.canonicalName ∈ names

section
variable {s : Snapshot} {names other : List String}

/-- A node answers to its full name and to its canonical name. -/
theorem isNamed_iff {name : String} {n : GraphNode} :
    Snapshot.isNamed name n ↔ n.fullName = name ∨ n.canonicalName = name := by
  simp [Snapshot.isNamed]

/-- The nodes found by names are the nodes that are asked for. -/
theorem mem_named_iff {n : GraphNode} : n ∈ s.named names ↔ n ∈ s.nodes ∧ IsRequested names n := by
  rw [Snapshot.named, List.mem_filter, List.any_eq_true]
  simp only [isNamed_iff, IsRequested]
  refine and_congr_right fun _ => ⟨?_, ?_⟩
  · rintro ⟨name, hname, rfl | rfl⟩
    · exact .inl hname
    · exact .inr hname
  · rintro (hname | hname)
    · exact ⟨_, hname, .inl rfl⟩
    · exact ⟨_, hname, .inr rfl⟩

/-- The same names ask for the same functions, in the same order. -/
theorem named_congr (s : Snapshot) (h : ∀ name, name ∈ other ↔ name ∈ names) :
    s.named other = s.named names := by
  refine List.filter_congr fun n _ => ?_
  rw [Bool.eq_iff_iff, List.any_eq_true, List.any_eq_true]
  simp only [h]

/-- A name is matched by a function that is asked for when any function has it. -/
theorem any_named_iff {name : String} (hname : name ∈ names) :
    (s.named names).any (Snapshot.isNamed name) ↔
      ∃ n ∈ s.nodes, n.fullName = name ∨ n.canonicalName = name := by
  rw [List.any_eq_true]
  simp only [mem_named_iff, isNamed_iff]
  constructor
  · rintro ⟨n, ⟨hn, -⟩, h⟩
    exact ⟨n, hn, h⟩
  · rintro ⟨n, hn, rfl | rfl⟩
    · exact ⟨n, ⟨hn, .inl hname⟩, .inl rfl⟩
    · exact ⟨n, ⟨hn, .inr hname⟩, .inr rfl⟩

end

/-! ## One function -/

/-- The greatest element of a list, or a bound from below when that is greater. -/
theorem isGreatest_foldl_max (ns : List Nat) (least : Nat) :
    IsGreatest (insert least {n | n ∈ ns}) (ns.foldl max least) := by
  induction ns generalizing least with
  | nil => simp
  | cons n ns ih =>
    obtain ⟨hmem, hbound⟩ := ih (max least n)
    rw [List.foldl_cons]
    have hmax := hbound (Set.mem_insert _ _)
    refine ⟨?_, ?_⟩
    · rcases hmem with heq | hmem
      · rw [heq]
        rcases max_choice least n with h | h
        · exact .inl h
        · exact .inr (List.mem_cons.mpr (.inl h))
      · exact .inr (List.mem_cons_of_mem n hmem)
    · rintro m (rfl | hm)
      · exact le_trans (le_max_left _ n) hmax
      · rcases List.mem_cons.mp hm with rfl | hm
        · exact le_trans (le_max_right _ _) hmax
        · exact hbound (.inr hm)

/-- What a report tells of one function: its callers within a distance, how many they are, and how
far away the farthest of them is. -/
structure IsImpactOf (s : Snapshot) (within : Nat) (n : GraphNode) (i : FunctionImpact) : Prop where
  function : i.function = n.fullName
  displayName : i.displayName = CallImpact.displayName n.package n.localName
  file : i.file = n.file
  callers : i.callers = (s.reach .callers n.id within).map callerInfo
  total : i.totalCallers = (s.reach .callers n.id within).length
  deepest : IsGreatest (insert 0 {depth | ∃ c ∈ i.callers, c.depth = depth}) i.maxDepthReached

/-- The impact that is worked out for a node is an impact of the node. -/
theorem isImpactOf_impactOf (s : Snapshot) (within : Nat) (n : GraphNode) :
    IsImpactOf s within n (impactOf s within n) where
  function := rfl
  displayName := rfl
  file := rfl
  callers := rfl
  total := List.length_map ..
  deepest := by
    have h := isGreatest_foldl_max ((impactOf s within n).callers.map (·.depth)) 0
    simp only [List.mem_map] at h
    exact h

/-! ## Sums -/

section
variable {s : Snapshot} {names other : List String} {depth : Int}

/-- A name is unmatched exactly when it is given and no node answers to it. -/
theorem mem_unmatched_iff {name : String} : name ∈ (query s names depth).unmatched ↔
    name ∈ names ∧ ∀ n ∈ s.nodes, n.fullName ≠ name ∧ n.canonicalName ≠ name := by
  rw [query, mem_firstOccurrences, List.mem_filter]
  refine and_congr_right fun hname => ?_
  rw [Bool.not_eq_true', ← Bool.not_eq_true, any_named_iff hname]
  push Not
  rfl

/-- Names without a function come in the order in which they were first asked for. -/
theorem pairwise_unmatched :
    (query s names depth).unmatched.Pairwise fun a b => names.idxOf a < names.idxOf b := by
  rw [query, firstOccurrences_filter]
  exact (pairwise_firstOccurrences names).filter _

/-- The nodes among the callers of all functions that are asked for are counted once each. -/
theorem totalAffected_eq (hs : Increasing s.nodes) : (query s names depth).totalAffected =
    ((s.named names).flatMap fun t =>
      (s.reach .callers t.id (effectiveDepth depth)).map (·.node)).toFinset.card := by
  generalize hreached :
    ((s.named names).flatMap fun t => s.reach .callers t.id (effectiveDepth depth)) = reached
  have hnodes : ∀ n ∈ (reached.map (·.node)).toFinset, n ∈ s.nodes := by
    intro n hn
    obtain ⟨r, hr, rfl⟩ := List.mem_map.mp (List.mem_toFinset.mp hn)
    obtain ⟨t, -, hr⟩ := List.mem_flatMap.mp (hreached ▸ hr)
    exact Snapshot.mem_nodes_of_mem_reach hr
  have hinj : Set.InjOn (fun n : GraphNode => n.id) (reached.map (·.node)).toFinset :=
    fun a ha b hb h =>
    List.inj_on_of_nodup_map hs.nodup_ids (hnodes a ha) (hnodes b hb) h
  have himage : (firstOccurrences (reached.map (·.node.id))).toFinset =
      (reached.map (·.node)).toFinset.image (·.id) := by
    ext id
    simp
  calc (query s names depth).totalAffected
      = (firstOccurrences (reached.map (·.node.id))).length := by rw [← hreached, query]
    _ = ((reached.map (·.node)).toFinset.image (·.id)).card := by
      rw [← himage, List.toFinset_card_of_nodup (nodup_firstOccurrences _)]
    _ = (reached.map (·.node)).toFinset.card := Finset.card_image_of_injOn hinj
    _ = _ := by rw [← hreached, List.map_flatMap]

/-- The affected files are those of the callers of all impacts. -/
theorem mem_affectedFiles_iff {file : String} : file ∈ (query s names depth).affectedFiles ↔
    ∃ i ∈ (query s names depth).impacts, ∃ c ∈ i.callers, c.file = file := by
  rw [query, mem_orderedTexts, List.mem_map]
  constructor
  · rintro ⟨r, hr, rfl⟩
    obtain ⟨t, ht, hr⟩ := List.mem_flatMap.mp hr
    exact ⟨_, List.mem_map_of_mem ht, _, List.mem_map_of_mem hr, rfl⟩
  · rintro ⟨i, hi, c, hc, rfl⟩
    obtain ⟨t, ht, rfl⟩ := List.mem_map.mp hi
    obtain ⟨r, hr, rfl⟩ := List.mem_map.mp hc
    exact ⟨r, List.mem_flatMap.mpr ⟨t, ht, hr⟩, rfl⟩

/-- The same names in another order or number give the same report, but for the number of names and
the order of those without a function. -/
theorem query_congr (s : Snapshot) (depth : Int) (h : ∀ name, name ∈ other ↔ name ∈ names) :
    (query s other depth).unmatched.Perm (query s names depth).unmatched ∧
      query s other depth =
        { query s names depth with
          unmatched := (query s other depth).unmatched
          functionsAnalyzed := other.length } := by
  constructor
  · refine perm_firstOccurrences fun name => ?_
    rw [List.mem_filter, List.mem_filter, h, named_congr s h]
  · simp only [query, named_congr s h]

end

/-- Whatever is asked for, names that are repeated or that no function has included, and however
far: a report has one impact for each node with one of the names as its full or canonical name, in
the order of their numbers, with just the callers within the depth, or within three when the depth
is not positive. It lists the names that no node has, each once and in the order in which they were
first asked for; counts the nodes among all callers once each; and lists the files of all calls in
order, each once. Names in another order or number change nothing but the order of those without a
function, and how many were asked for. -/
theorem query_exact {s : Snapshot} (hs : Increasing s.nodes) (names : List String) (depth : Int) :
    let report := query s names depth
    let within := if 0 < depth then depth.toNat else 3
    (∃ targets : List GraphNode, Increasing targets ∧
      (∀ n, n ∈ targets ↔ n ∈ s.nodes ∧ (n.fullName ∈ names ∨ n.canonicalName ∈ names)) ∧
      List.Forall₂ (IsImpactOf s within) targets report.impacts ∧
      report.totalAffected =
        (targets.flatMap fun t => (s.reach .callers t.id within).map (·.node)).toFinset.card) ∧
    report.functionsAnalyzed = names.length ∧
    report.unmatched.Pairwise (fun a b => names.idxOf a < names.idxOf b) ∧
    (∀ name, name ∈ report.unmatched ↔
      name ∈ names ∧ ∀ n ∈ s.nodes, n.fullName ≠ name ∧ n.canonicalName ≠ name) ∧
    report.affectedFiles.Pairwise (· < ·) ∧
    (∀ file, file ∈ report.affectedFiles ↔ ∃ i ∈ report.impacts, ∃ c ∈ i.callers, c.file = file) ∧
    ∀ other, (∀ name, name ∈ other ↔ name ∈ names) →
      (query s other depth).unmatched.Perm report.unmatched ∧
        query s other depth =
          { report with
            unmatched := (query s other depth).unmatched
            functionsAnalyzed := other.length } := by
  intro report within
  refine ⟨⟨s.named names, hs.filter _, fun n => mem_named_iff, ?_, totalAffected_eq hs⟩, rfl,
    pairwise_unmatched, fun name => mem_unmatched_iff, pairwise_orderedTexts _,
    fun file => mem_affectedFiles_iff, fun other => query_congr s depth⟩
  exact List.forall₂_map_right_iff.mpr
    (List.forall₂_same.mpr fun n _ => isImpactOf_impactOf s within n)

/-- Two methods with one canonical name, of which the first calls the second; a function calls the
first, and another one calls it. -/
def sharedName : Snapshot :=
  let node (id : Int) (fullName canonicalName localName : String) : GraphNode :=
    { id, fullName, canonicalName, package := "m", localName, file := "a.go"
      lineStart := 1, lineEnd := 1, exported := true }
  { nodes := [node 1 "(*m.T).Run" "m.T.Run" "T.Run", node 2 "(m.T).Run" "m.T.Run" "T.Run",
      node 3 "m.main" "m.main" "main", node 4 "m.init" "m.init" "init"]
    edges := [⟨3, 1, "a.go", 2⟩, ⟨1, 2, "a.go", 4⟩, ⟨4, 3, "b.go", 5⟩] }

/-- One name asks for both methods, a second name for the first of them once more. -/
theorem query_exact_sharedName :
    let names := ["m.T.Run", "m.gone", "(*m.T).Run", "m.gone"]
    let report := query sharedName names 0
    Increasing sharedName.nodes ∧ (sharedName.named names).map (·.id) = [1, 2] ∧
    report.unmatched = ["m.gone"] ∧ report.totalAffected = 3 ∧
    ∃ targets : List GraphNode, Increasing targets ∧
      (∀ n, n ∈ targets ↔ n ∈ sharedName.nodes ∧ (n.fullName ∈ names ∨ n.canonicalName ∈ names)) ∧
      List.Forall₂ (IsImpactOf sharedName 3) targets report.impacts ∧
      report.totalAffected = (targets.flatMap fun t =>
        (sharedName.reach .callers t.id 3).map (·.node)).toFinset.card := by
  intro names report
  have hs : Increasing sharedName.nodes := by
    unfold Increasing
    decide
  refine ⟨hs, by cbv, ?_, ?_, (query_exact hs names 0).1⟩
  all_goals
    unfold report query
    dsimp only
    cbv

end CallImpact.Impact
