import CallImpact.Construct
import CallImpact.Proofs.Construct.Rapid

/-!
# Outcomes of constructions

What each construction gives when it works out, and what an attempt with cheaper algorithms to fall
back on gives: what one of the constructions gives, or the failure of one (`constructFrom_outcome`).
-/

namespace CallImpact

/-- A construction that works out, as a run within its budget. -/
theorem run_of_construct {p : Program} {algorithm : Algorithm} {entries : List Nat}
    {maxSteps : Nat} {r : Resolution} (h : construct p algorithm entries maxSteps = .ok r) :
    (construction p entries algorithm).run maxSteps = .ok r := by
  unfold construct at h
  split at h
  · rename_i hrun
    cases h
    exact hrun
  · cases h

/-- The edges of direct calls are part of those of the type hierarchy. -/
theorem directEdges_sublist (p : Program) :
    (edgesOf ((dispatchTable p).map (List.map directTargets))).Sublist
      (edgesOf ((dispatchTable p).map (List.map (hierarchyTargets p)))) := by
  refine edgesOf_sublist ?_
  rw [List.forall₂_map_left_iff, List.forall₂_map_right_iff, List.forall₂_same]
  intro ds _
  rw [List.forall₂_map_left_iff, List.forall₂_map_right_iff, List.forall₂_same]
  exact fun d _ => directTargets_sublist p d

/-- The edges of a table between direct calls and the type hierarchy are between theirs. -/
theorem Refines.edges_sublist {p : Program} {table : List (List (List Nat))} (h : Refines p table) :
    (edgesOf ((dispatchTable p).map (List.map directTargets))).Sublist (edgesOf table) ∧
      (edgesOf table).Sublist
        (edgesOf ((dispatchTable p).map (List.map (hierarchyTargets p)))) := by
  refine ⟨edgesOf_sublist ?_, edgesOf_sublist ?_⟩
  · rw [List.forall₂_map_left_iff]
    refine h.imp fun ds sites hsites => ?_
    rw [List.forall₂_map_left_iff]
    exact hsites.imp fun d cs hcs => hcs.1
  · rw [List.forall₂_map_right_iff]
    refine h.flip.imp fun sites ds hsites => ?_
    rw [List.forall₂_map_right_iff]
    exact hsites.flip.imp fun cs d hcs => hcs.2

section
variable {p : Program} {entries : List Nat} {maxSteps : Nat} {r : Resolution}

/-- The edges of direct calls are those of what calls call directly. -/
theorem edges_direct (h : construct p .direct entries maxSteps = .ok r) :
    r.edges = edgesOf ((dispatchTable p).map (List.map directTargets)) := by
  rw [(buildDirect_costs p).eq_of_run (run_of_construct h)]

/-- The edges of the type hierarchy are those of all that calls can reach. -/
theorem edges_hierarchy (h : construct p .hierarchy entries maxSteps = .ok r) :
    r.edges = edgesOf ((dispatchTable p).map (List.map (hierarchyTargets p))) := by
  rw [(buildHierarchy_costs p).eq_of_run (run_of_construct h)]

/-- By the type hierarchy a call calls all its targets. -/
theorem mem_edges_hierarchy (h : construct p .hierarchy entries maxSteps = .ok r)
    {caller site n : Nat} {f : Function} {d : Dispatch} (hf : p.functions[caller]? = some f)
    (hd : (p.dispatches f)[site]? = some d) :
    ⟨caller, site, n⟩ ∈ r.edges ↔ n ∈ hierarchyTargets p d := by
  rw [edges_hierarchy h, mem_edgesOf]
  simp [dispatchTable, hf, hd]

/-- The edges of type flow are between the direct ones and those of the type hierarchy. -/
theorem edges_typeFlow (h : construct p .typeFlow entries maxSteps = .ok r) :
    (edgesOf ((dispatchTable p).map (List.map directTargets))).Sublist r.edges ∧
      r.edges.Sublist (edgesOf ((dispatchTable p).map (List.map (hierarchyTargets p)))) := by
  obtain ⟨table, hr, htable⟩ := (buildTypeFlow_ensures (fun _ => True) trivial p
    fun _ _ => .inr fun _ _ => trivial).of_run (run_of_construct h)
  rw [hr]
  exact htable.edges_sublist

/-- The edges of rapid type analysis are some of the type hierarchy, and the functions it covers are
settled: what they call directly is there, and nothing leads out. -/
theorem edges_rapid (h : construct p .rapid entries maxSteps = .ok r) :
    ∃ covered, r.reachable = some covered ∧
      r.edges.Sublist (edgesOf ((dispatchTable p).map (List.map (hierarchyTargets p)))) ∧
      ∀ f ∈ covered, Rapid.Settled p r.edges f := by
  obtain ⟨covered, hcovered, -, hsub, hsettled⟩ :=
    (buildRapid_ensures (fun _ => True) trivial trivial p entries
      (.inr fun _ _ => trivial)).of_run (run_of_construct h)
  exact ⟨covered, hcovered, hsub, hsettled⟩

/-- Every algorithm finds part of the edges of the type hierarchy. -/
theorem edges_sublist_hierarchy {algorithm : Algorithm}
    (h : construct p algorithm entries maxSteps = .ok r) :
    r.edges.Sublist (edgesOf ((dispatchTable p).map (List.map (hierarchyTargets p)))) := by
  cases algorithm with
  | direct =>
    rw [edges_direct h]
    exact directEdges_sublist p
  | hierarchy =>
    rw [edges_hierarchy h]
  | rapid =>
    obtain ⟨-, -, hsub, -⟩ := edges_rapid h
    exact hsub
  | typeFlow => exact (edges_typeFlow h).2

/-- Whatever the algorithm, edges come in order, none twice. -/
theorem pairwise_edges {algorithm : Algorithm}
    (h : construct p algorithm entries maxSteps = .ok r) : r.edges.Pairwise Edge.Lt :=
  (pairwise_hierarchyEdges p).sublist (edges_sublist_hierarchy h)

/-- Only rapid type analysis leaves functions out. -/
theorem reachable_of_construct {algorithm : Algorithm}
    (h : construct p algorithm entries maxSteps = .ok r) (hne : algorithm ≠ .rapid) :
    r.reachable = none := by
  have hrun := run_of_construct h
  cases algorithm with
  | direct => rw [(buildDirect_costs p).eq_of_run hrun]
  | hierarchy => rw [(buildHierarchy_costs p).eq_of_run hrun]
  | rapid => exact absurd rfl hne
  | typeFlow =>
    obtain ⟨table, hr, -⟩ := (buildTypeFlow_ensures (fun _ => True) trivial p
      fun _ _ => .inr fun _ _ => trivial).of_run hrun
    rw [hr]

end

/-! ## Falling back -/

/-- An attempt gives what the construction of its algorithm gives, and a failure that it reports is
one of those before or of a construction. -/
theorem constructFrom_outcome (p : Program) (entries : List Nat) (maxSteps : Nat)
    (reported : Failure → Prop)
    (hreported : ∀ algorithm failure, construct p algorithm entries maxSteps = .error failure →
      reported failure)
    (allowFallback : Bool) (more : Nat) (algorithm : Algorithm) (first : Option Failure)
    (hfirst : ∀ failure ∈ first, reported failure) :
    match constructFrom p entries maxSteps allowFallback more algorithm first with
    | .ok a => construct p a.algorithm entries maxSteps = .ok a.resolution ∧
        ∀ failure ∈ a.failure, reported failure
    | .error failure => reported failure := by
  induction more generalizing algorithm first with
  | zero =>
    unfold constructFrom
    cases hc : construct p algorithm entries maxSteps with
    | ok resolution => exact ⟨hc, hfirst⟩
    | error failure =>
      cases first with
      | none => exact hreported algorithm failure hc
      | some f => exact hfirst f rfl
  | succ more ih =>
    unfold constructFrom
    cases hc : construct p algorithm entries maxSteps with
    | ok resolution => exact ⟨hc, hfirst⟩
    | error failure =>
      have hfailure : reported (first.getD failure) := by
        cases first with
        | none => exact hreported algorithm failure hc
        | some f => exact hfirst f rfl
      cases algorithm.fallback? with
      | none => exact hfailure
      | some next =>
        cases allowFallback with
        | false => exact hfailure
        | true => exact ih next _ fun f hf => by cases hf; exact hfailure

end CallImpact
