import CallImpact.Proofs.Ordered
import CallImpact.Proofs.Snapshot.Walk

/-!
# Walks of growing depth

A walk that is given more levels goes on where the shorter one ends: what it meets first is what
the shorter one meets, and all that it meets then lies deeper (`exists_levels_add`). Sorting keeps
the two parts apart, since depth comes before all else. So the answer of a deeper walk is that of
a shallower one with functions behind it (`exists_reach_eq_append`), and the shallower answer is
what the deeper one holds up to its depth, with the same calls in the same order
(`deeper_extends`).
-/

namespace CallImpact.Snapshot

variable {s : Snapshot} {d : Direction}

/-! ## Levels -/

/-- A walk meets functions deeper than where it sets out, and at most its levels further down. -/
theorem depth_of_mem_levels {more depth : Nat} {seen level : List Int} {r : Reached}
    (h : r ∈ levels s d more depth seen level) : depth < r.depth ∧ r.depth ≤ depth + more := by
  induction more generalizing depth seen level with
  | zero => cases h
  | succ more ih =>
    rw [levels_succ] at h
    rcases List.mem_append.mp h with h | h
    · obtain ⟨hdepth, -⟩ := exists_neighbour_of_mem_unseen h
      omega
    · obtain ⟨hlt, hle⟩ := ih h
      omega

/-- A walk with further levels goes on where the one without them ends. -/
theorem exists_levels_add (s : Snapshot) (d : Direction) (more further depth : Nat)
    (seen level : List Int) :
    ∃ rest, levels s d (more + further) depth seen level =
      levels s d more depth seen level ++ rest ∧
      ∀ r ∈ rest, depth + more < r.depth := by
  induction more generalizing depth seen level with
  | zero =>
    refine ⟨levels s d further depth seen level, ?_, ?_⟩
    · rw [Nat.zero_add]
      rfl
    · intro r hr
      exact (depth_of_mem_levels hr).1
  | succ more ih =>
    let ids := (unseen (depth + 1) seen (level.flatMap (s.neighbours d))).map (·.node.id)
    obtain ⟨rest, heq, hrest⟩ := ih (depth + 1) (ids ++ seen) ids
    refine ⟨rest, ?_, ?_⟩
    · rw [Nat.succ_add, levels_succ, levels_succ, heq, List.append_assoc]
    · intro r hr
      have hdeeper := hrest r hr
      omega

/-! ## Answers -/

/-- What a walk reaches lies within its depth. -/
theorem depth_le_of_mem_reach {start : Int} {maxDepth : Nat} {r : Reached}
    (h : r ∈ s.reach d start maxDepth) : r.depth ≤ maxDepth := by
  have hle := (depth_of_mem_levels (List.mem_mergeSort.mp h)).2
  rwa [Nat.zero_add] at hle

/-- The answer of a deeper walk starts with that of a shallower one; the rest lies deeper. -/
theorem exists_reach_eq_append (s : Snapshot) (d : Direction) (start : Int) {near far : Nat}
    (h : near ≤ far) :
    ∃ rest, s.reach d start far = s.reach d start near ++ rest ∧ ∀ r ∈ rest, near < r.depth := by
  obtain ⟨further, rfl⟩ := Nat.exists_eq_add_of_le h
  obtain ⟨rest, heq, hrest⟩ := exists_levels_add s d near further 0 [start] [start]
  rw [Nat.zero_add] at hrest
  have hle : ∀ a ∈ levels s d near 0 [start] [start], ∀ b ∈ rest, Reached.le a b := by
    intro a ha b hb
    have hnear := (depth_of_mem_levels ha).2
    have hfar := hrest b hb
    exact Reached.le_iff.mpr (.inl (by omega))
  refine ⟨rest.mergeSort Reached.le, ?_, ?_⟩
  · rw [reach, heq, mergeSort_append_of_le Reached.trans_le Reached.total_le hle, reach]
  · intro r hr
    exact hrest r (List.mem_mergeSort.mp hr)

/-- Whatever the graph, the start and the direction: what a walk reaches is what a deeper one
reaches within its depth, in the same order and by the same calls, and the deeper answer begins
with it. -/
theorem deeper_extends (s : Snapshot) (d : Direction) (start : Int) {near far : Nat}
    (h : near ≤ far) :
    s.reach d start near = (s.reach d start far).filter (fun r => r.depth ≤ near) ∧
      s.reach d start near <+: s.reach d start far := by
  obtain ⟨rest, heq, hrest⟩ := exists_reach_eq_append s d start h
  have hkept : (s.reach d start near).filter (fun r => r.depth ≤ near) = s.reach d start near := by
    rw [List.filter_eq_self]
    intro r hr
    exact decide_eq_true (depth_le_of_mem_reach hr)
  have hleft : rest.filter (fun r => r.depth ≤ near) = [] := by
    rw [List.filter_eq_nil_iff]
    intro r hr
    have hlt := hrest r hr
    simpa using hlt
  rw [heq]
  refine ⟨?_, List.prefix_append _ _⟩
  rw [List.filter_append, hkept, hleft, List.append_nil]

/-- The case of walks of one and two steps through a cycle. -/
theorem deeper_extends_cyclic :
    1 ≤ 2 ∧ (cyclic.reach .callees 1 2).map (fun r => (r.node.id, r.depth, r.line)) =
      [(2, 1, 2), (4, 2, 7), (3, 2, 4)] ∧
    cyclic.reach .callees 1 1 = (cyclic.reach .callees 1 2).filter (fun r => r.depth ≤ 1) ∧
    cyclic.reach .callees 1 1 <+: cyclic.reach .callees 1 2 :=
  ⟨by decide, by cbv, deeper_extends cyclic .callees 1 (by decide)⟩

end CallImpact.Snapshot
