import CallImpact.Go.Node
import Mathlib.Data.List.Nodup

/-!
# The nodes of a syntax tree

The nodes of a tree with their paths, parents before children (`Node.spots`). A path leads to one
node only, since siblings are at different positions (`Node.nodup_paths`), and the nodes of a tree
have their children among them. `IsTree` says both of any list of nodes.
-/

namespace CallImpact.Go

namespace Node

mutual

/-- The nodes of the tree whose root is at a path, parents before children. -/
def spots (path : List Nat) : Node → List Spot
  | .mk kind role text extent children =>
    ⟨path, .mk kind role text extent children⟩ :: listSpots path 0 children

/-- The nodes of the trees of siblings; the first one has the given position below the path. -/
def listSpots (path : List Nat) (position : Nat) : List Node → List Spot
  | [] => []
  | n :: ns => spots (position :: path) n ++ listSpots path (position + 1) ns

end

section
variable {path : List Nat} {s c : Spot}

/-- A node below a list of nodes is one below an element, at the element's own position. -/
theorem mem_listSpots {position : Nat} {ns : List Node} :
    s ∈ listSpots path position ns ↔
      ∃ x ∈ ns.zipIdx position, s ∈ spots (x.2 :: path) x.1 := by
  induction ns generalizing position with
  | nil => simp [listSpots]
  | cons n ns ih => rw [listSpots, List.mem_append, ih, List.zipIdx_cons, List.exists_mem_cons_iff]

/-- The nodes of a tree are its root and the nodes of the trees below it. -/
theorem mem_spots {n : Node} :
    s ∈ n.spots path ↔ s = ⟨path, n⟩ ∨
      ∃ c ∈ (⟨path, n⟩ : Spot).children, s ∈ c.node.spots c.path := by
  cases n with
  | mk kind role text extent children =>
    rw [spots, List.mem_cons, mem_listSpots]
    refine or_congr_right ⟨?_, ?_⟩
    · rintro ⟨x, hx, hs⟩
      exact ⟨⟨x.2 :: path, x.1⟩, List.mem_map.mpr ⟨x, hx, rfl⟩, hs⟩
    · rintro ⟨c, hc, hs⟩
      obtain ⟨x, hx, rfl⟩ := List.mem_map.mp hc
      exact ⟨x, hx, hs⟩

/-- A node is among the nodes below it. -/
theorem self_mem_spots (n : Node) (path : List Nat) : ⟨path, n⟩ ∈ n.spots path :=
  mem_spots.mpr (.inl rfl)

/-- The nodes of a tree have their children among them. -/
theorem children_mem_spots {n : Node} (hs : s ∈ n.spots path) (hc : c ∈ s.children) :
    c ∈ n.spots path := by
  induction h : sizeOf n using Nat.strongRecOn generalizing n path with
  | ind size ih =>
    rcases mem_spots.mp hs with rfl | ⟨d, hd, hs⟩
    · exact mem_spots.mpr (.inr ⟨c, hc, self_mem_spots c.node c.path⟩)
    · have hlt : sizeOf d.node < size := h ▸ Spot.sizeOf_lt_of_mem_children hd
      exact mem_spots.mpr (.inr ⟨d, hd, ih _ hlt hs rfl⟩)

/-- The way to a node of a tree passes the root. -/
theorem suffix_of_mem_spots {n : Node} (hs : s ∈ n.spots path) : path <:+ s.path := by
  induction h : sizeOf n using Nat.strongRecOn generalizing n path with
  | ind size ih =>
    rcases mem_spots.mp hs with rfl | ⟨d, hd, hs⟩
    · exact List.suffix_rfl
    · have hlt : sizeOf d.node < size := h ▸ Spot.sizeOf_lt_of_mem_children hd
      have hsuffix := ih _ hlt hs rfl
      obtain ⟨x, -, rfl⟩ := List.mem_map.mp hd
      exact (List.suffix_cons _ _).trans hsuffix

/-- The way to a node below siblings passes one of them. -/
theorem suffix_of_mem_listSpots {position : Nat} {ns : List Node}
    (hs : s ∈ listSpots path position ns) : ∃ i ≥ position, (i :: path) <:+ s.path := by
  obtain ⟨x, hx, hs⟩ := mem_listSpots.mp hs
  exact ⟨x.2, List.le_snd_of_mem_zipIdx hx, suffix_of_mem_spots hs⟩

mutual

/-- No two nodes of a tree are at the same path. -/
theorem nodup_paths (path : List Nat) (n : Node) : ((n.spots path).map Spot.path).Nodup := by
  cases n with
  | mk kind role text extent children =>
    rw [spots, List.map_cons, List.nodup_cons]
    refine ⟨fun hmem => ?_, nodup_listPaths path 0 children⟩
    obtain ⟨s, hs, hpath⟩ := List.mem_map.mp hmem
    obtain ⟨i, -, hsuffix⟩ := suffix_of_mem_listSpots hs
    have hle := hsuffix.length_le
    rw [hpath, List.length_cons] at hle
    exact Nat.not_succ_le_self _ hle

/-- No two nodes below a list of nodes have the same path. -/
theorem nodup_listPaths (path : List Nat) (position : Nat) (ns : List Node) :
    ((listSpots path position ns).map Spot.path).Nodup := by
  cases ns with
  | nil => exact List.nodup_nil
  | cons n ns =>
    rw [listSpots, List.map_append]
    refine List.nodup_append.mpr ⟨nodup_paths _ n, nodup_listPaths path (position + 1) ns, ?_⟩
    rintro _ hfirst _ hrest rfl
    obtain ⟨s, hs, rfl⟩ := List.mem_map.mp hfirst
    obtain ⟨t, ht, hpath⟩ := List.mem_map.mp hrest
    obtain ⟨i, hi, hsuffix⟩ := suffix_of_mem_listSpots ht
    -- both ways pass a sibling, at different positions
    have hsuffix' := suffix_of_mem_spots hs
    rw [hpath] at hsuffix
    have heq := (List.suffix_of_suffix_length_le hsuffix hsuffix' (by simp)).eq_of_length (by simp)
    obtain ⟨rfl, -⟩ := List.cons.inj heq
    exact Nat.not_succ_le_self _ hi

end

end

end Node

/-- The named children of the child in a role, if there is one. -/
def Spot.namedIn (s : Spot) (role : Role) : List Spot :=
  ((s.child? role).map named).getD []

/-- What is named in the child of a role is what is named in the one node that plays it. -/
theorem Spot.mem_namedIn {s c : Spot} {role : Role} :
    c ∈ s.namedIn role ↔ ∃ d, s.child? role = some d ∧ c ∈ d.named := by
  unfold namedIn
  cases s.child? role with
  | none => simp
  | some d => simp

/-- Whether nodes have their children among them, and no two are at the same path. -/
structure IsTree (tree : List Spot) : Prop where
  children : ∀ s ∈ tree, ∀ c ∈ s.children, c ∈ tree
  eq_of_path : ∀ s ∈ tree, ∀ t ∈ tree, s.path = t.path → s = t

/-- The nodes below a node are a tree. -/
theorem isTree_spots (path : List Nat) (n : Node) : IsTree (n.spots path) where
  children _ hs _ hc := Node.children_mem_spots hs hc
  eq_of_path _ hs _ ht h := List.inj_on_of_nodup_map (Node.nodup_paths path n) hs ht h

namespace IsTree

variable {tree : List Spot} {s c : Spot} {role : Role}

/-- The child of a role in a tree lies in the tree. -/
theorem child? (h : IsTree tree) (hs : s ∈ tree) (hc : s.child? role = some c) : c ∈ tree :=
  h.children s hs c (List.mem_of_find?_eq_some hc)

/-- The named children of a node in a tree lie in the tree. -/
theorem named (h : IsTree tree) (hs : s ∈ tree) (hc : c ∈ s.named) : c ∈ tree :=
  h.children s hs c (List.mem_filter.mp hc).1

/-- The children that play a role in a tree lie in the tree. -/
theorem childrenIn (h : IsTree tree) (hs : s ∈ tree) (hc : c ∈ s.childrenIn role) : c ∈ tree :=
  h.children s hs c (List.mem_filter.mp hc).1

/-- What is named in the child of a role lies in the tree. -/
theorem namedIn (h : IsTree tree) (hs : s ∈ tree) (hc : c ∈ s.namedIn role) : c ∈ tree := by
  obtain ⟨d, hd, hc⟩ := Spot.mem_namedIn.mp hc
  exact h.named (h.child? hs hd) hc

end IsTree

end CallImpact.Go
