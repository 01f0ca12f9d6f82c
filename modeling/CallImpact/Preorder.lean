/-!
# Depth-first order

`preorder` lists what can be reached from a node in depth-first order, each node once, its
successors directly after it. It keeps the nodes that are still to be visited on a stack.
`firstAnswer?` and `gathered` do without a stack: they visit each successor of a node and all behind
it before the next one, and hand on which nodes they have seen. The one ends with the first answer,
the other gathers what all nodes have. Only nodes of a given finite list have successors, so all
three end also when the graph has cycles.
-/

namespace CallImpact

variable {α β : Type} [DecidableEq α]

/-- Marking a known node as seen leaves fewer known nodes unseen. -/
theorem countP_unseen_lt {known seen : List α} {t : α} (hk : t ∈ known) (hs : t ∉ seen) :
    known.countP (fun x => x ∉ t :: seen) < known.countP (fun x => x ∉ seen) := by
  induction known with
  | nil => simp at hk
  | cons a rest ih =>
    have hle : rest.countP (fun x => x ∉ t :: seen) ≤ rest.countP (fun x => x ∉ seen) :=
      List.countP_mono_left (by simp_all)
    by_cases hat : a = t
    · subst hat
      simp [hs] at hle ⊢
      omega
    · have hlt := ih (by simpa [Ne.symm hat] using hk)
      by_cases ha : a ∈ seen <;> simp [hat, ha] at hlt ⊢ <;> omega

/-- Seeing more nodes leaves no more known nodes unseen. -/
theorem countP_unseen_le {known seen later : List α} (h : seen ⊆ later) :
    known.countP (fun x => x ∉ later) ≤ known.countP fun x => x ∉ seen :=
  List.countP_mono_left fun x _ hx => by
    simp only [decide_eq_true_eq] at hx ⊢
    exact fun hseen => hx (h hseen)

/-- The nodes that can be reached from the stack without passing through seen ones. -/
def preorderFrom (known : List α) (next : α → List α) (seen : List α) : List α → List α
  | [] => []
  | t :: stack =>
    if t ∈ seen then preorderFrom known next seen stack
    else if t ∈ known then t :: preorderFrom known next (t :: seen) (next t ++ stack)
    else t :: preorderFrom known next (t :: seen) stack
termination_by stack => (known.countP fun x => x ∉ seen, stack.length)
decreasing_by
  · exact Prod.Lex.right _ (by simp)
  · exact Prod.Lex.left _ _ (countP_unseen_lt ‹_› ‹_›)
  · rename_i hk
    have : known.countP (fun x => x ∉ t :: seen) = known.countP fun x => x ∉ seen :=
      List.countP_congr fun x hx => by
        have : x ≠ t := fun h => hk (h ▸ hx)
        simp [this]
    rw [this]
    exact Prod.Lex.right _ (by simp)

/-- The nodes that can be reached from `start`, itself first. -/
def preorder (known : List α) (next : α → List α) (start : α) : List α :=
  preorderFrom known next [] [start]

/-- The successors of a node, none when it is not known. -/
def following (known : List α) (next : α → List α) (t : α) : List α :=
  if t ∈ known then next t else []

/-- To go down to what follows an unseen node makes progress: there are fewer unseen known nodes, or
as many and nothing follows. -/
theorem following_lex (next : α → List α) {known seen nodes : List α} {t : α} (ht : t ∉ seen) :
    Prod.Lex (· < ·) (· < ·)
      (known.countP fun x => x ∉ t :: seen, (following known next t).length)
      (known.countP fun x => x ∉ seen, (t :: nodes).length) := by
  unfold following
  split
  · exact .left _ _ (countP_unseen_lt ‹_› ht)
  · exact .right' _ (countP_unseen_le (List.subset_cons_self t seen)) (by simp)

/-- To go on with the nodes behind one makes progress, whatever has been seen since. -/
theorem behind_lex (known : List α) {seen later nodes : List α} {t : α} (h : seen ⊆ later) :
    Prod.Lex (· < ·) (· < ·) (known.countP fun x => x ∉ later, nodes.length)
      (known.countP fun x => x ∉ seen, (t :: nodes).length) :=
  .right' _ (countP_unseen_le h) (by simp)

/-- Asks nodes and all behind them, each node before its successors and these before the next node,
and passes over seen ones. Gives the first answer, or the nodes seen when there is none. -/
def searchFrom (known : List α) (next : α → List α) (answer : α → Option β) (seen : List α) :
    List α → β ⊕ { later : List α // seen ⊆ later }
  | [] => .inr ⟨seen, List.Subset.refl seen⟩
  | t :: nodes =>
    if t ∈ seen then searchFrom known next answer seen nodes
    else
      match answer t with
      | some b => .inl b
      | none =>
        match searchFrom known next answer (t :: seen) (following known next t) with
        | .inl b => .inl b
        | .inr ⟨later, hlater⟩ =>
          have hseen : seen ⊆ later := List.Subset.trans (List.subset_cons_self t seen) hlater
          (searchFrom known next answer later nodes).map id fun last =>
            ⟨last.1, List.Subset.trans hseen last.2⟩
termination_by nodes => (known.countP fun x => x ∉ seen, nodes.length)
decreasing_by
  · exact behind_lex known (List.Subset.refl seen)
  · exact following_lex next ‹_›
  · exact behind_lex known hseen

/-- The first answer of a node or of one behind it. -/
def firstAnswer? (known : List α) (next : α → List α) (answer : α → Option β) (start : α) :
    Option β :=
  (searchFrom known next answer [] [start]).getLeft?

/-- Gathers what nodes and all behind them have, in the order of `searchFrom`, and passes over seen
ones. Gives the nodes seen as well. -/
def gatherFrom (known : List α) (next : α → List α) (own : α → List β) (seen : List α) :
    List α → List β × { later : List α // seen ⊆ later }
  | [] => ([], ⟨seen, List.Subset.refl seen⟩)
  | t :: nodes =>
    if t ∈ seen then gatherFrom known next own seen nodes
    else
      let below := gatherFrom known next own (t :: seen) (following known next t)
      have hseen : seen ⊆ below.2.1 := List.Subset.trans (List.subset_cons_self t seen) below.2.2
      let others := gatherFrom known next own below.2.1 nodes
      (own t ++ below.1 ++ others.1, ⟨others.2.1, List.Subset.trans hseen others.2.2⟩)
termination_by nodes => (known.countP fun x => x ∉ seen, nodes.length)
decreasing_by
  · exact behind_lex known (List.Subset.refl seen)
  · exact following_lex next ‹_›
  · exact behind_lex known hseen

/-- What a node and all behind it have. -/
def gathered (known : List α) (next : α → List α) (own : α → List β) (start : α) : List β :=
  (gatherFrom known next own [] [start]).1

end CallImpact
