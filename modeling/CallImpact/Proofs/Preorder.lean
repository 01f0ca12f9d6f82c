import CallImpact.Preorder
import Mathlib.Data.List.Basic
import Mathlib.Logic.Relation

/-!
# What a depth-first walk lists

A walk lists the nodes to which a way leads from its start (`mem_preorder`). On the way there, it
lists from a stack what can be reached through nodes that it has not seen (`mem_preorderFrom`): when
it takes a node from the stack, a way that passes the node can be cut off behind the last visit, so
nothing is lost by not coming back (`reachedFrom_cons_iff`).

What the walk lists first is decided by the order of successors: a node is listed before a successor
of an earlier one only when it is reached from a successor before that
(`exists_earlier_of_preorderFrom`).

A search that descends into one successor after another asks nodes in the order in which the walk
lists them, so both have the same first answer (`firstAnswer?_eq`). Whatever waits on the stack, the
walk has seen just what the search has seen when it comes back without an answer
(`findSome?_preorderFrom_append`). In the same way a union over all nodes gathers what the nodes
listed have (`gathered_eq`).
-/

namespace CallImpact

section
variable {α β : Type} {known : List α} {next : α → List α}

/-- Whether a walk that has seen some nodes goes on from a node to another. -/
def GoesOn (known : List α) (next : α → List α) (seen : List α) (a b : α) : Prop :=
  a ∈ known ∧ b ∈ next a ∧ b ∉ seen

/-- Whether a way through unseen nodes leads from the stack to a node. -/
def ReachedFrom (known : List α) (next : α → List α) (seen stack : List α) (x : α) : Prop :=
  ∃ q ∈ stack, q ∉ seen ∧ Relation.ReflTransGen (GoesOn known next seen) q x

/-- A step of a walk that has seen more is a step of the walk. -/
theorem GoesOn.of_cons {seen : List α} {t a b : α} (h : GoesOn known next (t :: seen) a b) :
    GoesOn known next seen a b :=
  ⟨h.1, h.2.1, fun hb => h.2.2 (List.mem_cons_of_mem t hb)⟩

/-- A seen node on the stack leads nowhere. -/
theorem reachedFrom_cons_of_mem {seen stack : List α} {t x : α} (ht : t ∈ seen) :
    ReachedFrom known next seen (t :: stack) x ↔ ReachedFrom known next seen stack x := by
  simp only [ReachedFrom, List.exists_mem_cons_iff, ht, not_true_eq_false, false_and, false_or]

variable [DecidableEq α]

/-- An unseen node on the stack is reached, and from then on its successors are on the stack. -/
theorem reachedFrom_cons_iff {seen stack : List α} {t x : α} (ht : t ∉ seen) :
    ReachedFrom known next seen (t :: stack) x ↔
      x = t ∨
        ReachedFrom known next (t :: seen) ((if t ∈ known then next t else []) ++ stack) x := by
  constructor
  · rintro ⟨q, hq, hnew, hleads⟩
    -- along the way, each node is the one taken or is reached without it
    induction hleads with
    | refl =>
      by_cases hqt : q = t
      · exact .inl hqt
      · have hstack : q ∈ stack := (List.mem_cons.mp hq).resolve_left hqt
        exact .inr ⟨q, List.mem_append_right _ hstack, by simp [hqt, hnew], .refl⟩
    | @tail a b _ hstep ih =>
      obtain ⟨hknown, hnext, hb⟩ := hstep
      by_cases hbt : b = t
      · exact .inl hbt
      · have hunseen : b ∉ t :: seen := by simp [hbt, hb]
        rcases ih with rfl | ⟨q', hq', hnew', hleads⟩
        · exact .inr ⟨b, by simp [hknown, hnext], hunseen, .refl⟩
        · exact .inr ⟨q', hq', hnew', hleads.tail ⟨hknown, hnext, hunseen⟩⟩
  · rintro (rfl | ⟨q, hq, hnew, hleads⟩)
    · exact ⟨x, List.mem_cons_self, ht, .refl⟩
    · have hunseen : q ∉ seen := fun h => hnew (List.mem_cons_of_mem t h)
      have hway : Relation.ReflTransGen (GoesOn known next seen) q x :=
        hleads.lift id fun _ _ => GoesOn.of_cons
      rcases List.mem_append.mp hq with hsucc | hstack
      · split at hsucc
        · rename_i hknown
          exact ⟨t, List.mem_cons_self, ht, .head ⟨hknown, hsucc, hunseen⟩ hway⟩
        · cases hsucc
      · exact ⟨q, List.mem_cons_of_mem t hstack, hunseen, hway⟩

/-- A walk lists the nodes to which a way through unseen nodes leads. -/
theorem mem_preorderFrom {seen stack : List α} {x : α} :
    x ∈ preorderFrom known next seen stack ↔ ReachedFrom known next seen stack x := by
  induction seen, stack using preorderFrom.induct known next with
  | case1 seen => simp [preorderFrom, ReachedFrom]
  | case2 seen t stack ht ih =>
    rw [preorderFrom, if_pos ht, ih, reachedFrom_cons_of_mem ht]
  | case3 seen t stack ht hknown ih =>
    rw [preorderFrom, if_neg ht, if_pos hknown, List.mem_cons, ih, reachedFrom_cons_iff ht,
      if_pos hknown]
  | case4 seen t stack ht hknown ih =>
    rw [preorderFrom, if_neg ht, if_neg hknown, List.mem_cons, ih, reachedFrom_cons_iff ht,
      if_neg hknown, List.nil_append]

/-- When only known nodes have successors, what is listed is what the start leads to. -/
theorem mem_preorder (hknown : ∀ a, a ∉ known → next a = []) {start x : α} :
    x ∈ preorder known next start ↔ Relation.ReflTransGen (fun a b => b ∈ next a) start x := by
  have hstep : GoesOn known next [] = fun a b => b ∈ next a := by
    funext a b
    refine propext ⟨fun h => h.2.1, fun hb => ?_⟩
    by_cases ha : a ∈ known
    · exact ⟨ha, hb, List.not_mem_nil⟩
    · rw [hknown a ha] at hb
      cases hb
  rw [preorder, mem_preorderFrom]
  simp [ReachedFrom, hstep]

/-! ## Search without a stack -/

/-- A walk goes on from an unseen node to what follows it. -/
theorem preorderFrom_of_not_mem {seen stack : List α} {t : α} (ht : t ∉ seen) :
    preorderFrom known next seen (t :: stack) =
      t :: preorderFrom known next (t :: seen) (following known next t ++ stack) := by
  rw [preorderFrom, if_neg ht, following]
  split <;> rfl

/-- The first answer along a walk is that of the search in the upper part of the stack, or else the
first one along a walk over the lower part that has seen what the search has. -/
theorem findSome?_preorderFrom_append (known : List α) (next : α → List α)
    (answer : α → Option β) (seen nodes stack : List α) :
    (preorderFrom known next seen (nodes ++ stack)).findSome? answer =
      (searchFrom known next answer seen nodes).elim some fun later =>
        (preorderFrom known next later.1 stack).findSome? answer := by
  induction seen, nodes using searchFrom.induct known next answer generalizing stack with
  | case1 seen => rw [searchFrom, List.nil_append, Sum.elim_inr]
  | case2 seen t nodes ht ih =>
    rw [searchFrom, if_pos ht, List.cons_append, preorderFrom, if_pos ht, ih]
  | case3 seen t nodes ht b hb =>
    rw [List.cons_append, preorderFrom_of_not_mem ht, List.findSome?_cons, hb]
    simp [searchFrom, ht, hb]
  | case4 seen t nodes ht hnone b hbelow ih =>
    rw [List.cons_append, preorderFrom_of_not_mem ht, List.findSome?_cons, hnone, ih, hbelow]
    simp [searchFrom, ht, hnone, hbelow]
  | case5 seen t nodes ht hnone later hlater hbelow hseen ih ihrest =>
    -- the walk over what follows the node leaves the other nodes on the stack
    rw [List.cons_append, preorderFrom_of_not_mem ht, List.findSome?_cons, hnone, ih, hbelow]
    simp only [searchFrom, ht, hnone, hbelow, ↓reduceIte, Sum.elim_inr, ihrest, Sum.elim_map]
    rfl

/-- The search finds the first answer in depth-first order. -/
theorem firstAnswer?_eq (known : List α) (next : α → List α) (answer : α → Option β) (start : α) :
    firstAnswer? known next answer start = (preorder known next start).findSome? answer := by
  have hwalk := findSome?_preorderFrom_append known next answer [] [start] []
  rw [List.append_nil] at hwalk
  rw [firstAnswer?, preorder, hwalk]
  cases searchFrom known next answer [] [start] with
  | inl b => rfl
  | inr later => simp [preorderFrom]

/-- What the nodes of a walk have is what is gathered in the upper part of the stack, and then what
the nodes of a walk over the lower part have that has seen the same. -/
theorem flatMap_preorderFrom_append (known : List α) (next : α → List α) (own : α → List β)
    (seen nodes stack : List α) :
    (preorderFrom known next seen (nodes ++ stack)).flatMap own =
      (gatherFrom known next own seen nodes).1 ++
        (preorderFrom known next (gatherFrom known next own seen nodes).2.1 stack).flatMap own := by
  induction seen, nodes using gatherFrom.induct known next own generalizing stack with
  | case1 seen => simp [gatherFrom]
  | case2 seen t nodes ht ih =>
    rw [gatherFrom, if_pos ht, List.cons_append, preorderFrom, if_pos ht, ih]
  | case3 seen t nodes ht below hseen ih ihothers =>
    rw [List.cons_append, preorderFrom_of_not_mem ht, List.flatMap_cons, ih, ihothers]
    simp [gatherFrom, ht, below]

/-- The union gathers what the nodes have in depth-first order. -/
theorem gathered_eq (known : List α) (next : α → List α) (own : α → List β) (start : α) :
    gathered known next own start = (preorder known next start).flatMap own := by
  have hwalk := flatMap_preorderFrom_append known next own [] [start] []
  rw [List.append_nil] at hwalk
  rw [gathered, preorder, hwalk]
  simp [preorderFrom]

/-! ## What is listed first -/

/-- The start itself is listed first. -/
theorem exists_preorder_eq_cons (known : List α) (next : α → List α) (start : α) :
    ∃ rest, preorder known next start = start :: rest := by
  unfold preorder preorderFrom
  split
  · rename_i hseen
    cases hseen
  · split
    · exact ⟨_, rfl⟩
    · exact ⟨_, rfl⟩

section
variable (hknown : ∀ a, a ∉ known → next a = [])
include hknown

/-- When only known nodes have successors, these come next, whether the node is known or not. -/
theorem preorderFrom_cons {seen stack : List α} {t : α} (ht : t ∉ seen) :
    preorderFrom known next seen (t :: stack) =
      t :: preorderFrom known next (t :: seen) (next t ++ stack) := by
  have hfollowing : following known next t = next t := by
    unfold following
    split
    · rfl
    · rename_i hunknown
      rw [hknown t hunknown]
  rw [preorderFrom_of_not_mem ht, hfollowing]

/-- The cases of a walk in which only known nodes have successors. -/
theorem preorderFrom_cases {motive : List α → List α → Prop} (nil : ∀ seen, motive seen [])
    (skip : ∀ seen t stack, t ∈ seen → motive seen stack → motive seen (t :: stack))
    (take : ∀ seen t stack, t ∉ seen → motive (t :: seen) (next t ++ stack) →
      motive seen (t :: stack)) (seen stack : List α) : motive seen stack := by
  induction seen, stack using preorderFrom.induct known next with
  | case1 seen => exact nil seen
  | case2 seen t stack ht ih => exact skip seen t stack ht ih
  | case3 seen t stack ht _ ih => exact take seen t stack ht ih
  | case4 seen t stack ht hunknown ih =>
    refine take seen t stack ht ?_
    rwa [hknown t hunknown, List.nil_append]

/-- A way leads to each node through nodes that are listed before it. -/
theorem exists_way_of_preorderFrom {seen stack before after : List α} {u : α}
    (h : preorderFrom known next seen stack = before ++ u :: after) :
    ∃ q ∈ stack, Relation.ReflTransGen (fun a b => a ∈ before ∧ b ∈ next a) q u := by
  induction seen, stack using preorderFrom_cases hknown generalizing before with
  | nil seen => simp [preorderFrom] at h
  | skip seen t stack ht ih =>
    rw [preorderFrom, if_pos ht] at h
    obtain ⟨q, hq, hway⟩ := ih h
    exact ⟨q, List.mem_cons_of_mem t hq, hway⟩
  | take seen t stack ht ih =>
    rw [preorderFrom_cons hknown ht] at h
    cases before with
    | nil =>
      cases h
      exact ⟨u, List.mem_cons_self, .refl⟩
    | cons first before =>
      obtain ⟨rfl, hrest⟩ := List.cons.inj h
      obtain ⟨q, hq, hway⟩ := ih hrest
      have hway : Relation.ReflTransGen (fun a b => a ∈ t :: before ∧ b ∈ next a) q u :=
        hway.lift id fun a b hstep => ⟨List.mem_cons_of_mem t hstep.1, hstep.2⟩
      rcases List.mem_append.mp hq with hsucc | hstack
      · exact ⟨t, List.mem_cons_self, .head ⟨List.mem_cons_self, hsucc⟩ hway⟩
      · exact ⟨q, List.mem_cons_of_mem t hstack, hway⟩

/-- What is listed while a node waits on the stack comes from the nodes above it. -/
theorem exists_above_of_preorderFrom {seen above below before after : List α} {b u : α}
    (h : preorderFrom known next seen (above ++ b :: below) = before ++ u :: after)
    (hseen : b ∉ seen) (hbefore : b ∉ before) (hne : b ≠ u) :
    ∃ a ∈ above, Relation.ReflTransGen (fun a b => b ∈ next a) a u := by
  generalize hstack : above ++ b :: below = stack at h
  induction seen, stack using preorderFrom_cases hknown generalizing above before with
  | nil seen => simp at hstack
  | skip seen t stack ht ih =>
    rw [preorderFrom, if_pos ht] at h
    cases above with
    | nil =>
      cases hstack
      exact absurd ht hseen
    | cons a above =>
      obtain ⟨rfl, hwaits⟩ := List.cons.inj hstack
      obtain ⟨a', ha', hway⟩ := ih hseen hbefore hwaits h
      exact ⟨a', List.mem_cons_of_mem a ha', hway⟩
  | take seen t stack ht ih =>
    rw [preorderFrom_cons hknown ht] at h
    cases above with
    | nil =>
      -- the waiting node is taken now, so it is listed first
      cases hstack
      cases before with
      | nil => exact absurd (List.cons.inj h).1 hne
      | cons first before =>
        obtain ⟨rfl, -⟩ := List.cons.inj h
        exact absurd List.mem_cons_self hbefore
    | cons a above =>
      obtain ⟨rfl, rfl⟩ := List.cons.inj hstack
      cases before with
      | nil =>
        cases h
        exact ⟨u, List.mem_cons_self, .refl⟩
      | cons first before =>
        obtain ⟨rfl, hrest⟩ := List.cons.inj h
        obtain ⟨hba, hlater⟩ := List.ne_and_not_mem_of_not_mem_cons hbefore
        have hunseen : b ∉ a :: seen := by simp [hba, hseen]
        obtain ⟨a', ha', hway⟩ := ih hunseen hlater (List.append_assoc _ _ _) hrest
        rcases List.mem_append.mp ha' with hsucc | habove
        · exact ⟨a, List.mem_cons_self, .head hsucc hway⟩
        · exact ⟨a', List.mem_cons_of_mem a habove, hway⟩

/-- What is listed after a node and before one of its successors comes from a successor before that
one. -/
theorem exists_earlier_of_preorderFrom {seen stack before after left right : List α} {w b u : α}
    (h : preorderFrom known next seen stack = before ++ u :: after) (hw : w ∈ before)
    (hnext : next w = left ++ b :: right) (hseen : b ∉ seen) (hbefore : b ∉ before) (hne : b ≠ u) :
    ∃ a ∈ left, Relation.ReflTransGen (fun a b => b ∈ next a) a u := by
  induction seen, stack using preorderFrom_cases hknown generalizing before with
  | nil seen => simp [preorderFrom] at h
  | skip seen t stack ht ih =>
    rw [preorderFrom, if_pos ht] at h
    exact ih h hw hseen hbefore
  | take seen t stack ht ih =>
    rw [preorderFrom_cons hknown ht] at h
    cases before with
    | nil => cases hw
    | cons first before =>
      obtain ⟨rfl, hrest⟩ := List.cons.inj h
      obtain ⟨hbt, hlater⟩ := List.ne_and_not_mem_of_not_mem_cons hbefore
      have hunseen : b ∉ t :: seen := by simp [hbt, hseen]
      rcases List.mem_cons.mp hw with rfl | hw
      · rw [hnext, List.append_assoc, List.cons_append] at hrest
        exact exists_above_of_preorderFrom hknown hrest hunseen hlater hne
      · exact ih hrest hw hunseen hlater

end

end

end CallImpact
