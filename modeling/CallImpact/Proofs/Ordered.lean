import CallImpact.Ordered
import CallImpact.Facts
import Mathlib.Data.List.Induction
import Mathlib.Data.List.Sort
import Mathlib.Data.String.Basic

/-!
# Ordered sets

An ordered set has the elements of the list it was made from (`mem_orderedSet`), in increasing order
(`pairwise_orderedSet`). So of two lists, the one with fewer elements gives a part of the ordered
set of the other, in the same order (`orderedNats_sublist`). First occurrences are the elements of a
list, each once (`mem_firstOccurrences`), in the order in which they come up
(`pairwise_firstOccurrences`). A stable sort puts elements that may come in either order as it finds
them: it starts with the first element that may come before all others
(`head?_mergeSort_eq_some_iff`), and sorts a list in two parts when the second may come after the
first (`mergeSort_append_of_le`).
-/

namespace CallImpact

section
variable {α : Type} {lt : α → α → Bool}

/-- Whether elements of which neither is less are equal. -/
def Connected (lt : α → α → Bool) : Prop :=
  ∀ a b, lt a b = false → lt b a = false → a = b

/-- Inserting an element adds it and keeps the others. -/
theorem mem_insertOrdered (hlt : Connected lt) {x y : α} {xs : List α} :
    y ∈ insertOrdered lt x xs ↔ y = x ∨ y ∈ xs := by
  induction xs with
  | nil => simp [insertOrdered]
  | cons z zs ih =>
    unfold insertOrdered
    split
    · exact List.mem_cons
    · split
      · rw [List.mem_cons, List.mem_cons, ih]
        exact or_left_comm
      · rename_i hxz hzx
        have hx : x = z := hlt x z (by simpa using hxz) (by simpa using hzx)
        rw [hx, List.mem_cons, ← or_assoc, or_self]

/-- An element that is not there is one more. -/
theorem perm_insertOrdered (hlt : Connected lt) {x : α} {xs : List α} (hx : x ∉ xs) :
    (insertOrdered lt x xs).Perm (x :: xs) := by
  induction xs with
  | nil => rfl
  | cons z zs ih =>
    obtain ⟨hne, hzs⟩ := List.ne_and_not_mem_of_not_mem_cons hx
    unfold insertOrdered
    split
    · rfl
    · split
      · exact ((ih hzs).cons z).trans (.swap x z zs)
      · rename_i hxz hzx
        exact absurd (hlt x z (by simpa using hxz) (by simpa using hzx)) hne

/-- A new element makes a list one longer. -/
theorem length_insertOrdered (hlt : Connected lt) {x : α} {xs : List α} (hx : x ∉ xs) :
    (insertOrdered lt x xs).length = xs.length + 1 :=
  (perm_insertOrdered hlt hx).length_eq

/-- The ordered set of a list has its elements. -/
theorem mem_orderedSet (hlt : Connected lt) {y : α} {xs : List α} :
    y ∈ orderedSet lt xs ↔ y ∈ xs := by
  have hfold : ∀ (xs set : List α),
      y ∈ xs.foldl (fun set x => insertOrdered lt x set) set ↔ y ∈ xs ∨ y ∈ set := by
    intro xs
    induction xs with
    | nil => simp
    | cons x xs ih =>
      intro set
      rw [List.foldl_cons, ih, mem_insertOrdered hlt, List.mem_cons, or_left_comm, or_assoc]
  rw [orderedSet, hfold]
  simp

/-- Inserting keeps the order. -/
theorem pairwise_insertOrdered (htrans : ∀ a b c, lt a b → lt b c → lt a c)
    (hlt : Connected lt) {x : α} {xs : List α} (h : xs.Pairwise fun a b => lt a b) :
    (insertOrdered lt x xs).Pairwise fun a b => lt a b := by
  induction xs with
  | nil => exact List.pairwise_singleton _ _
  | cons z zs ih =>
    obtain ⟨hz, hzs⟩ := List.pairwise_cons.mp h
    unfold insertOrdered
    split
    · rename_i hxz
      refine List.pairwise_cons.mpr ⟨fun y hy => ?_, h⟩
      rcases List.mem_cons.mp hy with rfl | hy
      · exact hxz
      · exact htrans _ _ _ hxz (hz y hy)
    · split
      · rename_i hzx
        refine List.pairwise_cons.mpr ⟨fun y hy => ?_, ih hzs⟩
        rcases (mem_insertOrdered hlt).mp hy with rfl | hy
        · exact hzx
        · exact hz y hy
      · exact h

/-- An ordered set is in order. -/
theorem pairwise_orderedSet (htrans : ∀ a b c, lt a b → lt b c → lt a c) (hlt : Connected lt)
    (xs : List α) : (orderedSet lt xs).Pairwise fun a b => lt a b := by
  have hfold : ∀ (xs set : List α), set.Pairwise (fun a b => lt a b) →
      (xs.foldl (fun set x => insertOrdered lt x set) set).Pairwise fun a b => lt a b := by
    intro xs
    induction xs with
    | nil => exact fun _ h => h
    | cons x xs ih => exact fun set h => ih _ (pairwise_insertOrdered htrans hlt h)
  exact hfold xs [] .nil

end

/-! ## Numbers and texts -/

/-- Of two different numbers one is the smaller. -/
theorem connected_nat : Connected fun a b : Nat => decide (a < b) := by
  intro a b hab hba
  rw [decide_eq_false_iff_not] at hab hba
  omega

/-- The order of numbers is transitive. -/
theorem trans_nat (a b c : Nat) : decide (a < b) → decide (b < c) → decide (a < c) := by
  intro hab hbc
  simp only [decide_eq_true_eq] at *
  omega

@[simp] theorem mem_orderedNats {n : Nat} {ns : List Nat} : n ∈ orderedNats ns ↔ n ∈ ns :=
  mem_orderedSet connected_nat

/-- Of two different texts one is the smaller. -/
theorem connected_text : Connected fun a b : String => decide (a < b) := by
  intro a b hab hba
  simp only [decide_eq_false_iff_not, not_lt] at hab hba
  exact le_antisymm hba hab

@[simp] theorem mem_orderedTexts {x : String} {xs : List String} : x ∈ orderedTexts xs ↔ x ∈ xs :=
  mem_orderedSet connected_text

/-- An ordered set of texts is increasing. -/
theorem pairwise_orderedTexts (xs : List String) : (orderedTexts xs).Pairwise (· < ·) := by
  have htrans : ∀ a b c : String, decide (a < b) → decide (b < c) → decide (a < c) := by
    intro a b c hab hbc
    simp only [decide_eq_true_eq] at *
    exact lt_trans hab hbc
  have h := pairwise_orderedSet htrans connected_text xs
  simp only [decide_eq_true_eq] at h
  exact h

/-- An ordered set of numbers is increasing. -/
theorem pairwise_orderedNats (ns : List Nat) : (orderedNats ns).Pairwise (· < ·) := by
  have h := pairwise_orderedSet trans_nat connected_nat ns
  simp only [decide_eq_true_eq] at h
  exact h

/-- The ordered set of fewer numbers is part of that of more. -/
theorem orderedNats_sublist {ms ns : List Nat} (h : ms ⊆ ns) :
    (orderedNats ms).Sublist (orderedNats ns) := by
  have hsub : orderedNats ms ⊆ orderedNats ns := fun n hn =>
    mem_orderedNats.mpr (h (mem_orderedNats.mp hn))
  have hms := pairwise_orderedNats ms
  exact List.sublist_of_subperm_of_pairwise (List.subperm_of_subset hms.nodup hsub) hms
    (pairwise_orderedNats ns)

/-! ## First occurrences -/

section
variable {α : Type} [BEq α] [LawfulBEq α]

/-- A further element counts unless it came up before. -/
theorem firstOccurrences_concat (xs : List α) (x : α) :
    firstOccurrences (xs ++ [x]) =
      if x ∈ firstOccurrences xs then firstOccurrences xs else firstOccurrences xs ++ [x] := by
  unfold firstOccurrences
  rw [List.foldl_concat]
  simp only [List.contains_iff_mem, List.mem_reverse]
  split
  · rfl
  · exact List.reverse_cons

@[simp] theorem mem_firstOccurrences {x : α} {xs : List α} : x ∈ firstOccurrences xs ↔ x ∈ xs := by
  induction xs using List.reverseRecOn with
  | nil => simp [firstOccurrences]
  | append_singleton xs y ih =>
    rw [firstOccurrences_concat]
    split
    · rename_i hy
      rw [ih, List.mem_append, List.mem_singleton, iff_self_or]
      rintro rfl
      exact ih.mp hy
    · rw [List.mem_append, List.mem_append, ih]

/-- The first occurrences of some elements are those of all, the other elements left out. -/
theorem firstOccurrences_filter (p : α → Bool) (xs : List α) :
    firstOccurrences (xs.filter p) = (firstOccurrences xs).filter p := by
  induction xs using List.reverseRecOn with
  | nil => rfl
  | append_singleton xs x ih =>
    rw [List.filter_append, firstOccurrences_concat]
    by_cases hx : p x
    · rw [List.filter_singleton, hx, cond_true, firstOccurrences_concat, ih]
      simp only [List.mem_filter, hx, and_true]
      split
      · rfl
      · rw [List.filter_append, List.filter_singleton, hx, cond_true]
    · rw [Bool.not_eq_true] at hx
      rw [List.filter_singleton, hx, cond_false, List.append_nil, ih]
      split
      · rfl
      · rw [List.filter_append, List.filter_singleton, hx, cond_false, List.append_nil]

/-- First occurrences come in the order in which the elements come up. -/
theorem pairwise_firstOccurrences (xs : List α) :
    (firstOccurrences xs).Pairwise fun a b => xs.idxOf a < xs.idxOf b := by
  induction xs using List.reverseRecOn with
  | nil => exact .nil
  | append_singleton xs x ih =>
    have hkept : ∀ y ∈ firstOccurrences xs, (xs ++ [x]).idxOf y = xs.idxOf y := fun y hy =>
      List.idxOf_append_of_mem (mem_firstOccurrences.mp hy)
    have hold : (firstOccurrences xs).Pairwise fun a b =>
        (xs ++ [x]).idxOf a < (xs ++ [x]).idxOf b :=
      ih.imp_of_mem fun ha hb hlt => by rwa [hkept _ ha, hkept _ hb]
    rw [firstOccurrences_concat]
    split
    · exact hold
    · rename_i hx
      rw [mem_firstOccurrences] at hx
      refine List.pairwise_append.mpr ⟨hold, List.pairwise_singleton _ _, fun a ha b hb => ?_⟩
      obtain rfl := List.mem_singleton.mp hb
      rw [hkept a ha, List.idxOf_append_of_notMem hx]
      have := List.idxOf_lt_length_of_mem (mem_firstOccurrences.mp ha)
      omega

/-- First occurrences are distinct. -/
theorem nodup_firstOccurrences (xs : List α) : (firstOccurrences xs).Nodup :=
  (pairwise_firstOccurrences xs).imp fun hlt he => absurd (he ▸ hlt) (Nat.lt_irrefl _)

/-- Lists with the same elements have the same first occurrences, in some order. -/
theorem perm_firstOccurrences {xs ys : List α} (h : ∀ x, x ∈ xs ↔ x ∈ ys) :
    (firstOccurrences xs).Perm (firstOccurrences ys) :=
  (List.perm_ext_iff_of_nodup (nodup_firstOccurrences xs)
    (nodup_firstOccurrences ys)).mpr fun x => by
    rw [mem_firstOccurrences, mem_firstOccurrences, h]

end

/-! ## Stable sorting -/

section
variable {α : Type} {le : α → α → Bool}

/-- What a sorted list puts behind its first element may come after it. -/
theorem exists_mergeSort_cons (htrans : ∀ a b c, le a b → le b c → le a c)
    (htotal : ∀ a b, le a b || le b a) (a : α) (xs : List α) :
    ∃ before after, (a :: xs).mergeSort le = before ++ a :: after ∧
      xs.mergeSort le = before ++ after ∧ (∀ x ∈ before, ¬ le a x) ∧ ∀ x ∈ after, le a x := by
  obtain ⟨before, after, hsorted, hrest, hbefore⟩ := List.mergeSort_cons htrans htotal a xs
  have hpairwise := List.pairwise_mergeSort htrans htotal (a :: xs)
  rw [hsorted, List.pairwise_append, List.pairwise_cons] at hpairwise
  exact ⟨before, after, hsorted, hrest, fun x hx => by simpa using hbefore x hx, hpairwise.2.1.1⟩

/-- A list is divided in one way only into elements that do not satisfy `p` and ones that do. -/
theorem append_inj_of_forall {p : α → Prop} {xs ys xs' ys' : List α} (heq : xs ++ ys = xs' ++ ys')
    (hxs : ∀ x ∈ xs, ¬ p x) (hys : ∀ y ∈ ys, p y) (hxs' : ∀ x ∈ xs', ¬ p x)
    (hys' : ∀ y ∈ ys', p y) : xs = xs' ∧ ys = ys' := by
  rcases List.append_eq_append_iff.mp heq with ⟨between, rfl, rfl⟩ | ⟨between, rfl, rfl⟩
  · obtain rfl : between = [] := List.eq_nil_iff_forall_not_mem.mpr fun x hx =>
      hxs' x (List.mem_append_right _ hx) (hys x (List.mem_append_left _ hx))
    exact ⟨(List.append_nil _).symm, rfl⟩
  · obtain rfl : between = [] := List.eq_nil_iff_forall_not_mem.mpr fun x hx =>
      hxs x (List.mem_append_right _ hx) (hys' x (List.mem_append_left _ hx))
    exact ⟨List.append_nil _, rfl⟩

/-- A list is sorted in two parts when its second part may come after the first. -/
theorem mergeSort_append_of_le (htrans : ∀ a b c, le a b → le b c → le a c)
    (htotal : ∀ a b, le a b || le b a) {xs ys : List α} (h : ∀ x ∈ xs, ∀ y ∈ ys, le x y) :
    (xs ++ ys).mergeSort le = xs.mergeSort le ++ ys.mergeSort le := by
  induction xs with
  | nil => rw [List.nil_append, List.mergeSort_nil, List.nil_append]
  | cons a xs ih =>
    obtain ⟨hys, hxs⟩ := List.forall_mem_cons.mp h
    obtain ⟨before, after, hsorted, hrest, hbefore, hafter⟩ :=
      exists_mergeSort_cons htrans htotal a (xs ++ ys)
    obtain ⟨before', after', hsorted', hrest', hbefore', hafter'⟩ :=
      exists_mergeSort_cons htrans htotal a xs
    rw [ih hxs, hrest', List.append_assoc] at hrest
    have hafter' : ∀ x ∈ after' ++ ys.mergeSort le, le a x := List.forall_mem_append.mpr
      ⟨hafter', fun y hy => hys y (List.mem_mergeSort.mp hy)⟩
    obtain ⟨rfl, rfl⟩ := append_inj_of_forall hrest hbefore' hafter' hbefore hafter
    rw [List.cons_append, hsorted, hsorted', List.append_assoc, List.cons_append]

/-- The first element of a sorted list is the first one that may come before all others. -/
theorem head?_mergeSort_eq_some_iff (htrans : ∀ a b c, le a b → le b c → le a c)
    (htotal : ∀ a b, le a b || le b a) {xs : List α} {x : α} :
    (xs.mergeSort le).head? = some x ↔ ∃ before after, xs = before ++ x :: after ∧
      (∀ y ∈ before, ¬ le y x) ∧ ∀ y ∈ after, le x y := by
  induction xs with
  | nil => simp
  | cons a xs ih =>
    obtain ⟨front, back, hsorted, hrest, hfront, hback⟩ := exists_mergeSort_cons htrans htotal a xs
    have hmem : ∀ y, y ∈ xs ↔ y ∈ front ∨ y ∈ back := fun y => by
      rw [← List.mem_mergeSort, hrest, List.mem_append]
    cases front with
    | nil =>
      -- `a` may come before all others
      have hxs : ∀ y ∈ xs, le a y := fun y hy => hback y (by simpa using (hmem y).mp hy)
      rw [hsorted, List.nil_append, List.head?_cons, Option.some.injEq]
      constructor
      · rintro rfl
        exact ⟨[], xs, rfl, by simp, hxs⟩
      · rintro ⟨_ | ⟨b, before⟩, after, heq, hbefore, -⟩
        · exact (List.cons.inj heq).1
        · obtain ⟨rfl, rfl⟩ := List.cons.inj heq
          exact absurd (hxs x (by simp)) (hbefore a List.mem_cons_self)
    | cons b front =>
      rw [hsorted, List.cons_append, List.head?_cons]
      rw [hrest, List.cons_append, List.head?_cons] at ih
      rw [ih]
      constructor
      · rintro ⟨before, after, heq, hbefore, hafter⟩
        have hb : some b = some x := ih.mpr ⟨before, after, heq, hbefore, hafter⟩
        obtain rfl := Option.some.inj hb
        exact ⟨a :: before, after, by rw [heq, List.cons_append],
          List.forall_mem_cons.mpr ⟨hfront b List.mem_cons_self, hbefore⟩, hafter⟩
      · rintro ⟨_ | ⟨c, before⟩, after, heq, hbefore, hafter⟩
        · obtain ⟨rfl, rfl⟩ := List.cons.inj heq
          have hb : b ∈ xs := (hmem b).mpr (.inl List.mem_cons_self)
          exact absurd (hafter b hb) (hfront b List.mem_cons_self)
        · obtain ⟨rfl, hxs⟩ := List.cons.inj heq
          exact ⟨before, after, hxs, (List.forall_mem_cons.mp hbefore).2, hafter⟩

end

/-! ## Types -/

/-- Types that are not less than each other are equal. -/
theorem connected_typeRef : Connected fun a b => !TypeRef.le b a := by
  intro a b hab hba
  simp only [TypeRef.le, Bool.not_eq_false', Bool.or_eq_true, Bool.and_eq_true,
    decide_eq_true_eq, beq_iff_eq] at hab hba
  rcases hab with hab | ⟨hab, hname⟩
  · rcases hba with hba | ⟨hba, -⟩
    · exact absurd (lt_trans hab hba) (lt_irrefl _)
    · exact absurd hba.symm (ne_of_lt hab)
  · rcases hba with hba | ⟨-, hname'⟩
    · exact absurd hba (hab ▸ lt_irrefl _)
    · cases a
      cases b
      rw [TypeRef.mk.injEq]
      exact ⟨hab.symm, le_antisymm hname' hname⟩

/-- One type is less than another when its package is, or its name in the same package. -/
theorem not_le_typeRef {a b : TypeRef} :
    (!TypeRef.le b a) = true ↔
      a.package < b.package ∨ a.package = b.package ∧ a.name < b.name := by
  simp only [TypeRef.le, Bool.not_eq_true', Bool.or_eq_false_iff, Bool.and_eq_false_iff,
    decide_eq_false_iff_not, beq_eq_false_iff_ne, not_lt, not_le]
  constructor
  · rintro ⟨hle, hne | hlt⟩
    · exact .inl (lt_of_le_of_ne hle (Ne.symm hne))
    · rcases lt_or_eq_of_le hle with h | h
      · exact .inl h
      · exact .inr ⟨h, hlt⟩
  · rintro (h | ⟨h, hlt⟩)
    · exact ⟨le_of_lt h, .inl (ne_of_gt h)⟩
    · exact ⟨le_of_eq h, .inr hlt⟩

/-- The strict order of types is transitive. -/
theorem trans_typeRef (a b c : TypeRef) :
    !TypeRef.le b a → !TypeRef.le c b → !TypeRef.le c a := by
  simp only [not_le_typeRef]
  rintro (hab | ⟨hab, hname⟩) (hbc | ⟨hbc, hname'⟩)
  · exact .inl (lt_trans hab hbc)
  · exact .inl (hbc ▸ hab)
  · exact .inl (hab ▸ hbc)
  · exact .inr ⟨hab.trans hbc, lt_trans hname hname'⟩

end CallImpact
