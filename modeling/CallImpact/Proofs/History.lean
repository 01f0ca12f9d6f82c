import CallImpact.History
import CallImpact.Proofs.Ordered
import Mathlib.Data.List.Basic

/-!
# Order and retention of histories

Instants are linearly ordered, so putting a history into order leaves one alone that is in order
(`newestFirst_of_newest`), and any entry comes right after those that are later
(`newestFirst_cons`). Retention divides a history into what is kept and what is removed
(`partition_perm`), keeps no more than the bound (`length_kept_le`), and keeps an entry by its
rank and its age alone (`mem_kept_iff`): one in front that is not older than the present is never
removed (`head_mem_kept`). Of a history in order the part in front is kept
(`Newest.kept_append_removed`), and all of that is kept again (`Newest.partition_kept`).
-/

namespace CallImpact

/-! ## Instants -/

namespace Instant

/-- One instant is no later than another when its seconds are fewer, or the same with no more
nanoseconds. -/
theorem le_iff {a b : Instant} :
    a.le b ↔ a.seconds < b.seconds ∨ a.seconds = b.seconds ∧ a.nanos ≤ b.nanos := by
  simp [le]

@[simp] theorem le_refl (a : Instant) : a.le a := by
  simp [le_iff]

/-- The order of instants is transitive. -/
theorem le_trans {a b c : Instant} (hab : a.le b) (hbc : b.le c) : a.le c := by
  rw [le_iff] at *
  omega

/-- Of any two instants one is no later than the other. -/
theorem le_total (a b : Instant) : a.le b || b.le a := by
  rw [Bool.or_eq_true, le_iff, le_iff]
  omega

/-- An instant some days earlier is earlier. -/
theorem le_of_daysBefore? {i earlier : Instant} {days : Nat}
    (h : i.daysBefore? days = some earlier) : earlier.le i := by
  unfold daysBefore? at h
  dsimp only at h
  split at h
  · cases h
    have hshift : (0 : Int) ≤ days * secondsPerDay := Int.natCast_nonneg _
    rw [le_iff]
    dsimp only
    omega
  · cases h

end Instant

namespace History

/-! ## Newest first -/

/-- A history in order, newest first. -/
def Newest (entries : List HistoryEntry) : Prop :=
  entries.Pairwise fun a b => b.created.le a.created

/-- Sorting the entries of a history neither loses nor adds one. -/
theorem newestFirst_perm (entries : List HistoryEntry) : (newestFirst entries).Perm entries :=
  List.mergeSort_perm _ _

/-- A history that is put into order is in order. -/
theorem newest_newestFirst (entries : List HistoryEntry) : Newest (newestFirst entries) := by
  apply List.pairwise_mergeSort
  · exact fun _ _ _ hab hbc => Instant.le_trans hbc hab
  · exact fun a b => Instant.le_total b.created a.created

/-- A history in order stays as it is when it is put into order. -/
theorem newestFirst_of_newest {entries : List HistoryEntry} (h : Newest entries) :
    newestFirst entries = entries :=
  List.mergeSort_of_pairwise h

/-- An entry comes after those that are later than it, and before the others. -/
theorem newestFirst_cons (e : HistoryEntry) (entries : List HistoryEntry) :
    ∃ later others, newestFirst (e :: entries) = later ++ e :: others ∧
      (later ++ others).Perm entries ∧
      later.length = entries.countP fun x => !x.created.le e.created := by
  obtain ⟨later, others, heq, hrest, hlater, hothers⟩ :=
    @exists_mergeSort_cons HistoryEntry (fun a b => b.created.le a.created)
      (fun _ _ _ hab hbc => Instant.le_trans hbc hab)
      (fun a b => Instant.le_total b.created a.created) e entries
  have hperm : (later ++ others).Perm entries := hrest ▸ List.mergeSort_perm _ _
  refine ⟨later, others, heq, hperm, ?_⟩
  rw [← hperm.countP_eq, List.countP_append, List.countP_eq_length.mpr fun x hx => ?_,
    List.countP_eq_zero.mpr fun x hx => by simp [hothers x hx], Nat.add_zero]
  simpa using hlater x hx

/-! ## Selections in front -/

section
variable {α : Type} {p : α → Bool} {l : List α}

/-- What is selected from a list comes first, when nothing selected comes after something else. -/
theorem filter_append_filter_not (h : l.Pairwise fun a b => p b → p a) :
    (l.filter p) ++ (l.filter fun x => !p x) = l := by
  induction l with
  | nil => rfl
  | cons a l ih =>
    obtain ⟨ha, hl⟩ := List.pairwise_cons.mp h
    by_cases hp : p a
    · rw [List.filter_cons_of_pos hp, List.filter_cons_of_neg (by simp [hp]), List.cons_append,
        ih hl]
    · have hnone : l.filter p = [] := List.filter_eq_nil_iff.mpr fun x hx hpx => hp (ha x hx hpx)
      have hrest := ih hl
      rw [hnone, List.nil_append] at hrest
      rw [List.filter_cons_of_neg hp, hnone, List.filter_cons_of_pos (by simp [hp]), hrest,
        List.nil_append]

/-- Where only earlier elements can satisfy a condition that a later one does, an element satisfies
it exactly when its place is below the number that do. -/
theorem lt_length_filter_iff (h : l.Pairwise fun a b => p b → p a) {i : Nat} {x : α}
    (hx : l[i]? = some x) : i < (l.filter p).length ↔ p x := by
  induction l generalizing i with
  | nil => cases hx
  | cons a l ih =>
    obtain ⟨ha, hl⟩ := List.pairwise_cons.mp h
    by_cases hp : p a
    · rw [List.filter_cons_of_pos hp, List.length_cons]
      cases i with
      | zero =>
        cases hx
        exact iff_of_true (Nat.succ_pos _) hp
      | succ i => exact Nat.succ_lt_succ_iff.trans (ih hl hx)
    · have hall : ∀ b ∈ a :: l, ¬ p b := by
        intro b hb
        rcases List.mem_cons.mp hb with rfl | hb
        · exact hp
        · exact fun hpb => hp (ha b hb hpb)
      rw [List.filter_eq_nil_iff.mpr hall]
      exact iff_of_false (Nat.not_lt_zero i) (hall x (List.mem_of_getElem? hx))

end

/-! ## Retention -/

section
variable (entries : List HistoryEntry) (maxCount : Nat) (bound : Option Instant)

/-- The entries that retention keeps stand in the order they had. -/
theorem kept_sublist : (partition entries maxCount bound).kept.Sublist entries := by
  have h := (List.filter_sublist (l := entries.zipIdx) (p := isKept maxCount bound)).map (·.1)
  rwa [List.zipIdx_map_fst] at h

/-- What is kept and what is removed make up the history. -/
theorem partition_perm :
    ((partition entries maxCount bound).kept ++ (partition entries maxCount bound).removed).Perm
      entries := by
  have h := (List.filter_append_perm (isKept maxCount bound) entries.zipIdx).map (·.1)
  rwa [List.map_append, List.zipIdx_map_fst] at h

variable {entries maxCount bound}

/-- The entries that retention removes are entries of the history. -/
theorem mem_of_mem_removed {e : HistoryEntry}
    (h : e ∈ (partition entries maxCount bound).removed) : e ∈ entries :=
  (partition_perm entries maxCount bound).mem_iff.mp (List.mem_append_right _ h)

/-- At most the given number of entries is kept. -/
theorem length_kept_le (entries : List HistoryEntry) (maxCount : Nat) (bound : Option Instant) :
    (partition entries maxCount bound).kept.length ≤ maxCount := by
  have hall : ∀ (l : List HistoryEntry) (k : Nat),
      ((l.zipIdx k).filter (isKept maxCount bound)).length ≤ maxCount - k := by
    intro l
    induction l with
    | nil => simp
    | cons e l ih =>
      intro k
      have hl := ih (k + 1)
      rw [List.zipIdx_cons, List.filter_cons]
      split
      · rename_i hk
        have : k < maxCount := by
          simp only [isKept, Bool.and_eq_true, decide_eq_true_eq] at hk
          exact hk.1
        rw [List.length_cons]
        omega
      · omega
  simpa [partition] using hall entries 0

/-- The first entry is kept unless it is older than the cut-off. -/
theorem head_mem_kept {e : HistoryEntry} (hcount : 0 < maxCount)
    (hbound : ∀ c ∈ bound, c.le e.created) :
    ∃ rest, (partition (e :: entries) maxCount bound).kept = e :: rest := by
  have hk : isKept maxCount bound (e, 0) := by
    cases bound with
    | none => simp [isKept, hcount]
    | some c => simp [isKept, hcount, hbound c rfl]
  exact ⟨_, by rw [partition, List.zipIdx_cons, List.filter_cons, if_pos hk, List.map_cons]⟩

/-- An entry that occurs once is kept when its rank is below the bound and it is not older than the
cut-off. -/
theorem mem_kept_iff {before after : List HistoryEntry} {e : HistoryEntry} (hb : e ∉ before)
    (ha : e ∉ after) : e ∈ (partition (before ++ e :: after) maxCount bound).kept ↔
      before.length < maxCount ∧ ∀ c ∈ bound, c.le e.created := by
  have hrank : ∀ x, (e, x) ∈ (before ++ e :: after).zipIdx ↔ x = before.length := by
    intro x
    rw [List.zipIdx_append, List.mem_append, List.zipIdx_cons, List.mem_cons, Nat.zero_add]
    have hnot : ∀ {entries : List HistoryEntry} {k : Nat}, e ∉ entries →
      (e, x) ∉ entries.zipIdx k :=
      fun hne hmem => hne (List.fst_mem_of_mem_zipIdx hmem)
    simp [hnot hb, hnot ha]
  have hkept : e ∈ (partition (before ++ e :: after) maxCount bound).kept ↔
      isKept maxCount bound (e, before.length) := by
    simp only [partition, List.mem_map, List.mem_filter, Prod.exists, exists_and_right,
      exists_eq_right, hrank, exists_eq_left]
  rw [hkept, isKept, Bool.and_eq_true, decide_eq_true_eq]
  cases bound <;> simp

/-- Of a history in order, an entry is not kept unless all entries before it are. -/
theorem Newest.pairwise_isKept (h : Newest entries) (maxCount : Nat) (bound : Option Instant) :
    entries.zipIdx.Pairwise fun a b => isKept maxCount bound b → isKept maxCount bound a := by
  rw [List.pairwise_iff_getElem]
  intro i j hi hj hij
  rw [List.length_zipIdx] at hi hj
  have hle : entries[j].created.le entries[i].created :=
    List.pairwise_iff_getElem.mp h i j hi hj hij
  simp only [List.getElem_zipIdx, isKept, Bool.and_eq_true, decide_eq_true_eq, Nat.zero_add]
  rintro ⟨hcount, hage⟩
  refine ⟨Nat.lt_trans hij hcount, ?_⟩
  cases bound with
  | none => rfl
  | some c => exact Instant.le_trans hage hle

/-- Of a history in order, what is kept comes first, and what is removed is the rest. -/
theorem Newest.kept_append_removed (h : Newest entries) (maxCount : Nat) (bound : Option Instant) :
    (partition entries maxCount bound).kept ++ (partition entries maxCount bound).removed =
      entries := by
  rw [partition, ← List.map_append, filter_append_filter_not (h.pairwise_isKept maxCount bound),
    List.zipIdx_map_fst]

/-- Of a history in order, the entry at a rank is kept when the rank is below the bound and the
entry is not older than the cut-off. -/
theorem Newest.lt_length_kept_iff (h : Newest entries) (maxCount : Nat) (bound : Option Instant)
    {i : Nat} {e : HistoryEntry} (he : entries[i]? = some e) :
    i < (partition entries maxCount bound).kept.length ↔
      i < maxCount ∧ ∀ c ∈ bound, c.le e.created := by
  have hrank : entries.zipIdx[i]? = some (e, i) := by
    rw [List.getElem?_zipIdx, he]
    simp
  rw [partition, List.length_map, lt_length_filter_iff (h.pairwise_isKept maxCount bound) hrank,
    isKept, Bool.and_eq_true, decide_eq_true_eq]
  cases bound <;> simp

/-- Nothing is removed from what was kept. -/
theorem Newest.partition_kept (h : Newest entries) (maxCount : Nat) (bound : Option Instant) :
    partition (partition entries maxCount bound).kept maxCount bound =
      ⟨(partition entries maxCount bound).kept, []⟩ := by
  have hparts := h.kept_append_removed maxCount bound
  have hranked : ∀ i e, (partition entries maxCount bound).kept[i]? = some e →
      i < maxCount ∧ ∀ c ∈ bound, c.le e.created := by
    intro i e he
    have hlt := (List.getElem?_eq_some_iff.mp he).1
    refine (h.lt_length_kept_iff maxCount bound ?_).mp hlt
    rw [← hparts, List.getElem?_append_left hlt, he]
  have hsorted : Newest (partition entries maxCount bound).kept := h.sublist (kept_sublist _ _ _)
  generalize (partition entries maxCount bound).kept = kept at hranked hsorted ⊢
  have hagain := hsorted.kept_append_removed maxCount bound
  have hlength : kept.length ≤ (partition kept maxCount bound).kept.length := by
    by_contra hlt
    rw [Nat.not_le] at hlt
    have he := List.getElem?_eq_getElem hlt
    exact Nat.lt_irrefl _ ((hsorted.lt_length_kept_iff maxCount bound he).mpr (hranked _ _ he))
  have hnone : (partition kept maxCount bound).removed = [] := by
    have hsum := congrArg List.length hagain
    rw [List.length_append] at hsum
    exact List.length_eq_zero_iff.mp (by omega)
  rw [hnone, List.append_nil] at hagain
  generalize partition kept maxCount bound = p at hagain hnone ⊢
  cases p
  exact congrArg₂ Partition.mk hagain hnone

end

/-- Whether an age bound has a cut-off at an instant. -/
def HasCutoff (now : Instant) (maxAgeDays : Nat) : Prop :=
  maxAgeDays = 0 ∨ (now.daysBefore? maxAgeDays).isSome

instance (now : Instant) (maxAgeDays : Nat) : Decidable (HasCutoff now maxAgeDays) :=
  inferInstanceAs (Decidable (_ ∨ _))

/-- The bound on age is no later than the present. -/
theorem le_of_cutoff {now : Instant} {maxAgeDays : Nat} {bound : Option Instant}
    (h : cutoff now maxAgeDays = .ok bound) : ∀ c ∈ bound, c.le now := by
  unfold cutoff at h
  split at h
  · cases h
    simp
  · split at h
    · rename_i earlier hearlier
      cases h
      rintro c ⟨⟩
      exact Instant.le_of_daysBefore? hearlier
    · cases h

/-- Where the bound on age can be represented, it is worked out. -/
theorem exists_cutoff {now : Instant} {maxAgeDays : Nat} (h : HasCutoff now maxAgeDays) :
    ∃ bound, cutoff now maxAgeDays = .ok bound := by
  unfold cutoff
  by_cases h0 : maxAgeDays = 0
  · exact ⟨none, if_pos h0⟩
  · obtain ⟨c, hc⟩ := Option.isSome_iff_exists.mp (h.resolve_left h0)
    exact ⟨some c, by rw [if_neg h0, hc]⟩

/-- What retention keeps is part of the history. -/
theorem kept_subset_of_retain {entries : List HistoryEntry} {maxCount maxAgeDays : Nat}
    {now : Instant} {p : Partition} (h : retain entries maxCount maxAgeDays now = .ok p) :
    p.kept ⊆ entries := by
  unfold retain at h
  cases hcut : cutoff now maxAgeDays with
  | error e =>
    rw [hcut] at h
    cases h
  | ok bound =>
    rw [hcut] at h
    cases h
    exact (kept_sublist entries maxCount bound).subset

/-- Retention works out when the age bound has a cut-off, which is not later than the present. -/
theorem retain_ok (entries : List HistoryEntry) (maxCount : Nat) {maxAgeDays : Nat} {now : Instant}
    (h : HasCutoff now maxAgeDays) :
    ∃ bound : Option Instant, (∀ c ∈ bound, c.le now) ∧
      retain entries maxCount maxAgeDays now = .ok (partition entries maxCount bound) := by
  obtain ⟨bound, hbound⟩ := exists_cutoff h
  refine ⟨bound, le_of_cutoff hbound, ?_⟩
  rw [retain, hbound]
  rfl

end History

end CallImpact
