import CallImpact.Proofs.Store.Revision
import CallImpact.Proofs.Text.Cut

/-!
# What a reference selects

A reference selects the entry with that commit, and where there is none the newest of those whose
commit starts with it (`Selects`). Finding a graph, making it the latest and deleting it go by the
same rule, so for one reference they all take the same entry or all fail, and none of them touches
more than it has to (`references_select_alike`).
-/

namespace CallImpact

namespace History

/-! ## The rule -/

/-- Whether the commit of an entry starts with a reference. -/
def Matches (reference : String) (e : HistoryEntry) : Prop :=
  reference.toList <+: e.commit.toList

/-- Which entry of a history a reference selects. Of several from one instant that match it is the
first. -/
inductive Selects (history : List HistoryEntry) (reference : String) (e : HistoryEntry) : Prop where
  | exact (mem : e ∈ history) (commit : e.commit = reference)
  | newest (before after : List HistoryEntry) (split : history = before ++ e :: after)
      (others : ∀ x ∈ history, x.commit ≠ reference) (starts : Matches reference e)
      (first : ∀ x ∈ before, ¬ Matches reference x)
      (newest : ∀ x ∈ history, Matches reference x → x.created.le e.created)

variable {history : List HistoryEntry} {reference : String}

/-- A commit matches itself. -/
theorem matches_of_commit {e : HistoryEntry} (h : e.commit = reference) : Matches reference e := by
  subst h
  exact List.prefix_refl _

/-- Nothing is selected exactly where nothing matches. -/
theorem find?_eq_none_iff : find? history reference = none ↔
    ∀ e ∈ history, ¬ Matches reference e := by
  simp only [find?, Option.orElse_eq_orElse, Option.orElse_eq_or, Option.or_eq_none_iff,
    List.find?_eq_none, beq_iff_eq, Text.startsWith_iff]
  exact ⟨fun h => h.2, fun h => ⟨fun e he heq => h e he (matches_of_commit heq), h⟩⟩

/-- What is selected goes by the rule, when the history is in order. -/
theorem selects_of_find? {e : HistoryEntry} (hnewest : Newest history)
    (h : find? history reference = some e) : Selects history reference e := by
  unfold find? at h
  rw [Option.orElse_eq_orElse, Option.orElse_eq_or] at h
  cases hexact : history.find? fun e => e.commit == reference with
  | some found =>
    rw [hexact, Option.some_or] at h
    cases h
    have hcommit := List.find?_some hexact
    exact .exact (List.mem_of_find?_eq_some hexact) (beq_iff_eq.mp hcommit)
  | none =>
    rw [hexact, Option.none_or, List.find?_eq_some_iff_append] at h
    obtain ⟨hstarts, before, after, hsplit, hfirst⟩ := h
    have hearlier : ∀ x ∈ before, ¬ Matches reference x := by
      intro x hx hmatch
      have hnot := hfirst x hx
      rw [Text.startsWith_iff.mpr hmatch] at hnot
      cases hnot
    refine .newest before after hsplit ?_ (Text.startsWith_iff.mp hstarts) hearlier ?_
    · intro x hx heq
      exact List.find?_eq_none.mp hexact x hx (beq_iff_eq.mpr heq)
    · -- what comes before does not match, and what comes after is not newer
      intro x hx hmatch
      rw [hsplit] at hx hnewest
      obtain ⟨-, hrest, -⟩ := List.pairwise_append.mp hnewest
      rcases List.mem_append.mp hx with hx | hx
      · exact absurd hmatch (hearlier x hx)
      · rcases List.mem_cons.mp hx with rfl | hx
        · exact Instant.le_refl _
        · exact (List.pairwise_cons.mp hrest).1 x hx

/-- A reference of blanks alone is refused. -/
theorem checkReference_of_blank (h : Text.trim reference = "") :
    checkReference reference = .error (.inputInvalid "empty commit reference") :=
  if_pos h

/-- Any other reference is taken without the blanks around it. -/
theorem checkReference_of_ne (h : Text.trim reference ≠ "") :
    checkReference reference = .ok (Text.trim reference) :=
  if_neg h

end History

namespace Store

open History (Matches Selects)

/-! ## The operations by what is selected -/

section
variable {s : Store} {id reference : String} {record : Option ProjectRecord}

/-- A blank reference is refused before anything is read. -/
theorem refuse_blank (s : Store) (id : String) (h : Text.trim reference = "") :
    s.find id reference = .error (.inputInvalid "empty commit reference") ∧
    s.select id reference = .error (.inputInvalid "empty commit reference") := by
  exact ⟨by rw [find, History.checkReference_of_blank h]; rfl,
    by rw [select, History.checkReference_of_blank h]; rfl⟩

/-- Finding a graph looks for the reference in the history. -/
theorem find_eq (hread : s.record? id = .ok record) (h : Text.trim reference ≠ "") :
    s.find id reference =
      match History.find? (historyOf record) (Text.trim reference) with
      | some e => .ok (s.graphOf id e)
      | none => .error (noGraphFor (Text.trim reference)) := by
  simp only [find, History.checkReference_of_ne h, hread, bind, Except.bind]
  rfl

/-- Without a record there is nothing to select. -/
theorem select_none (hread : s.record? id = .ok none) (h : Text.trim reference ≠ "") :
    s.select id reference = .error (noGraphs id) := by
  simp only [select, History.checkReference_of_ne h, hread, bind, Except.bind]
  rfl

/-- Selecting an entry looks for the reference in the history of the record. -/
theorem select_some {r : ProjectRecord} (hread : s.record? id = .ok (some r))
    (h : Text.trim reference ≠ "") :
    s.select id reference =
      match History.find? r.history (Text.trim reference) with
      | some e => .ok (r, e)
      | none => .error (noGraphFor (Text.trim reference)) := by
  simp only [select, History.checkReference_of_ne h, hread, bind, Except.bind]
  rfl

/-- A reference that matches nothing finds nothing and selects nothing. -/
theorem refuse_unmatched (hread : s.record? id = .ok record) (h : Text.trim reference ≠ "")
    (hnone : ∀ e ∈ historyOf record, ¬ Matches (Text.trim reference) e) :
    (∃ message, s.find id reference = .error (.notFound message)) ∧
    ∃ message, s.select id reference = .error (.notFound message) := by
  have hfind : History.find? (historyOf record) (Text.trim reference) = none :=
    History.find?_eq_none_iff.mpr hnone
  refine ⟨⟨_, by rw [find_eq hread h, hfind]; rfl⟩, ?_⟩
  cases record with
  | none => exact ⟨_, select_none hread h⟩
  | some r =>
    have hfind : History.find? r.history (Text.trim reference) = none := hfind
    exact ⟨_, by rw [select_some hread h, hfind]; rfl⟩

/-- A reference that matches something finds and selects the entry that the rule gives. -/
theorem take_matched {r : ProjectRecord} (hread : s.record? id = .ok (some r))
    (h : Text.trim reference ≠ "") (hsome : ∃ e ∈ r.history, Matches (Text.trim reference) e) :
    ∃ e ∈ r.history, Selects r.history (Text.trim reference) e ∧
      s.find id reference = .ok (s.graphOf id e) ∧ s.select id reference = .ok (r, e) := by
  cases hfind : History.find? r.history (Text.trim reference) with
  | none =>
    obtain ⟨e, he, hmatch⟩ := hsome
    exact absurd hmatch (History.find?_eq_none_iff.mp hfind e he)
  | some e =>
    have hhistory : History.find? (historyOf (some r)) (Text.trim reference) = some e := hfind
    refine ⟨e, mem_of_find? hfind, History.selects_of_find? (newest_of_record? hread) hfind, ?_, ?_⟩
    · rw [find_eq hread h, hhistory]
    · rw [select_some hread h, hfind]

variable {r : ProjectRecord} {e : HistoryEntry}

/-- Making a graph the latest changes the latest commit alone. -/
theorem Recorded.setLatest (h : Recorded s id (some r))
    (hsel : s.select id reference = .ok (r, e)) :
    ∃ t, s.setLatest id reference = ({ s with tree := t }, .ok (s.graphOf id e)) ∧
      Leaves s id { r with latest := some ⟨e.commit, e.dataFile⟩ } [] t := by
  have hid : (r.pointAt (some e)).id = id := h.owner r rfl
  have hnewest := newest_of_record? h.read
  obtain ⟨t, ht, hrevised⟩ := h.revise hid [] (s.graphOf id e)
  refine ⟨t, ?_, hrevised.leaves hid hnewest⟩
  unfold Store.setLatest
  rw [hsel]
  exact ht

/-- Deleting a graph removes the entries of its commit and its data file. -/
theorem Recorded.delete (h : Recorded s id (some r)) (hsel : s.select id reference = .ok (r, e)) :
    ∃ t, s.delete id reference = ({ s with tree := t }, .ok (s.graphOf id e)) ∧
      Leaves s id (reduced r (r.history.filter fun x => x.commit != e.commit)) [e] t := by
  have hid : (reduced r (r.history.filter fun x => x.commit != e.commit)).id = id :=
    (id_reduced _ _).trans (h.owner r rfl)
  obtain ⟨t, ht, hrevised⟩ := h.revise hid [e] (s.graphOf id e)
  refine ⟨t, ?_, hrevised.leaves hid ?_⟩
  · unfold Store.delete
    rw [hsel]
    exact ht
  · rw [history_reduced]
    exact (newest_of_record? h.read).sublist List.filter_sublist

end

/-! ## The other entries -/

section
variable {before after : List HistoryEntry} {e : HistoryEntry}

/-- What no two entries share, an entry does not share with the others. -/
theorem ne_of_nodup_map {α : Type} {f : HistoryEntry → α}
    (h : ((before ++ e :: after).map f).Nodup) : ∀ x ∈ before ++ after, f x ≠ f e := by
  rw [(List.perm_middle.map f).nodup_iff, List.map_cons, List.nodup_cons] at h
  exact fun x hx heq => h.1 (heq ▸ List.mem_map_of_mem hx)

/-- The entries of other commits are all others, where no two entries share a commit. -/
theorem filter_commit_of_nodup (h : ((before ++ e :: after).map (·.commit)).Nodup) :
    (before ++ e :: after).filter (fun x => x.commit != e.commit) = before ++ after := by
  have hne := ne_of_nodup_map h
  have hall : ∀ x ∈ before ++ after, x.commit != e.commit := fun x hx => bne_iff_ne.mpr (hne x hx)
  rw [List.filter_append, List.filter_cons_of_neg (by simp), ← List.filter_append,
    List.filter_eq_self.mpr hall]

end

/-! ## The same entry -/

section
variable {s : Store} {id : String} {record : Option ProjectRecord}

/-- For one reference, finding a graph, making it the latest and deleting it take the same entry
or all fail. A blank reference is refused, and one that no commit starts with finds nothing; the
store is then as it was. Making a graph the latest changes the latest commit alone. Deleting one
takes away its entry and its data file, and moves the latest commit only if that was its own, to
the newest of the other entries. -/
theorem references_select_alike (h : Recorded s id record)
    (hcommits : ((historyOf record).map (·.commit)).Nodup)
    (hplaces : (places id (historyOf record)).Nodup)
    (hlatest : historyOf record ≠ [] →
      ∃ l ∈ latestOf record, ∃ e ∈ historyOf record, e.commit = l.commit)
    (reference : String) :
    (Text.trim reference = "" → ∃ message,
      s.find id reference = .error (.inputInvalid message) ∧
      s.setLatest id reference = (s, .error (.inputInvalid message)) ∧
      s.delete id reference = (s, .error (.inputInvalid message))) ∧
    (Text.trim reference ≠ "" → (∀ e ∈ historyOf record, ¬ Matches (Text.trim reference) e) →
      ∃ unfound unselected, s.find id reference = .error (.notFound unfound) ∧
        s.setLatest id reference = (s, .error (.notFound unselected)) ∧
        s.delete id reference = (s, .error (.notFound unselected))) ∧
    (Text.trim reference ≠ "" → (∃ e ∈ historyOf record, Matches (Text.trim reference) e) →
      ∃ r before e after latest pointed deleted, record = some r ∧
        r.history = before ++ e :: after ∧ History.Newest r.history ∧
        Selects r.history (Text.trim reference) e ∧
        s.find id reference = .ok (s.graphOf id e) ∧
        s.setLatest id reference = ({ s with tree := pointed }, .ok (s.graphOf id e)) ∧
        Leaves s id { r with latest := some ⟨e.commit, e.dataFile⟩ } [] pointed ∧
        s.delete id reference = ({ s with tree := deleted }, .ok (s.graphOf id e)) ∧
        Leaves s id { r with history := before ++ after, latest } [e] deleted ∧
        (∀ x ∈ before ++ after, dataPath id x.dataFile ≠ dataPath id e.dataFile) ∧
        ∃ l, r.latest = some l ∧ (l.commit ≠ e.commit → latest = some l) ∧
          (l.commit = e.commit →
            latest = (before ++ after).head?.map fun x => ⟨x.commit, x.dataFile⟩)) := by
  refine ⟨fun hblank => ?_, fun hgiven hnone => ?_, fun hgiven hsome => ?_⟩
  · obtain ⟨hfind, hsel⟩ := refuse_blank s id hblank
    exact ⟨_, hfind, by rw [setLatest, hsel], by rw [delete, hsel]⟩
  · obtain ⟨⟨unfound, hfind⟩, unselected, hsel⟩ := refuse_unmatched h.read hgiven hnone
    exact ⟨unfound, unselected, hfind, by rw [setLatest, hsel], by rw [delete, hsel]⟩
  · cases record with
    | none =>
      obtain ⟨e, he, -⟩ := hsome
      cases he
    | some r =>
      obtain ⟨e, he, hselects, hfind, hsel⟩ := take_matched h.read hgiven hsome
      obtain ⟨before, after, hsplit⟩ := List.append_of_mem he
      obtain ⟨pointed, hpoint, hpointed⟩ := h.setLatest hsel
      obtain ⟨deleted, hdelete, hdeleted⟩ := h.delete hsel
      obtain ⟨l, hl, named, hnamed, hcommit⟩ := hlatest (List.ne_nil_of_mem he)
      have hl : r.latest = some l := hl
      replace hcommits : ((before ++ e :: after).map (·.commit)).Nodup := hsplit ▸ hcommits
      replace hplaces : (places id (before ++ e :: after)).Nodup := hsplit ▸ hplaces
      have hother := ne_of_nodup_map hcommits
      rw [hsplit, filter_commit_of_nodup hcommits, reduced_eq] at hdeleted
      have hmoves := repointed_reduced r (before ++ after)
      refine ⟨r, before, e, after, _, pointed, deleted, rfl, hsplit, newest_of_record? h.read,
        hselects, hfind, hpoint, hpointed, hdelete, hdeleted, ne_of_nodup_map hplaces, l, hl,
        fun hne => ?_, fun heq => ?_⟩
      · -- the entry of the latest commit is another one, so it is still there
        refine hmoves.stays l hl ⟨named, ?_, hcommit⟩
        have hmem : named ∈ before ++ e :: after := hsplit ▸ hnamed
        rcases List.mem_append.mp hmem with hmem | hmem
        · exact List.mem_append_left _ hmem
        · rcases List.mem_cons.mp hmem with rfl | hmem
          · exact absurd hcommit.symm hne
          · exact List.mem_append_right _ hmem
      · refine hmoves.moves fun l' hl' x hx hxl => hother x hx ?_
        obtain rfl : l = l' := Option.some.inj (hl.symm.trans hl')
        exact hxl.trans heq

end

/-! ## A commit that starts another -/

/-- A record in which a newer commit, the latest, starts with an older one. -/
def nestedRecord : ProjectRecord :=
  { id := "p1", name := "app", latest := some ⟨"abc12", dataFileNamed "abc12"⟩
    history := [entryAt "abc12" 200, entryAt "abc1" 100] }

/-- A data directory with that record and its data files. -/
def nestedStore : Store :=
  storeWith nestedRecord [("abc1.db", .file .binary), ("abc12.db", .file .binary)]

/-- The sample record can be read from its store. -/
theorem recorded_nestedStore : Recorded nestedStore "p1" (some nestedRecord) := by
  have hnewest : History.Newest nestedRecord.history := by
    unfold History.Newest
    decide
  exact recorded_storeWith _ rfl hnewest

/-- The older commit is selected by its own name, also with blanks around it. -/
theorem references_select_alike_nestedStore :
    ((historyOf (some nestedRecord)).map (·.commit)).Nodup ∧
    (places "p1" (historyOf (some nestedRecord))).Nodup ∧
    nestedStore.find "p1" " abc1 " = .ok (nestedStore.graphOf "p1" (entryAt "abc1" 100)) ∧
    ∃ t, nestedStore.delete "p1" " abc1 " =
        ({ nestedStore with tree := t }, .ok (nestedStore.graphOf "p1" (entryAt "abc1" 100))) ∧
      ({ nestedStore with tree := t } : Store).record? "p1" =
        .ok (some { nestedRecord with history := [entryAt "abc12" 200] }) ∧
      t.hasFile (dataPath "p1" (dataFileNamed "abc12")) ∧
      ¬ t.hasFile (dataPath "p1" (dataFileNamed "abc1")) := by
  have hcommits : ((historyOf (some nestedRecord)).map (·.commit)).Nodup := by decide
  have hplaces : (places "p1" (historyOf (some nestedRecord))).Nodup := by decide +kernel
  have htrim : Text.trim " abc1 " = "abc1" := by decide +kernel
  refine ⟨hcommits, hplaces, ?_⟩
  obtain ⟨-, -, hsome⟩ := references_select_alike recorded_nestedStore hcommits hplaces
    (fun _ => ⟨⟨"abc12", _⟩, rfl, entryAt "abc12" 200, by simp [historyOf, nestedRecord], rfl⟩)
    " abc1 "
  rw [htrim] at hsome
  obtain ⟨r, before, e, after, latest, -, t, hr, hsplit, -, hselects, hfind, -, -, hdelete, hleaves,
    -, l, hl, hstays, -⟩ := hsome (by decide)
      ⟨entryAt "abc1" 100, by simp [historyOf, nestedRecord], List.prefix_refl _⟩
  cases hr
  have hcommit : e.commit = "abc1" := by
    cases hselects with
    | exact _ hcommit => exact hcommit
    | newest _ _ _ others =>
      exact absurd rfl (others (entryAt "abc1" 100) (by simp [nestedRecord]))
  obtain ⟨rfl, rfl, rfl⟩ :
      before = [entryAt "abc12" 200] ∧ e = entryAt "abc1" 100 ∧ after = [] := by
    rcases before with _ | ⟨x, _ | ⟨y, before⟩⟩
    · obtain ⟨rfl, -⟩ := List.cons.inj hsplit
      exact absurd hcommit (by decide)
    · obtain ⟨rfl, hrest⟩ := List.cons.inj hsplit
      obtain ⟨rfl, rfl⟩ := List.cons.inj hrest
      exact ⟨rfl, rfl, rfl⟩
    · obtain ⟨-, hrest⟩ := List.cons.inj hsplit
      obtain ⟨-, hrest⟩ := List.cons.inj hrest
      simp at hrest
  cases hl
  have hkept : latest = nestedRecord.latest := hstays (by decide)
  subst hkept
  refine ⟨hfind, t, hdelete, hleaves.record, ?_, ?_⟩
  · rw [FileTree.hasFile, hleaves.files _ (by decide +kernel) (by decide +kernel),
      if_neg (by decide +kernel)]
    rfl
  · rw [FileTree.hasFile, hleaves.files _ (by decide +kernel) (by decide +kernel),
      if_pos (by decide +kernel)]
    simp

end Store

end CallImpact
