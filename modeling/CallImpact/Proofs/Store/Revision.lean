import CallImpact.Proofs.Store.Operations

/-!
# Revising a record

What changes a project, apart from saving, removes some data files and writes the record again. In
a tree from which a record is read (`Recorded`) this always succeeds, however the data files are
named and whatever else is in the tree (`Recorded.revise`). It is known of every file what becomes
of it (`Revised`): the record is the new one, what was left of an earlier record and the data
files that were removed are gone, and all other files are as they were. What can be read
afterwards is `Leaves`, and where the latest commit goes when entries were removed is `Repointed`.
-/

namespace CallImpact.Store

/-! ## Reading a record -/

section
variable {s : Store} {id : String} {record : Option ProjectRecord} {r : ProjectRecord}

/-- Where a record is read, or is missing, no directory is in its place. -/
theorem recordPath_ne_directory (h : s.record? id = .ok record) :
    s.tree.at? (recordPath id) ≠ some .directory := by
  intro hx
  obtain ⟨sub, hsub, hdir⟩ := Option.map_eq_some_iff.mp hx
  cases sub with
  | file content => cases hdir
  | dir entries =>
    simp only [record?, hsub] at h
    cases h

/-- A record is read from a file. -/
theorem exists_file_of_record? (h : s.record? id = .ok (some r)) :
    ∃ content, s.tree.at? (recordPath id) = some (.file content) := by
  cases hx : s.tree.at? (recordPath id) with
  | none =>
    rw [record?_of_at?_none hx] at h
    cases h
  | some x =>
    cases x with
    | file content => exact ⟨content, rfl⟩
    | directory => exact absurd hx (recordPath_ne_directory h)

/-- A history is read in order. -/
theorem newest_of_record? (h : s.record? id = .ok (some r)) : History.Newest r.history := by
  have hsorted : ∀ found : Except Error (Option ProjectRecord),
      found.map (·.map fun r => { r with history := History.newestFirst r.history }) =
        .ok (some r) → History.Newest r.history := by
    rintro (e | _ | old) hfound
    · cases hfound
    · cases hfound
    · cases hfound
      exact History.newest_newestFirst _
  exact hsorted _ h

end

/-- What is read as the record of a project, where no directory is in the place in which a record is
written first. -/
structure Recorded (s : Store) (id : String) (record : Option ProjectRecord) : Prop where
  read : s.record? id = .ok record
  owner : ∀ r ∈ record, r.id = id
  free : s.tree.at? (temporaryRecordPath id) ≠ some .directory

namespace Recorded

variable {s : Store} {id : String} {r : ProjectRecord}

/-- A record that was read can be written again. -/
theorem writable (h : Recorded s id (some r)) : Writable id s.tree where
  above p content hp := by
    obtain ⟨found, hfound⟩ := exists_file_of_record? h.read
    have hne : p ≠ recordPath id := fun he =>
      recordPath_not_above id (he ▸ hp.trans (List.prefix_append _ _))
    have hdir := FileTree.at?_eq_directory_of_above (hp.trans (List.prefix_append _ _)) hne hfound
    rw [hdir]
    simp
  record := recordPath_ne_directory h.read
  temporary := h.free

end Recorded

/-! ## Writing it again -/

/-- Where the data files of entries are. -/
def places (id : String) (entries : List HistoryEntry) : List Path :=
  entries.map fun e => dataPath id e.dataFile

/-- Files after the data files of entries were removed and a record was written. -/
structure Revised (r : ProjectRecord) (gone : List HistoryEntry) (t t' : FileTree Stored) :
    Prop where
  content : ∀ p, t'.content? p =
    if p = recordPath r.id then some (.record r)
    else if p = temporaryRecordPath r.id ∨ p ∈ places r.id gone then none else t.content? p
  free : t'.at? (temporaryRecordPath r.id) = none

/-- A record is written after data files were removed. -/
theorem revise_ok {α : Type} {s : Store} {r : ProjectRecord} (gone : List HistoryEntry) (a : α)
    (h : Writable r.id s.tree) :
    ∃ t, (gone.foldl (fun s e => s.removeData r.id e) s).finish r a =
      ({ s with tree := t }, .ok a) ∧
      Revised r gone s.tree t := by
  rw [foldl_removeData]
  have hless : ∀ p, ((places r.id gone).foldl FileTree.removeFile s.tree).content? p =
      if p ∈ places r.id gone then none else s.tree.content? p :=
    FileTree.content?_removeFiles_of_root h.content?_root _
  have hwritable : Writable r.id ((places r.id gone).foldl FileTree.removeFile s.tree) := by
    refine ⟨fun p content hp hx => ?_, fun hx => ?_, fun hx => ?_⟩
    · exact h.above p content hp (FileTree.at?_of_removeFiles hx)
    · exact h.record (FileTree.at?_of_removeFiles hx)
    · exact h.temporary (FileTree.at?_of_removeFiles hx)
  rw [← places]
  generalize (places r.id gone).foldl FileTree.removeFile s.tree = less at hless hwritable ⊢
  obtain ⟨t, ht, hat⟩ := writeRecord_eq (s := { s with tree := less }) hwritable
  have hne : temporaryRecordPath r.id ≠ recordPath r.id := by
    simp [temporaryRecordPath, recordPath, recordFile]
  refine ⟨t, by rw [finish, ht], fun p => ?_, by rw [hat, if_pos rfl]⟩
  by_cases hrecord : p = recordPath r.id
  · rw [if_pos hrecord, FileTree.content?_eq_some_iff, hat, if_neg (hrecord ▸ hne.symm),
      if_pos hrecord]
  · rw [if_neg hrecord]
    have hatp := hat p
    rw [if_neg hrecord] at hatp
    by_cases htmp : p = temporaryRecordPath r.id
    · rw [if_pos htmp] at hatp
      rw [if_pos (.inl htmp), FileTree.content?_of_at?_eq_none hatp]
    · rw [if_neg htmp] at hatp
      simp only [htmp, false_or]
      rw [← hless]
      exact FileTree.content?_of_at?_above (fun content => hwritable.above p content) hatp

/-- A record that was read is written again after data files were removed. -/
theorem Recorded.revise {α : Type} {s : Store} {id : String} {old r : ProjectRecord}
    (h : Recorded s id (some old)) (hid : r.id = id) (gone : List HistoryEntry) (a : α) :
    ∃ t, (gone.foldl (fun s e => s.removeData id e) s).finish r a = ({ s with tree := t }, .ok a) ∧
      Revised r gone s.tree t := by
  subst hid
  exact revise_ok gone a h.writable

namespace Revised

variable {s : Store} {r : ProjectRecord} {gone : List HistoryEntry} {t t' : FileTree Stored}

/-- The record that was written is read back. -/
theorem recorded (h : Revised r gone s.tree t') (hn : History.Newest r.history) :
    Recorded { s with tree := t' } r.id (some r) where
  read := by
    have hat : ({ s with tree := t' } : Store).tree.at? (recordPath r.id) =
        some (.file (.record r)) := by
      rw [← FileTree.content?_eq_some_iff, h.content, if_pos rfl]
    rw [record?_of_at? hat, History.newestFirst_of_newest hn]
  owner := by
    rintro x ⟨⟩
    rfl
  free := by
    rw [h.free]
    simp

/-- Writing the same record again changes no file. -/
theorem content?_again {t'' : FileTree Stored} (h : Revised r gone t t')
    (hagain : Revised r [] t' t'') (p : Path) : t''.content? p = t'.content? p := by
  rw [hagain.content]
  split
  · rename_i hp
    rw [h.content, if_pos hp]
  · rename_i hp
    split
    · rename_i hgone
      have htmp : p = temporaryRecordPath r.id := hgone.resolve_right (List.not_mem_nil)
      rw [h.content, if_neg hp, if_pos (.inl htmp)]
    · rfl

end Revised

/-- What an operation leaves of a project: a record, and all files beside it but the data files of
entries that were removed. -/
structure Leaves (s : Store) (id : String) (r : ProjectRecord) (gone : List HistoryEntry)
    (t : FileTree Stored) : Prop where
  record : ({ s with tree := t } : Store).record? id = .ok (some r)
  files : ∀ p, p ≠ recordPath id → p ≠ temporaryRecordPath id →
    t.content? p = if p ∈ places id gone then none else s.tree.content? p

/-- A revised record is what an operation leaves of its project. -/
theorem Revised.leaves {s : Store} {id : String} {r : ProjectRecord} {gone : List HistoryEntry}
    {t : FileTree Stored} (h : Revised r gone s.tree t) (hid : r.id = id)
    (hn : History.Newest r.history) : Leaves s id r gone t := by
  subst hid
  refine ⟨(h.recorded hn).read, fun p hrecord htmp => ?_⟩
  rw [h.content, if_neg hrecord]
  simp only [htmp, false_or]

/-! ## Fewer entries -/

/-- Where the latest commit goes with a history: it stays as long as it has an entry, else it
moves to the newest entry, if there is one. -/
structure Repointed (old : Option LatestPointer) (history : List HistoryEntry)
    (latest : Option LatestPointer) : Prop where
  stays : ∀ l ∈ old, (∃ e ∈ history, e.commit = l.commit) → latest = some l
  moves : (∀ l ∈ old, ∀ e ∈ history, e.commit ≠ l.commit) →
    latest = history.head?.map fun e => ⟨e.commit, e.dataFile⟩

/-- The record with the entries that are kept. -/
def reduced (r : ProjectRecord) (kept : List HistoryEntry) : ProjectRecord :=
  ({ r with history := kept } : ProjectRecord).repairLatest

section
variable (r : ProjectRecord) (kept : List HistoryEntry)

@[simp] theorem id_reduced : (reduced r kept).id = r.id :=
  id_repairLatest _

@[simp] theorem history_reduced : (reduced r kept).history = kept :=
  history_repairLatest _

/-- Beside the history only the latest commit may change. -/
theorem reduced_eq : reduced r kept =
    { r with history := kept, latest := (reduced r kept).latest } := by
  unfold reduced ProjectRecord.repairLatest
  split
  · rfl
  · rfl

/-- The latest of a reduced record is as it was when its entry is kept, and the newest kept
otherwise. -/
theorem repointed_reduced : Repointed r.latest kept (reduced r kept).latest := by
  have hvalid : ({ r with history := kept } : ProjectRecord).latestIsValid ↔
      ∃ l ∈ r.latest, ∃ e ∈ kept, e.commit = l.commit := by
    unfold ProjectRecord.latestIsValid
    rw [Option.any_eq_true]
    simp only [List.any_eq_true, beq_iff_eq]
    rfl
  unfold reduced ProjectRecord.repairLatest
  split
  · rename_i h
    refine ⟨fun l hl _ => hl, fun hnone => ?_⟩
    obtain ⟨l, hl, e, he, heq⟩ := hvalid.mp h
    exact absurd heq (hnone l hl e he)
  · rename_i h
    exact ⟨fun l hl hentry => absurd (hvalid.mpr ⟨l, hl, hentry⟩) h, fun _ => rfl⟩

/-- A latest commit that was moved stays where it is. -/
theorem reduced_reduced : reduced (reduced r kept) kept = reduced r kept := by
  have hone := repointed_reduced r kept
  have htwo := repointed_reduced (reduced r kept) kept
  have hlatest : (reduced (reduced r kept) kept).latest = (reduced r kept).latest := by
    by_cases h : ∃ l ∈ (reduced r kept).latest, ∃ e ∈ kept, e.commit = l.commit
    · obtain ⟨l, hl, hentry⟩ := h
      rw [htwo.stays l hl hentry, hl]
    · have hnone : ∀ l ∈ (reduced r kept).latest, ∀ e ∈ kept, e.commit ≠ l.commit :=
        fun l hl e he heq => h ⟨l, hl, e, he, heq⟩
      rw [htwo.moves hnone]
      cases kept with
      | nil => exact (hone.moves fun _ _ e he => nomatch he).symm
      | cons newest rest =>
        -- a latest commit without an entry would have been moved to the newest
        have hold : ∀ l ∈ r.latest, ∀ e ∈ newest :: rest, e.commit ≠ l.commit :=
          fun l hl e he heq => hnone l (hone.stays l hl ⟨e, he, heq⟩) e he heq
        exact (hone.moves hold).symm
  rw [reduced_eq (reduced r kept), hlatest, reduced_eq r kept]

end

/-! ## A data directory with one project -/

/-- An entry with its own data file, made at a second. -/
def entryAt (commit : String) (second : Int) : HistoryEntry :=
  { commit, created := ⟨second, 0⟩, funcCount := 1, edgeCount := 0, algorithm := .hierarchy,
    dataFile := dataFileNamed commit }

/-- A data directory with a record and data files. -/
def storeWith (r : ProjectRecord) (files : List (String × FileTree Stored)) : Store :=
  { dataDir := "data"
    tree := .dir [("p1", .dir [(commitsDir, .dir files), (recordFile, .file (.record r))])] }

/-- The record of a sample store can be read when its history is sorted. -/
theorem recorded_storeWith {r : ProjectRecord} (files : List (String × FileTree Stored))
    (hid : r.id = "p1") (hn : History.Newest r.history) :
    Recorded (storeWith r files) "p1" (some r) where
  read := by
    have hat : (storeWith r files).tree.at? (recordPath "p1") = some (.file (.record r)) := rfl
    rw [record?_of_at? hat, History.newestFirst_of_newest hn]
  owner := by
    rintro x ⟨⟩
    exact hid
  free := by
    have hat : (storeWith r files).tree.at? (temporaryRecordPath "p1") = none := rfl
    rw [hat]
    simp

end CallImpact.Store
