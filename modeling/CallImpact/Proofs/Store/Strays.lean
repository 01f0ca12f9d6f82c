import CallImpact.Proofs.Store.Runs

/-!
# Files that no entry has

After a run, the files in the directory with the snapshots of a project are the data files of its
history and the strays of the run (`files_after`). A file goes astray when a commit is saved again
and gets another data file, because the short name has become free or was taken meanwhile: the
entry moves, and the file that it had stays (`save_again_strands_file`). No other step leaves a file
behind, so in a run without such a move (`Run.IsSteady`) all files belong to entries.
-/

namespace CallImpact.Store

open History (HasCutoff Newest)

/-! ## Strays -/

/-- The data files from which entries moved: their commits have another one now. -/
def movedFrom (before after : List HistoryEntry) : List String :=
  (before.filter fun e => after.any fun x => x.commit == e.commit && x.dataFile != e.dataFile).map
    (·.dataFile)

/-- The strays after a step: those before it and the files from which entries moved, except for
those that an entry has now. -/
def nextStrays (before after : List HistoryEntry) (strays : List String) : List String :=
  (strays ++ movedFrom before after).filter fun file => file ∉ after.map (·.dataFile)

namespace Run

/-- The history of a project, empty where no record can be read. -/
def history (id : String) (run : Run) : List HistoryEntry :=
  match run.store.record? id with
  | .ok record => historyOf record
  | .error _ => []

/-- The strays of a project after more steps. -/
def strays (id : String) : Run → List Step → List String → List String
  | _, [], strays => strays
  | run, step :: steps, strays =>
    Run.strays id (run.step id step) steps
      (nextStrays (run.history id) ((run.step id step).history id) strays)

/-- Whether in a run no entry moves to another data file. -/
def IsSteady (id : String) : Run → List Step → Prop
  | _, [] => True
  | run, step :: steps =>
    (∀ e ∈ run.history id, ∀ x ∈ (run.step id step).history id,
      x.commit = e.commit → x.dataFile = e.dataFile) ∧ IsSteady id (run.step id step) steps

instance decidableIsSteady (id : String) : (run : Run) → (steps : List Step) →
    Decidable (run.IsSteady id steps)
  | _, [] => inferInstanceAs (Decidable True)
  | run, step :: steps =>
    have := decidableIsSteady id (run.step id step) steps
    inferInstanceAs (Decidable (_ ∧ _))

end Run

section
variable {before after : List HistoryEntry} {strays : List String}

/-- A file is one from which an entry moved when its commit has another one now. -/
theorem mem_movedFrom {file : String} : file ∈ movedFrom before after ↔
    ∃ e ∈ before, (∃ x ∈ after, x.commit = e.commit ∧ x.dataFile ≠ e.dataFile) ∧
      e.dataFile = file := by
  simp [movedFrom, and_assoc]

/-- A stray is an earlier one, or a file from which an entry moved, that no entry has now. -/
theorem mem_nextStrays {file : String} : file ∈ nextStrays before after strays ↔
    (file ∈ strays ∨ file ∈ movedFrom before after) ∧ file ∉ after.map (·.dataFile) := by
  rw [nextStrays, List.mem_filter, List.mem_append, decide_eq_true_eq]

/-- Nothing goes astray when entries are dropped. -/
theorem mem_nextStrays_of_subset (hcommits : (before.map (·.commit)).Nodup)
    (hapart : ∀ file ∈ strays, file ∉ before.map (·.dataFile)) (hsub : after ⊆ before)
    (file : String) :
    file ∈ nextStrays before after strays ↔ file ∈ strays := by
  have hstay : file ∉ movedFrom before after := by
    rw [mem_movedFrom]
    rintro ⟨e, he, ⟨x, hx, hcommit, hne⟩, -⟩
    exact hne (congrArg _ (List.inj_on_of_nodup_map hcommits (hsub hx) he hcommit))
  rw [mem_nextStrays]
  constructor
  · rintro ⟨hmem | hmem, -⟩
    · exact hmem
    · exact absurd hmem hstay
  · intro hmem
    refine ⟨.inl hmem, fun hfile => hapart file hmem ?_⟩
    exact (List.map_subset _ hsub) hfile

/-- When a commit is saved, the file that its entry had goes astray, unless it is the same. -/
theorem mem_nextStrays_of_saved {e : HistoryEntry} (hfiles : (before.map (·.dataFile)).Nodup)
    (hcommits : (before.map (·.commit)).Nodup)
    (hapart : ∀ file ∈ strays, file ∉ before.map (·.dataFile)) (he : e ∈ after)
    (hsub : ∀ x ∈ after, x = e ∨ x ∈ before ∧ x.commit ≠ e.commit) (file : String) :
    file ∈ nextStrays before after strays ↔
      (file ∈ strays ∨ ∃ x ∈ before, x.commit = e.commit ∧ x.dataFile = file) ∧
        file ≠ e.dataFile := by
  rw [mem_nextStrays, mem_movedFrom]
  constructor
  · rintro ⟨hfile, hafter⟩
    have hne : file ≠ e.dataFile := fun heq => hafter (List.mem_map.mpr ⟨e, he, heq.symm⟩)
    refine ⟨?_, hne⟩
    rcases hfile with hstray | ⟨x, hx, ⟨y, hy, hcommit, hdiffer⟩, rfl⟩
    · exact .inl hstray
    · refine .inr ⟨x, hx, ?_, rfl⟩
      -- an entry other than the new one has the data file that it had
      rcases hsub y hy with rfl | ⟨hy, -⟩
      · exact hcommit.symm
      · exact absurd (congrArg _ (List.inj_on_of_nodup_map hcommits hy hx hcommit)) hdiffer
  · rintro ⟨hfile, hne⟩
    rcases hfile with hstray | ⟨x, hx, hcommit, rfl⟩
    · refine ⟨.inl hstray, fun hafter => ?_⟩
      obtain ⟨y, hy, rfl⟩ := List.mem_map.mp hafter
      rcases hsub y hy with rfl | ⟨hy, -⟩
      · exact hne rfl
      · exact hapart _ hstray (List.mem_map_of_mem hy)
    · refine ⟨.inr ⟨x, hx, ⟨e, he, hcommit.symm, hne.symm⟩, rfl⟩, fun hafter => ?_⟩
      obtain ⟨y, hy, hsame⟩ := List.mem_map.mp hafter
      rcases hsub y hy with rfl | ⟨hy, hother⟩
      · exact hne hsame.symm
      · exact hother (List.inj_on_of_nodup_map hfiles hy hx hsame ▸ hcommit)

end

/-! ## Files in the directory with the snapshots -/

/-- Whether there is a file of a project at a path in the directory with its snapshots. -/
def IsStoredAt (id : String) (t : FileTree Stored) (p : Path) : Prop :=
  projectDir id ++ [commitsDir] <+: p ∧ ∃ content, t.at? p = some (.file content)

/-- Whether the entries of the directory with the snapshots are the given data files. -/
structure Stocked (id : String) (t : FileTree Stored) (files : List String) : Prop where
  plain : ∀ file ∈ files, ∃ name, IsPlain name ∧ file = dataFileNamed name
  stored : ∀ entry, (∃ content, t.at? (commitPath id entry) = some (.file content)) ↔
    ∃ file ∈ files, commitPath id entry = dataPath id file

namespace Stocked

variable {id : String} {t t' : FileTree Stored} {files : List String}

/-- The same data files in another order, or more than once, are stocked alike. -/
theorem congr (h : Stocked id t files) {files' : List String}
    (hfiles : ∀ file, file ∈ files ↔ file ∈ files') : Stocked id t files' where
  plain file hfile := h.plain file ((hfiles file).mpr hfile)
  stored entry := by simp only [h.stored entry, hfiles]

/-- All that is stored are the data files. -/
theorem isStoredAt_iff (h : Stocked id t files) (hl : Layout id t) (p : Path) :
    IsStoredAt id t p ↔ ∃ file ∈ files, p = dataPath id file := by
  constructor
  · rintro ⟨⟨rest, rfl⟩, content, hat⟩
    rcases rest with _ | ⟨entry, _ | ⟨below, rest⟩⟩
    · rw [List.append_nil] at hat
      exact absurd hat (hl.ne_file_of_above content (List.prefix_refl _))
    · have hpath : projectDir id ++ [commitsDir] ++ [entry] = commitPath id entry := by
        simp [commitPath]
      rw [hpath] at hat ⊢
      exact (h.stored entry).mp ⟨content, hat⟩
    · have habove : commitPath id entry <+:
          projectDir id ++ [commitsDir] ++ entry :: below :: rest :=
        ⟨below :: rest, by simp [commitPath]⟩
      have hne : commitPath id entry ≠ projectDir id ++ [commitsDir] ++ entry :: below :: rest := by
        simp [commitPath]
      exact absurd (FileTree.at?_eq_directory_of_above habove hne hat)
        (hl.commitPath_ne_directory entry)
  · rintro ⟨file, hfile, rfl⟩
    obtain ⟨name, hname, rfl⟩ := h.plain file hfile
    have hpath := dataPath_dataFileNamed id hname
    refine ⟨hpath ▸ ⟨[name ++ "." ++ "db"], by simp [commitPath]⟩, ?_⟩
    rw [hpath]
    exact (h.stored _).mpr ⟨_, hfile, hpath.symm⟩

/-- A file of the directory is not what is left of a file that is being written. -/
theorem not_mem_partialPaths (h : Stocked id t files) {name : String} (hname : IsPlain name)
    {entry : String} (hat : ∃ content, t.at? (commitPath id entry) = some (.file content)) :
    commitPath id entry ∉ partialPaths id name := by
  obtain ⟨file, hfile, hpath⟩ := (h.stored entry).mp hat
  obtain ⟨other, hother, rfl⟩ := h.plain file hfile
  rw [hpath]
  exact dataPath_not_mem_partialPaths hother hname

/-- Preparing a data file leaves the stock as it was. -/
theorem prepared (h : Stocked id t files) {name : String} (hname : IsPlain name)
    (hp : Prepared id name t t') : Stocked id t' files where
  plain := h.plain
  stored entry := by
    rw [← h.stored entry, hp, preparedAt_commitPath]
    constructor
    · rintro ⟨content, hat⟩
      split at hat
      · cases hat
      · exact ⟨content, hat⟩
    · intro hat
      rwa [if_neg (h.not_mem_partialPaths hname hat)]

/-- A snapshot that comes to its place is one more file, or takes the place of one. -/
theorem placed (h : Stocked id t files) {name : String} {snapshot : Snapshot} (hname : IsPlain name)
    (hp : Placed id name snapshot t t') : Stocked id t' (dataFileNamed name :: files) where
  plain := List.forall_mem_cons.mpr ⟨⟨name, hname, rfl⟩, h.plain⟩
  stored entry := by
    rw [hp, preparedAt_commitPath, List.exists_mem_cons_iff, ← h.stored entry]
    by_cases hnew : commitPath id entry = dataPath id (dataFileNamed name)
    · simp [hnew]
    · rw [if_neg hnew, or_iff_right hnew]
      constructor
      · rintro ⟨content, hat⟩
        split at hat
        · cases hat
        · exact ⟨content, hat⟩
      · intro hat
        rwa [if_neg (h.not_mem_partialPaths hname hat)]

/-- The data files of entries that are removed are gone. -/
theorem rewritten {r : ProjectRecord} {gone : List HistoryEntry} (h : Stocked r.id t files)
    (hw : Rewritten r gone t t') (hgone : ∀ e ∈ gone, NamedFor e.commit e.dataFile) :
    Stocked r.id t' (files.filter fun file => file ∉ gone.map (·.dataFile)) where
  plain file hfile := h.plain file (List.mem_filter.mp hfile).1
  stored entry := by
    have hrecord : commitPath r.id entry ≠ recordPath r.id := fun he => by
      have := congrArg List.length he
      simp [commitPath, recordPath] at this
    have hdir : ¬ commitPath r.id entry <+: projectDir r.id := fun hp =>
      commitPath_not_above r.id entry (hp.trans (List.prefix_append _ _))
    rw [hw, if_neg hrecord, if_neg hdir]
    -- different plain names have different places
    have hplace : ∀ file ∈ files,
        dataPath r.id file ∈ gone.map (fun e => dataPath r.id e.dataFile) ↔
        file ∈ gone.map (·.dataFile) := by
      intro file hfile
      obtain ⟨name, hname, rfl⟩ := h.plain file hfile
      rw [List.mem_map, List.mem_map]
      refine exists_congr fun e => and_congr_right fun he => ?_
      obtain ⟨other, hother, heq⟩ := (hgone e he).exists_plain
      rw [heq]
      exact ⟨fun h => congrArg dataFileNamed (dataPath_dataFileNamed_inj hother hname h),
        fun h => congrArg _ h⟩
    constructor
    · rintro ⟨content, hat⟩
      split at hat
      · cases hat
      · rename_i hstays
        obtain ⟨file, hfile, hpath⟩ := (h.stored entry).mp ⟨content, hat⟩
        refine ⟨file, List.mem_filter.mpr ⟨hfile, ?_⟩, hpath⟩
        rw [hpath, hplace file hfile] at hstays
        exact decide_eq_true hstays
    · rintro ⟨file, hmem, hpath⟩
      obtain ⟨hfile, hstays⟩ := List.mem_filter.mp hmem
      rw [hpath, if_neg fun hg => of_decide_eq_true hstays ((hplace file hfile).mp hg), ← hpath]
      exact (h.stored entry).mpr ⟨file, hfile, hpath⟩

end Stocked

/-! ## One step -/

/-- Whether a history falls apart into entries that are kept and entries that are dropped together
with their data files. -/
structure Divided (history kept gone : List HistoryEntry) : Prop where
  kept_subset : kept ⊆ history
  gone_subset : gone ⊆ history
  covers : ∀ x ∈ history, x ∈ kept ∨ x ∈ gone
  apart : ∀ x ∈ kept, x.dataFile ∉ gone.map (·.dataFile)

/-- The data files of the kept entries are those of the history that are not dropped. -/
theorem Divided.mem_files {history kept gone : List HistoryEntry} (h : Divided history kept gone)
    {file : String} : file ∈ kept.map (·.dataFile) ↔
      file ∈ history.map (·.dataFile) ∧ file ∉ gone.map (·.dataFile) := by
  constructor
  · intro hmem
    obtain ⟨x, hx, rfl⟩ := List.mem_map.mp hmem
    exact ⟨List.mem_map_of_mem (h.kept_subset hx), h.apart x hx⟩
  · rintro ⟨hmem, hgone⟩
    obtain ⟨x, hx, rfl⟩ := List.mem_map.mp hmem
    rcases h.covers x hx with hx | hx
    · exact List.mem_map_of_mem hx
    · exact absurd (List.mem_map_of_mem hx) hgone

section
variable {t : FileTree Stored} {id : String} {saved : List (NewGraph × Instant)}
  {history : List HistoryEntry}

/-- Retention divides a history. -/
theorem Backed.divided_partition (h : Backed t id saved history) (maxCount : Nat)
    (bound : Option Instant) :
    Divided history (History.partition history maxCount bound).kept
      (History.partition history maxCount bound).removed where
  kept_subset := (History.kept_sublist history maxCount bound).subset
  gone_subset _ hx := History.mem_of_mem_removed hx
  covers _ hx := List.mem_append.mp ((History.partition_perm history maxCount bound).mem_iff.mpr hx)
  apart _ hx := h.not_mem_removed hx

/-- Deleting one entry divides a history. -/
theorem Backed.divided_deleted (h : Backed t id saved history) {e : HistoryEntry}
    (he : e ∈ history) : Divided history (history.filter fun x => x.commit != e.commit) [e] where
  kept_subset := List.filter_sublist.subset
  gone_subset := by simpa using he
  covers x hx := by
    by_cases hcommit : x.commit = e.commit
    · exact .inr (by simpa using List.inj_on_of_nodup_map h.commits_nodup hx he hcommit)
    · exact .inl (List.mem_filter.mpr ⟨hx, by simpa using hcommit⟩)
  apart _ hx := h.not_mem_deleted he hx

end

/-- The entries after a save are the new one and those of other commits. -/
theorem mem_replaced {e x : HistoryEntry} {history : List HistoryEntry} :
    x ∈ replaced e history ↔ x = e ∨ x ∈ history ∧ x.commit ≠ e.commit := by
  rw [replaced, (History.newestFirst_perm _).mem_iff]
  simp

/-- The history that is read is that of the record that was written. -/
theorem mem_historyOf_of_rewritten {s : Store} {t t' : FileTree Stored} {r : ProjectRecord}
    {gone : List HistoryEntry} {record : Option ProjectRecord} (hw : Rewritten r gone t t')
    (hread : ({ s with tree := t' } : Store).record? r.id = .ok record) (e : HistoryEntry) :
    e ∈ historyOf record ↔ e ∈ r.history := by
  have hat : ({ s with tree := t' } : Store).tree.at? (recordPath r.id) =
      some (.file (.record r)) := by
    rw [hw, if_pos rfl]
  rw [record?_of_at? hat] at hread
  cases hread
  exact (History.newestFirst_perm r.history).mem_iff

/-- Whether the files of a project are the data files of its history and strays, which are none of
these. -/
structure Accounted (id : String) (t : FileTree Stored) (history : List HistoryEntry)
    (strays : List String) : Prop where
  stocked : Stocked id t (history.map (·.dataFile) ++ strays)
  apart : ∀ file ∈ strays, file ∉ history.map (·.dataFile)

/-- In a vacant place all files are accounted for. -/
theorem accounted_of_vacant {id : String} {t : FileTree Stored} (h : Vacant id t) :
    Accounted id t [] [] where
  stocked :=
    { plain := by simp
      stored := fun entry => by
        refine ⟨fun ⟨content, hat⟩ => ?_, by simp⟩
        have habove := (h _ _ (near_commitPath id entry) hat).1
        exact absurd (habove.trans (List.prefix_append _ _)) (commitPath_not_above id entry) }
  apart := by simp

section
variable {id : String} {t t' : FileTree Stored} {r : ProjectRecord}
  {history gone after : List HistoryEntry} {strays : List String}

/-- A step that drops entries together with their data files leaves no file behind. -/
theorem Accounted.dropped (h : Accounted id t history strays) (hid : r.id = id)
    (hcommits : (history.map (·.commit)).Nodup)
    (hgone : ∀ e ∈ gone, NamedFor e.commit e.dataFile) (hw : Rewritten r gone t t')
    (hd : Divided history r.history gone) (hafter : ∀ e, e ∈ after ↔ e ∈ r.history) :
    Accounted id t' after (nextStrays history after strays) := by
  subst hid
  refine ⟨(h.stocked.rewritten hw hgone).congr fun file => ?_,
    fun file hfile => (mem_nextStrays.mp hfile).2⟩
  have hfiles : file ∈ after.map (·.dataFile) ↔ file ∈ r.history.map (·.dataFile) := by
    simp only [List.mem_map, hafter]
  have hstrays := mem_nextStrays_of_subset hcommits h.apart
    (fun e he => hd.kept_subset ((hafter e).mp he)) file
  have hstay : file ∈ strays → file ∉ gone.map (·.dataFile) := fun hstray hmem =>
    h.apart file hstray ((List.map_subset _ hd.gone_subset) hmem)
  rw [List.mem_filter, List.mem_append, List.mem_append, hfiles, hd.mem_files, hstrays,
    decide_eq_true_eq, or_and_right, and_iff_left_of_imp hstay]

/-- A save leaves the file behind that the entry of its commit had, if the new entry has another. -/
theorem Accounted.saved {placed : FileTree Stored} {name : String} {snapshot : Snapshot}
    {e : HistoryEntry} (h : Accounted id t history strays) (hid : r.id = id)
    (hcommits : (history.map (·.commit)).Nodup) (hfiles : (history.map (·.dataFile)).Nodup)
    (hname : IsPlain name) (hdata : e.dataFile = dataFileNamed name)
    (hp : Placed id name snapshot t placed)
    (hgone : ∀ e ∈ gone, NamedFor e.commit e.dataFile) (hw : Rewritten r gone placed t')
    (hd : Divided (replaced e history) r.history gone) (he : e ∈ r.history)
    (hafter : ∀ e, e ∈ after ↔ e ∈ r.history) :
    Accounted id t' after (nextStrays history after strays) := by
  subst hid
  refine ⟨((h.stocked.placed hname hp).rewritten hw hgone).congr fun file => ?_,
    fun file hfile => (mem_nextStrays.mp hfile).2⟩
  have hfile : file ∈ after.map (·.dataFile) ↔ file ∈ r.history.map (·.dataFile) := by
    simp only [List.mem_map, hafter]
  have hstrays := mem_nextStrays_of_saved hfiles hcommits h.apart ((hafter e).mpr he)
    (fun x hx => mem_replaced.mp (hd.kept_subset ((hafter x).mp hx))) file
  have hreplaced : file ∈ (replaced e history).map (·.dataFile) ↔
      file = e.dataFile ∨ ∃ x ∈ history, x.commit ≠ e.commit ∧ x.dataFile = file := by
    simp only [List.mem_map, mem_replaced, or_and_right, exists_or, exists_eq_left, and_assoc]
    rw [eq_comm]
  -- a file that goes or stays astray is none of those that are removed
  have hstay : (file ∈ strays ∨ ∃ x ∈ history, x.commit = e.commit ∧ x.dataFile = file) →
      file ≠ e.dataFile → file ∉ gone.map (·.dataFile) := by
    intro hfile hne hmem
    rcases hreplaced.mp ((List.map_subset _ hd.gone_subset) hmem) with heq | ⟨y, hy, hother, hsame⟩
    · exact hne heq
    · rcases hfile with hstray | ⟨x, hx, hcommit, rfl⟩
      · exact h.apart file hstray (List.mem_map.mpr ⟨y, hy, hsame⟩)
      · exact hother (List.inj_on_of_nodup_map hfiles hy hx hsame ▸ hcommit)
  rw [List.mem_filter, List.mem_cons, List.mem_append, List.mem_append, hfile, hd.mem_files,
    hstrays, hreplaced, decide_eq_true_eq, ← hdata]
  constructor
  · rintro ⟨hmem, hgone⟩
    by_cases hnew : file = e.dataFile
    · exact .inl ⟨.inl hnew, hgone⟩
    · rcases hmem with hmem | hmem | hstray
      · exact absurd hmem hnew
      · obtain ⟨x, hx, rfl⟩ := List.mem_map.mp hmem
        by_cases hcommit : x.commit = e.commit
        · exact .inr ⟨.inr ⟨x, hx, hcommit, rfl⟩, hnew⟩
        · exact .inl ⟨.inr ⟨x, hx, hcommit, rfl⟩, hgone⟩
      · exact .inr ⟨.inl hstray, hnew⟩
  · rintro (⟨hnew | ⟨x, hx, -, rfl⟩, hgone⟩ | ⟨hmem, hne⟩)
    · exact ⟨.inl hnew, hgone⟩
    · exact ⟨.inr (.inl (List.mem_map_of_mem hx)), hgone⟩
    · refine ⟨.inr ?_, hstay hmem hne⟩
      rcases hmem with hstray | ⟨x, hx, -, rfl⟩
      · exact .inr hstray
      · exact .inl (List.mem_map_of_mem hx)

end

section
variable {policy : RetentionPolicy} {id : String} {run : Run} {now : Instant}
  {record record' : Option ProjectRecord} {strays : List String}

/-- A step that changes neither the history nor the data files leaves no file behind. -/
theorem Accounted.unchanged (hs : Sound policy id run now record)
    (h : Accounted id run.store.tree (historyOf record) strays)
    (hread : run.store.record? id = .ok record') :
    Accounted id run.store.tree (historyOf record')
      (nextStrays (historyOf record) (historyOf record') strays) := by
  obtain rfl : record = record' := Except.ok.inj (hs.holds.read.symm.trans hread)
  refine ⟨h.stocked.congr fun file => ?_, fun file hfile => (mem_nextStrays.mp hfile).2⟩
  rw [List.mem_append, List.mem_append, mem_nextStrays_of_subset hs.backed.commits_nodup h.apart
    (List.Subset.refl _)]

/-- A new entry is the newest one, so it is kept, and comes first. -/
theorem Sound.kept_eq_cons (hs : Sound policy id run now record) {e : HistoryEntry}
    {bound : Option Instant} (he : e.created = now) (hbound : ∀ c ∈ bound, c.le now) :
    ∃ rest, (run.store.division e (historyOf record) bound).kept = e :: rest := by
  subst he
  rw [division, replaced_of_newest hs.backed.newest hs.past]
  exact History.head_mem_kept (by omega) hbound

/-- A save that comes to an end keeps all files accounted for. -/
theorem Accounted.save (h : Accounted id run.store.tree (historyOf record) strays)
    (hs : Sound policy id run now record) {name : String} {remote : Option String} {new : NewGraph}
    (hc : IsCommit new.commit) (hcut : HasCutoff now policy.maxAgeDays)
    (hread : (run.step id ⟨.save name remote new, now⟩).store.record? id = .ok record') :
    Accounted id (run.step id ⟨.save name remote new, now⟩).store.tree (historyOf record')
      (nextStrays (historyOf record) (historyOf record') strays) := by
  rcases hsnap : snapshotOf new now with ⟨progress, error | snapshot⟩
  · obtain ⟨file, t, steps, hname, hp, hsave⟩ := save_error ⟨id, name, remote⟩ hs.holds hc hsnap
    have hstep : run.step id ⟨.save name remote new, now⟩ =
        { run with store := { run.store with tree := t } } := by
      simp only [Run.step, hsave]
    rw [hstep] at hread ⊢
    exact Accounted.unchanged (hs.prepared hname hp) ⟨h.stocked.prepared hname hp, h.apart⟩ hread
  · obtain ⟨file, bound, placed, t, steps, hname, hnf, hother, hbound, hp, hw, hsave⟩ :=
      save_ok ⟨id, name, remote⟩ hs.holds hc (hs.retention ▸ hcut) hsnap
    have hstep : run.step id ⟨.save name remote new, now⟩ =
        { store := { run.store with tree := t }, saved := (new, now) :: run.saved } := by
      simp only [Run.step, hsave]
    rw [hstep] at hread ⊢
    have hb := hs.backed.placed hname hnf hother hsnap hs.past hp
    have hd := hb.divided_partition (max run.store.retention.maxCount 1) bound
    obtain ⟨rest, hkept⟩ := hs.kept_eq_cons (e := entryOf new (dataFileNamed file) now) rfl hbound
    have hid : (entered (run.store.nextRecord ⟨id, name, remote⟩ record)
        (entryOf new (dataFileNamed file) now) (run.store.division
          (entryOf new (dataFileNamed file) now) (historyOf record) bound).kept).id = id := by
      rw [entered, id_repairLatest]
      exact id_nextRecord hs.holds.owner
    refine h.saved (e := entryOf new (dataFileNamed file) now) hid hs.backed.commits_nodup
      hs.backed.dataFiles_nodup hname rfl hp
      (fun e he => hb.named e (History.mem_of_mem_removed he)) hw ?_ ?_
      (mem_historyOf_of_rewritten hw (hid ▸ hread))
    · rw [entered, history_repairLatest]
      exact hd
    · rw [entered, history_repairLatest]
      exact hkept ▸ List.mem_cons_self

/-- Every step accounts for the files of a project. -/
theorem Accounted.step (h : Accounted id run.store.tree (historyOf record) strays)
    (hs : Sound policy id run now record) {step : Step} (hnow : now.le step.now)
    (hstep : step.IsAdmissible policy)
    (hread : (run.step id step).store.record? id = .ok record') :
    Accounted id (run.step id step).store.tree (historyOf record')
      (nextStrays (historyOf record) (historyOf record') strays) := by
  have hs := hs.later hnow
  obtain ⟨change, now⟩ := step
  cases change with
  | save name remote new => exact h.save hs hstep.1 hstep.2 hread
  | setLatest reference =>
    rcases setLatest_cases hs.holds reference with ⟨error, heq⟩ | ⟨r, e, t, rfl, he, heq, hw⟩
    · simp only [Run.step, heq] at hread ⊢
      exact Accounted.unchanged hs h hread
    · simp only [Run.step, heq] at hread ⊢
      have hid : (r.pointAt (some e)).id = id := hs.holds.owner r rfl
      refine h.dropped hid hs.backed.commits_nodup (by simp) hw ?_
        (mem_historyOf_of_rewritten hw (hid ▸ hread))
      exact ⟨List.Subset.refl _, by simp, fun x hx => .inl hx, by simp⟩
  | delete reference =>
    rcases delete_cases hs.holds reference with ⟨error, heq⟩ | ⟨r, e, t, rfl, he, heq, hw⟩
    · simp only [Run.step, heq] at hread ⊢
      exact Accounted.unchanged hs h hread
    · simp only [Run.step, heq] at hread ⊢
      have hid : (withoutCommit r e.commit).repairLatest.id = id := by
        rw [id_repairLatest]
        exact hs.holds.owner r rfl
      refine h.dropped hid hs.backed.commits_nodup ?_ hw ?_
        (mem_historyOf_of_rewritten hw (hid ▸ hread))
      · intro x hx
        rw [List.mem_singleton.mp hx]
        exact hs.backed.named e he
      · rw [history_repairLatest]
        exact hs.backed.divided_deleted he
  | clean maxCount maxAgeDays =>
    rcases clean_cases hs.holds maxCount hstep with ⟨-, heq⟩ | ⟨r, bound, t, rfl, heq, hw⟩
    · simp only [Run.step, heq] at hread ⊢
      exact Accounted.unchanged hs h hread
    · simp only [Run.step, heq] at hread ⊢
      have hid : ({ r with history := (History.partition r.history maxCount bound).kept } :
          ProjectRecord).repairLatest.id = id := by
        rw [id_repairLatest]
        exact hs.holds.owner r rfl
      refine h.dropped hid hs.backed.commits_nodup
        (fun e he => hs.backed.named e (History.mem_of_mem_removed he)) hw ?_
        (mem_historyOf_of_rewritten hw (hid ▸ hread))
      rw [history_repairLatest]
      exact hs.backed.divided_partition maxCount bound

/-! ## Whole runs -/

/-- The history of a sound run is that of its record. -/
theorem Sound.history (hs : Sound policy id run now record) :
    run.history id = historyOf record := by
  rw [Run.history, hs.holds.read]

/-- Every run accounts for the files of a project while the clock does not go back. -/
theorem Accounted.after {steps : List Step}
    (h : Accounted id run.store.tree (historyOf record) strays)
    (hs : Sound policy id run now record)
    (hadmissible : ∀ step ∈ steps, step.IsAdmissible policy)
    (hclock : steps.Pairwise fun a b => a.now.le b.now) (hnow : ∀ step ∈ steps, now.le step.now) :
    ∃ later record', Sound policy id (run.after id steps) later record' ∧
      Accounted id (run.after id steps).store.tree (historyOf record')
        (run.strays id steps strays) := by
  induction steps generalizing run now record strays with
  | nil => exact ⟨now, record, hs, h⟩
  | cons step steps ih =>
    obtain ⟨hlater, hclock⟩ := List.pairwise_cons.mp hclock
    have hfirst := hnow step List.mem_cons_self
    have hstep := hadmissible step List.mem_cons_self
    obtain ⟨record', hs'⟩ := hs.step hfirst hstep
    have h' := h.step hs hfirst hstep hs'.holds.read
    rw [← hs.history, ← hs'.history] at h'
    exact ih (hs'.history ▸ h') hs'
      (fun x hx => hadmissible x (List.mem_cons_of_mem step hx)) hclock
      hlater

end

/-- Where no entry moves, no file goes astray. -/
theorem Run.strays_of_isSteady {id : String} {run : Run} {steps : List Step}
    (h : run.IsSteady id steps) : run.strays id steps [] = [] := by
  induction steps generalizing run with
  | nil => rfl
  | cons step steps ih =>
    obtain ⟨hstay, hrest⟩ := h
    have hmoved : movedFrom (run.history id) ((run.step id step).history id) = [] := by
      rw [List.eq_nil_iff_forall_not_mem]
      intro file hfile
      obtain ⟨e, he, ⟨x, hx, hcommit, hne⟩, -⟩ := mem_movedFrom.mp hfile
      exact hne (hstay e he x hx hcommit)
    rw [Run.strays, nextStrays, hmoved]
    exact ih hrest

/-- After any run from an empty data directory, while the clock does not go back, the files in the
directory with the snapshots of the project are the data files of its history and the strays of the
run, which no entry has. As long as no entry moved to another data file, there are no strays. -/
theorem files_after (dataDir : String) (policy : RetentionPolicy) (id : String)
    (steps : List Step) (hadmissible : ∀ step ∈ steps, step.IsAdmissible policy)
    (hclock : steps.Pairwise fun a b => a.now.le b.now) :
    ∃ record, ((Run.start dataDir policy).after id steps).store.record? id = .ok record ∧
      (∀ p, IsStoredAt id ((Run.start dataDir policy).after id steps).store.tree p ↔
        (∃ e ∈ historyOf record, p = dataPath id e.dataFile) ∨
          ∃ file ∈ (Run.start dataDir policy).strays id steps [], p = dataPath id file) ∧
      (∀ file ∈ (Run.start dataDir policy).strays id steps [],
        ∀ e ∈ historyOf record, e.dataFile ≠ file) ∧
      ((Run.start dataDir policy).IsSteady id steps →
        ∀ p, IsStoredAt id ((Run.start dataDir policy).after id steps).store.tree p ↔
          ∃ e ∈ historyOf record, p = dataPath id e.dataFile) := by
  obtain ⟨now, hnow⟩ : ∃ now : Instant, ∀ step ∈ steps, now.le step.now := by
    cases steps with
    | nil => exact ⟨default, by simp⟩
    | cons step steps =>
      refine ⟨step.now, List.forall_mem_cons.mpr ⟨Instant.le_refl _, ?_⟩⟩
      exact (List.pairwise_cons.mp hclock).1
  obtain ⟨later, record, hs, h⟩ := (accounted_of_vacant (vacant_empty id)).after
    (sound_start dataDir policy id now) hadmissible hclock hnow
  have hfiles : ∀ p, IsStoredAt id ((Run.start dataDir policy).after id steps).store.tree p ↔
      (∃ e ∈ historyOf record, p = dataPath id e.dataFile) ∨
        ∃ file ∈ (Run.start dataDir policy).strays id steps [], p = dataPath id file := by
    intro p
    rw [h.stocked.isStoredAt_iff hs.holds.layout]
    simp [or_and_right, exists_or]
  refine ⟨record, hs.holds.read, hfiles, fun file hfile e he heq => ?_, fun hsteady p => ?_⟩
  · exact h.apart file hfile (List.mem_map.mpr ⟨e, he, heq⟩)
  · rw [hfiles, Run.strays_of_isSteady hsteady]
    simp

/-- A commit is saved and saved again, another one is not because it has a function twice, and the
project is cleaned. -/
def repeatedSteps : List Step :=
  [⟨.save "p" none { (default : NewGraph) with commit := "abcdef1a" }, ⟨1700000000, 0⟩⟩,
    ⟨.save "p" none { (default : NewGraph) with commit := "abcdef1a" }, ⟨1700000000, 5⟩⟩,
    ⟨.save "p" none { (default : NewGraph) with
      commit := "abcdef1b", graph.nodes := [default, default] }, ⟨1700000060, 0⟩⟩,
    ⟨.clean 1 7, ⟨1700000060, 5⟩⟩]

/-- The case of a commit saved twice and another one that is refused. -/
theorem files_after_repeatedSteps :
    (Run.start "data" {}).IsSteady "p" repeatedSteps ∧
    (((Run.start "data" {}).after "p" repeatedSteps).history "p").map (·.dataFile) =
      ["commits/abcdef1.db"] ∧
    ∃ record, ((Run.start "data" {}).after "p" repeatedSteps).store.record? "p" = .ok record ∧
      ∀ p, IsStoredAt "p" ((Run.start "data" {}).after "p" repeatedSteps).store.tree p ↔
        ∃ e ∈ historyOf record, p = dataPath "p" e.dataFile := by
  have hsteady : (Run.start "data" {}).IsSteady "p" repeatedSteps := by decide +kernel
  obtain ⟨record, hread, -, -, hfiles⟩ :=
    files_after "data" {} "p" repeatedSteps (by decide +kernel) (by decide)
  exact ⟨hsteady, by decide +kernel, record, hread, hfiles hsteady⟩

/-! ## A file goes astray -/

/-- What is entered is the graph of the entry. -/
theorem graph_of_enter {s s' : Store} {r : ProjectRecord} {id : String} {e : HistoryEntry}
    {now : Instant} {graph : CallGraph} (h : s.enter r id e now = (s', .ok graph)) :
    graph = s.graphOf id e := by
  simp only [enter] at h
  split at h
  · cases h
  · simp only [finish] at h
    split at h
    · cases h
      rfl
    · cases h

/-- A save that succeeds enters the data file that was chosen for its commit. -/
theorem dataFile?_of_save {s s' : Store} (identity : ProjectIdentity) {new : NewGraph}
    {now : Instant} {record : Option ProjectRecord} {steps : List Progress} {graph : CallGraph}
    (hread : s.record? identity.id = .ok record)
    (hsave : s.save identity new now = (s', steps, .ok graph)) :
    dataFile? (s.nextRecord identity record) new.commit = some graph.dataFile := by
  simp only [save, hread] at hsave
  cases hfile : dataFile? (s.nextRecord identity record) new.commit with
  | none =>
    rw [hfile] at hsave
    cases hsave
  | some file =>
    simp only [hfile] at hsave
    split at hsave
    · cases hsave
    · split at hsave
      · cases hsave
      · split at hsave
        · rename_i henter
          cases hsave
          rw [graph_of_enter henter]
          rfl
        · cases hsave

/-- Where a project may have one entry only, a save leaves the new one alone. -/
theorem Sound.history_save_of_single {policy : RetentionPolicy} {id name : String} {run : Run}
    {now : Instant} {record : Option ProjectRecord} {remote : Option String} {new : NewGraph}
    {file : String} {progress : List Progress} {snapshot : Snapshot}
    (hs : Sound policy id run now record) (hsingle : policy.maxCount ≤ 1) (hc : IsCommit new.commit)
    (hcut : HasCutoff now policy.maxAgeDays)
    (hsnap : snapshotOf new now = (progress, .ok snapshot))
    (hfile : ∀ r : ProjectRecord, r.history = run.history id → dataFile? r new.commit = some file) :
    (run.step id ⟨.save name remote new, now⟩).history id = [entryOf new file now] := by
  obtain ⟨base, bound, placed, t, steps, -, -, -, hbound, -, hw, hsave⟩ :=
    save_ok ⟨id, name, remote⟩ hs.holds hc (hs.retention ▸ hcut) hsnap
  obtain rfl : dataFileNamed base = file := by
    have hchosen := dataFile?_of_save ⟨id, name, remote⟩ hs.holds.read hsave
    rw [hfile _ (by rw [history_nextRecord, hs.history])] at hchosen
    exact (Option.some.inj hchosen).symm
  have hkept : (run.store.division (entryOf new (dataFileNamed base) now)
      (historyOf record) bound).kept = [entryOf new (dataFileNamed base) now] := by
    obtain ⟨rest, hkept⟩ := hs.kept_eq_cons (e := entryOf new (dataFileNamed base) now) rfl hbound
    have hlen := History.length_kept_le (replaced (entryOf new (dataFileNamed base) now)
      (historyOf record)) (max run.store.retention.maxCount 1) bound
    rw [← division, hkept, hs.retention, List.length_cons] at hlen
    rw [hkept, List.eq_nil_of_length_eq_zero (by omega : rest.length = 0)]
  rw [hkept] at hw
  have hread := hw.record? (s := run.store) (by
    rw [entered, history_repairLatest]
    exact List.pairwise_singleton _ _)
  have hid : (entered (run.store.nextRecord ⟨id, name, remote⟩ record)
      (entryOf new (dataFileNamed base) now) [entryOf new (dataFileNamed base) now]).id = id := by
    rw [entered, id_repairLatest]
    exact id_nextRecord hs.holds.owner
  have hstep : run.step id ⟨.save name remote new, now⟩ =
      { store := { run.store with tree := t }, saved := (new, now) :: run.saved } := by
    simp only [Run.step, hsave]
  rw [hstep, Run.history, ← hid, hread]
  exact history_repairLatest _

/-- A save of a graph without functions. -/
def plainSave (commit : String) (now : Instant) : Step :=
  ⟨.save "p" none { (default : NewGraph) with commit }, now⟩

/-- Saving a commit where one entry may stay leaves this entry alone. -/
theorem Sound.plainSave {run : Run} {earlier : Instant} {record : Option ProjectRecord}
    {commit : String} (hs : Sound ⟨1, 0⟩ "p" run earlier record) (hc : IsCommit commit)
    (now : Instant) (hle : earlier.le now) (file : String)
    (hfile : ∀ r : ProjectRecord, r.history = run.history "p" → dataFile? r commit = some file) :
    (∃ record', Sound ⟨1, 0⟩ "p" (run.step "p" (plainSave commit now)) now record') ∧
      (run.step "p" (plainSave commit now)).history "p" =
        [entryOf { (default : NewGraph) with commit } file now] :=
  have hs := hs.later hle
  ⟨hs.save hc (.inl rfl), hs.history_save_of_single (Nat.le_refl 1) hc (.inl rfl) rfl hfile⟩

/-- Two commits that begin alike are saved where one entry may stay, and the newer one is saved
again, now under the short name. -/
def movingSteps : List Step :=
  [plainSave "abcdef1a" ⟨1700000000, 0⟩, plainSave "abcdef1b" ⟨1700000000, 5⟩,
    plainSave "abcdef1b" ⟨1700000060, 0⟩]

/-- The case of a commit that moves from its full name to the short one: the file it had stays. -/
theorem save_again_strands_file :
    (∀ step ∈ movingSteps, step.IsAdmissible ⟨1, 0⟩) ∧
    (movingSteps.Pairwise fun a b => a.now.le b.now) ∧
    (((Run.start "data" ⟨1, 0⟩).after "p" movingSteps).history "p").map (·.dataFile) =
      ["commits/abcdef1.db"] ∧
    IsStoredAt "p" ((Run.start "data" ⟨1, 0⟩).after "p" movingSteps).store.tree
      (dataPath "p" "commits/abcdef1b.db") := by
  have hadmissible : ∀ step ∈ movingSteps, step.IsAdmissible ⟨1, 0⟩ := by decide +kernel
  have hclock : movingSteps.Pairwise fun a b => a.now.le b.now := by decide
  have ha : IsCommit "abcdef1a" := by decide +kernel
  have hb : IsCommit "abcdef1b" := by decide +kernel
  have hs₀ := sound_start "data" ⟨1, 0⟩ "p" ⟨1700000000, 0⟩
  have h₀ : (Run.start "data" ⟨1, 0⟩).history "p" = [] := hs₀.history
  -- the short name is free, then the other commit has it, then it is free again
  obtain ⟨⟨_, hs₁⟩, h₁⟩ := hs₀.plainSave ha ⟨1700000000, 0⟩ (by decide) "commits/abcdef1.db"
    fun r hr => by
      rw [dataFile?, hr, h₀]
      decide +kernel
  obtain ⟨⟨_, hs₂⟩, h₂⟩ := hs₁.plainSave hb ⟨1700000000, 5⟩ (by decide) "commits/abcdef1b.db"
    fun r hr => by
      rw [dataFile?, hr, h₁]
      decide +kernel
  obtain ⟨-, h₃⟩ := hs₂.plainSave hb ⟨1700000060, 0⟩ (by decide) "commits/abcdef1.db"
    fun r hr => by
      rw [dataFile?, hr, h₂]
      decide +kernel
  refine ⟨hadmissible, hclock, congrArg (List.map (·.dataFile)) h₃, ?_⟩
  obtain ⟨later, record, hs, h⟩ := (accounted_of_vacant (vacant_empty "p")).after hs₀ hadmissible
    hclock (by decide)
  refine (h.stocked.isStoredAt_iff hs.holds.layout _).mpr ⟨_, List.mem_append_right _ ?_, rfl⟩
  rw [movingSteps, Run.strays, Run.strays, Run.strays, Run.strays, h₀, h₁, h₂, h₃]
  decide +kernel

end CallImpact.Store
