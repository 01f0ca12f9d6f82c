import CallImpact.Proofs.Snapshot.Writing
import CallImpact.Proofs.Store.Operations
import Mathlib.Data.List.Nodup

/-!
# Runs of the store

A run takes a store from an empty data directory through any number of changes to one project
(`Run.after`), and remembers which graphs were saved successfully. `consistent_after` says what
holds of the project then, and so after every step of a run: the history is in order and within
its bound, no two entries share a commit or a data file, each data file holds the last graph that
was saved for its commit, and the latest commit is one of the history.

What carries the proof is `Backed`: a history whose data files are in the tree. A save extends such
a history by one entry, and what follows it there, as every other change, only shortens it.
-/

namespace CallImpact.Store

open History (HasCutoff Newest)

/-! ## Changes and runs -/

/-- A change to a project. -/
inductive Change where
  | save (name : String) (remote : Option String) (new : NewGraph)
  | setLatest (reference : String)
  | delete (reference : String)
  | clean (maxCount maxAgeDays : Nat)

/-- A change, and what the clock shows when it is made. -/
structure Step where
  change : Change
  now : Instant

/-- Whether commits are well-formed and the age bounds of a step have a cut-off. -/
def Step.IsAdmissible (policy : RetentionPolicy) (step : Step) : Prop :=
  match step.change with
  | .save _ _ new => IsCommit new.commit ∧ HasCutoff step.now policy.maxAgeDays
  | .setLatest _ => True
  | .delete _ => True
  | .clean _ maxAgeDays => HasCutoff step.now maxAgeDays

instance (policy : RetentionPolicy) : DecidablePred (Step.IsAdmissible policy)
  | ⟨.save _ _ new, now⟩ =>
    inferInstanceAs (Decidable (IsCommit new.commit ∧ HasCutoff now policy.maxAgeDays))
  | ⟨.setLatest _, _⟩ => inferInstanceAs (Decidable True)
  | ⟨.delete _, _⟩ => inferInstanceAs (Decidable True)
  | ⟨.clean _ maxAgeDays, now⟩ => inferInstanceAs (Decidable (HasCutoff now maxAgeDays))

/-- A store, and the graphs that were saved successfully, the last one first. -/
structure Run where
  store : Store
  saved : List (NewGraph × Instant) := []

namespace Run

/-- A run that has not begun: the data directory is empty. -/
def start (dataDir : String) (policy : RetentionPolicy) : Run :=
  { store := { dataDir, retention := policy } }

/-- A run after one more step, which may fail. -/
def step (id : String) (run : Run) (step : Step) : Run :=
  match step.change with
  | .save name remote new =>
    match run.store.save ⟨id, name, remote⟩ new step.now with
    | (store, _, .ok _) => { store, saved := (new, step.now) :: run.saved }
    | (store, _, .error _) => { run with store }
  | .setLatest reference => { run with store := (run.store.setLatest id reference).1 }
  | .delete reference => { run with store := (run.store.delete id reference).1 }
  | .clean maxCount maxAgeDays =>
    { run with store := (run.store.clean id maxCount maxAgeDays step.now).1 }

/-- A run after more steps. -/
def after (id : String) (run : Run) (steps : List Step) : Run :=
  steps.foldl (step id) run

end Run

/-- The last graph that was saved for a commit, and when. -/
def lastSaved? (saved : List (NewGraph × Instant)) (commit : String) :
    Option (NewGraph × Instant) :=
  saved.find? fun entry => entry.1.commit == commit

/-! ## What a project is like between steps -/

/-- Whether a snapshot holds a graph: its nodes by their numbers, its edges in order, and what
belongs to its commit. -/
structure IsSnapshotOf (snapshot : Snapshot) (new : NewGraph) (now : Instant) : Prop where
  nodes : snapshot.nodes.Perm new.graph.nodes
  increasing : Snapshot.Increasing snapshot.nodes
  edges : snapshot.edges = new.graph.edges
  commit : snapshot.text? "commit" = some new.commit
  algorithm : snapshot.text? "algorithm" = some new.graph.actual.id
  modulePath : snapshot.text? "module_path" = some new.graph.modulePath
  created : snapshot.text? "created_at" = some now.offsetText

/-- What is recorded about a project after a run under a policy. -/
structure Consistent (policy : RetentionPolicy) (id : String) (run : Run)
    (record : Option ProjectRecord) : Prop where
  commits_nodup : ((historyOf record).map (·.commit)).Nodup
  newest : Newest (historyOf record)
  length_le : (historyOf record).length ≤ max 1 policy.maxCount
  dataFiles_nodup : ((historyOf record).map (·.dataFile)).Nodup
  snapshot : ∀ e ∈ historyOf record, ∃ new now snapshot,
    lastSaved? run.saved e.commit = some (new, now) ∧ e = entryOf new e.dataFile now ∧
      run.store.openSnapshot id e.dataFile = .ok snapshot ∧ IsSnapshotOf snapshot new now
  latest_eq_none_iff : latestOf record = none ↔ historyOf record = []
  latest_mem : ∀ l ∈ latestOf record, ∃ e ∈ historyOf record, l = ⟨e.commit, e.dataFile⟩

/-- A snapshot that is written holds its graph. -/
theorem isSnapshotOf_snapshotOf {new : NewGraph} {now : Instant} {progress : List Progress}
    {snapshot : Snapshot} (h : snapshotOf new now = (progress, .ok snapshot)) :
    IsSnapshotOf snapshot new now := by
  unfold snapshotOf at h
  split at h
  · cases h
  · rename_i withNodes hnodes
    dsimp only at h
    split at h
    · cases h
    · rename_i full hedges
      obtain ⟨-, rfl⟩ := Snapshot.writeEdges_eq_ok_iff.mp hedges
      have hperm := Snapshot.writeNodes_perm hnodes
      have hinc := Snapshot.writeNodes_increasing hnodes List.Pairwise.nil
      obtain ⟨all, -, rfl⟩ := Snapshot.writeNodes_eq_ok_iff.mp hnodes
      cases h
      refine ⟨by simpa using hperm, hinc, rfl, ?_, ?_, ?_, ?_⟩
      all_goals simp [Snapshot.text?_setText]

/-! ## Histories with their data files -/

/-- A history whose data files are in a tree, each with the last graph saved for its commit. -/
structure Backed (t : FileTree Stored) (id : String) (saved : List (NewGraph × Instant))
    (history : List HistoryEntry) : Prop where
  commits_nodup : (history.map (·.commit)).Nodup
  newest : Newest history
  dataFiles_nodup : (history.map (·.dataFile)).Nodup
  named : ∀ e ∈ history, NamedFor e.commit e.dataFile
  stored : ∀ e ∈ history, ∃ new now progress snapshot,
    lastSaved? saved e.commit = some (new, now) ∧ e = entryOf new e.dataFile now ∧
      snapshotOf new now = (progress, .ok snapshot) ∧
      t.at? (dataPath id e.dataFile) = some (.file (.snapshot snapshot))

namespace Backed

variable {t t' : FileTree Stored} {id : String} {saved : List (NewGraph × Instant)}
  {history : List HistoryEntry}

/-- A change that leaves the data files of some of the entries alone leaves these backed. -/
theorem of_sublist (h : Backed t id saved history) {fewer : List HistoryEntry}
    (hsub : fewer.Sublist history)
    (hat : ∀ e ∈ fewer, t'.at? (dataPath id e.dataFile) = t.at? (dataPath id e.dataFile)) :
    Backed t' id saved fewer where
  commits_nodup := h.commits_nodup.sublist (hsub.map _)
  newest := h.newest.sublist hsub
  dataFiles_nodup := h.dataFiles_nodup.sublist (hsub.map _)
  named e he := h.named e (hsub.subset he)
  stored e he := by
    rw [hat e he]
    exact h.stored e (hsub.subset he)

/-- A snapshot that comes to its place backs the new entry, which replaces those of its commit. -/
theorem placed (h : Backed t id saved history) {name : String} {new : NewGraph} {now : Instant}
    {progress : List Progress} {snapshot : Snapshot} (hname : IsPlain name)
    (hnf : NamedFor new.commit (dataFileNamed name))
    (hother : ∀ e ∈ history, e.commit ≠ new.commit → e.dataFile ≠ dataFileNamed name)
    (hsnap : snapshotOf new now = (progress, .ok snapshot))
    (hpast : ∀ e ∈ history, e.created.le now) (hp : Placed id name snapshot t t') :
    Backed t' id ((new, now) :: saved)
      (replaced (entryOf new (dataFileNamed name) now) history) := by
  have hof : ∀ x ∈ history.filter (fun x => x.commit != new.commit),
      x ∈ history ∧ x.commit ≠ new.commit := fun x hx => by simpa using hx
  have hsub : (history.filter fun x => x.commit != new.commit).Sublist history :=
    List.filter_sublist
  rw [replaced_of_newest h.newest hpast]
  refine ⟨?_, (h.newest.sublist hsub).cons fun x hx => hpast x (hof x hx).1, ?_, ?_, ?_⟩
  · refine List.nodup_cons.mpr ⟨fun hmem => ?_, h.commits_nodup.sublist (hsub.map _)⟩
    obtain ⟨x, hx, heq⟩ := List.mem_map.mp hmem
    exact (hof x hx).2 heq
  · refine List.nodup_cons.mpr ⟨fun hmem => ?_, h.dataFiles_nodup.sublist (hsub.map _)⟩
    obtain ⟨x, hx, heq⟩ := List.mem_map.mp hmem
    exact hother x (hof x hx).1 (hof x hx).2 heq
  · intro e he
    rcases List.mem_cons.mp he with rfl | he
    · exact hnf
    · exact h.named e (hof e he).1
  · intro e he
    rcases List.mem_cons.mp he with rfl | he
    · refine ⟨new, now, progress, snapshot, ?_, rfl, hsnap, ?_⟩
      · simp [lastSaved?, entryOf]
      · exact (hp.at?_dataPath hname hnf).trans (if_pos rfl)
    · obtain ⟨hmem, hne⟩ := hof e he
      obtain ⟨new', now', progress', snapshot', hlast, heq, hsnap', hat⟩ := h.stored e hmem
      refine ⟨new', now', progress', snapshot', ?_, heq, hsnap', ?_⟩
      · rw [lastSaved?, List.find?_cons_of_neg (by simpa using Ne.symm hne)]
        exact hlast
      · rw [hp.at?_dataPath hname (h.named e hmem), if_neg (hother e hmem hne), hat]

/-- What retention keeps has none of the data files that it removes. -/
theorem not_mem_removed (h : Backed t id saved history) {maxCount : Nat} {bound : Option Instant}
    {e : HistoryEntry} (he : e ∈ (History.partition history maxCount bound).kept) :
    e.dataFile ∉ (History.partition history maxCount bound).removed.map (·.dataFile) := by
  have hnodup := ((History.partition_perm history maxCount bound).map (·.dataFile)).nodup_iff.mpr
    h.dataFiles_nodup
  rw [List.map_append] at hnodup
  exact fun hmem => (List.nodup_append.mp hnodup).2.2 _ (List.mem_map_of_mem he) _ hmem rfl

/-- Without its entry, no other has the data file of a commit. -/
theorem not_mem_deleted (h : Backed t id saved history) {e x : HistoryEntry} (he : e ∈ history)
    (hx : x ∈ history.filter fun x => x.commit != e.commit) :
    x.dataFile ∉ [e].map (·.dataFile) := by
  obtain ⟨hmem, hne⟩ : x ∈ history ∧ x.commit ≠ e.commit := by simpa using hx
  intro hfile
  rw [List.map_singleton, List.mem_singleton] at hfile
  exact hne (congrArg _ (List.inj_on_of_nodup_map h.dataFiles_nodup hmem he hfile))

end Backed

/-! ## The latest commit -/

/-- Whether the latest commit is one of a history, or none where the history is empty. -/
structure Pointed (history : List HistoryEntry) (latest : Option LatestPointer) : Prop where
  eq_none_iff : latest = none ↔ history = []
  mem : ∀ l ∈ latest, ∃ e ∈ history, l = ⟨e.commit, e.dataFile⟩

/-- Repair makes the latest commit one of the history, when it was one of a longer one. -/
theorem pointed_repairLatest {r : ProjectRecord} {history : List HistoryEntry}
    (hcommits : (history.map (·.commit)).Nodup) (hsub : r.history.Sublist history)
    (hmem : ∀ l ∈ r.latest, ∃ e ∈ history, l = ⟨e.commit, e.dataFile⟩) :
    Pointed r.repairLatest.history r.repairLatest.latest := by
  unfold ProjectRecord.repairLatest
  split
  · rename_i hvalid
    obtain ⟨l, hl, hany⟩ := (Option.any_eq_true _ _).mp hvalid
    obtain ⟨e, he, hcommit⟩ := List.any_eq_true.mp hany
    obtain ⟨old, hold, rfl⟩ := hmem l hl
    -- the entry with the commit is the one that the latest commit came from
    have heq : e = old :=
      List.inj_on_of_nodup_map hcommits (hsub.subset he) hold (by simpa using hcommit)
    subst heq
    rw [hl]
    refine ⟨?_, ?_⟩
    · simpa using List.ne_nil_of_mem he
    · rintro l ⟨⟩
      exact ⟨e, he, rfl⟩
  · unfold ProjectRecord.pointAt
    cases hh : r.history with
    | nil => exact ⟨by simp, by simp⟩
    | cons e rest =>
      refine ⟨by simp, ?_⟩
      rintro l ⟨⟩
      exact ⟨e, List.mem_cons_self, rfl⟩

/-! ## One step -/

/-- What holds of a project at an instant of a run. -/
structure Sound (policy : RetentionPolicy) (id : String) (run : Run) (now : Instant)
    (record : Option ProjectRecord) : Prop where
  retention : run.store.retention = policy
  holds : Holds run.store id record
  backed : Backed run.store.tree id run.saved (historyOf record)
  pointed : Pointed (historyOf record) (latestOf record)
  length_le : (historyOf record).length ≤ max 1 policy.maxCount
  past : ∀ e ∈ historyOf record, e.created.le now

section
variable {policy : RetentionPolicy} {id : String} {run : Run} {now : Instant}
  {record : Option ProjectRecord}

/-- Where nothing stands in the place of a project, nothing is recorded. -/
theorem sound_of_vacant {s : Store} (hpolicy : s.retention = policy) (h : Vacant id s.tree)
    (now : Instant) : Sound policy id { store := s } now none where
  retention := hpolicy
  holds :=
    { layout := h.layout
      read := record?_of_at?_none h.at?_recordPath
      owner := by simp
      named := by simp [historyOf] }
  backed := ⟨.nil, .nil, .nil, by simp [historyOf], by simp [historyOf]⟩
  pointed := ⟨by simp [historyOf, latestOf], by simp [latestOf]⟩
  length_le := by simp [historyOf]
  past := by simp [historyOf]

/-- A run starts soundly, with no record. -/
theorem sound_start (dataDir : String) (policy : RetentionPolicy) (id : String) (now : Instant) :
    Sound policy id (Run.start dataDir policy) now none :=
  sound_of_vacant (s := { dataDir, retention := policy }) rfl (vacant_empty id) now

/-- What is sound at an instant is so later on. -/
theorem Sound.later (h : Sound policy id run now record) {later : Instant} (hle : now.le later) :
    Sound policy id run later record :=
  { h with past := fun e he => Instant.le_trans (h.past e he) hle }

/-- A record whose history is part of a backed one may be written, when no data file of it is
removed. -/
theorem sound_rewritten {s : Store} {t t' : FileTree Stored} {r : ProjectRecord}
    {saved : List (NewGraph × Instant)} {history gone : List HistoryEntry}
    (hw : Rewritten r gone t t') (hid : r.id = id) (hpolicy : s.retention = policy)
    (hl : Layout id t) (hb : Backed t id saved history) (hsub : r.history.Sublist history)
    (hgone : ∀ e ∈ gone, NamedFor e.commit e.dataFile)
    (hfree : ∀ e ∈ r.history, e.dataFile ∉ gone.map (·.dataFile))
    (hpointed : Pointed r.history r.latest) (hlen : r.history.length ≤ max 1 policy.maxCount)
    (hpast : ∀ e ∈ history, e.created.le now) :
    Sound policy id { store := { s with tree := t' }, saved } now (some r) := by
  subst hid
  have hbacked : Backed t' r.id saved r.history := hb.of_sublist hsub fun e he => by
    rw [hw.at?_dataPath hgone (hb.named e (hsub.subset he)), if_neg (hfree e he)]
  refine ⟨hpolicy, ⟨hw.layout hl, hw.record? hbacked.newest, ?_, hbacked.named⟩, hbacked, hpointed,
    hlen, fun e he => hpast e (hsub.subset he)⟩
  rintro _ ⟨⟩
  rfl

/-- A failed save leaves a project as it was. -/
theorem Sound.prepared (h : Sound policy id run now record) {name : String}
    {t : FileTree Stored} (hname : IsPlain name) (hp : Prepared id name run.store.tree t) :
    Sound policy id { run with store := { run.store with tree := t } } now record where
  retention := h.retention
  holds :=
    { layout := hp.layout h.holds.layout
      read := (record?_congr hp.at?_recordPath).trans h.holds.read
      owner := h.holds.owner
      named := h.holds.named }
  backed := h.backed.of_sublist (List.Sublist.refl _) fun e he =>
    hp.at?_dataPath hname (h.backed.named e he)
  pointed := h.pointed
  length_le := h.length_le
  past := h.past

/-- Saving a commit keeps a run sound. -/
theorem Sound.save (h : Sound policy id run now record) {name : String} {remote : Option String}
    {new : NewGraph} (hc : IsCommit new.commit) (hcut : HasCutoff now policy.maxAgeDays) :
    ∃ record', Sound policy id (run.step id ⟨.save name remote new, now⟩) now record' := by
  rcases hsnap : snapshotOf new now with ⟨progress, error | snapshot⟩
  · obtain ⟨file, t, steps, hname, hp, hsave⟩ :=
      save_error ⟨id, name, remote⟩ h.holds hc hsnap
    refine ⟨record, ?_⟩
    simp only [Run.step, hsave]
    exact h.prepared hname hp
  · obtain ⟨file, bound, placed, t, steps, hname, hnf, hother, -, hp, hw, hsave⟩ :=
      save_ok ⟨id, name, remote⟩ h.holds hc (h.retention ▸ hcut) hsnap
    have hb := h.backed.placed hname hnf hother hsnap h.past hp
    have hkept := History.kept_sublist
      (replaced (entryOf new (dataFileNamed file) now) (historyOf record))
      (max run.store.retention.maxCount 1) bound
    have hstep : run.step id ⟨.save name remote new, now⟩ =
        { store := { run.store with tree := t }, saved := (new, now) :: run.saved } := by
      simp only [Run.step, hsave]
    rw [hstep]
    refine ⟨_, sound_rewritten hw ?_ h.retention (hp.layout hname h.holds.layout) hb
      ?_ ?_ ?_ ?_ ?_ ?_⟩
    · rw [entered, id_repairLatest]
      exact id_nextRecord h.holds.owner
    · rw [entered, history_repairLatest]
      exact hkept
    · exact fun e he => hb.named e (History.mem_of_mem_removed he)
    · intro e he
      rw [entered, history_repairLatest] at he
      exact hb.not_mem_removed he
    · refine pointed_repairLatest hb.commits_nodup hkept ?_
      rintro l ⟨⟩
      exact ⟨_, (History.newestFirst_perm _).mem_iff.mpr List.mem_cons_self, rfl⟩
    · rw [entered, history_repairLatest]
      exact Nat.le_trans (History.length_kept_le _ _ _) (by rw [h.retention]; omega)
    · intro e he
      rcases List.mem_cons.mp ((History.newestFirst_perm _).mem_iff.mp he) with rfl | he
      · exact Instant.le_refl now
      · exact h.past e (List.mem_filter.mp he).1

/-- Setting the latest graph keeps a run sound. -/
theorem Sound.setLatest (h : Sound policy id run now record) (reference : String) :
    ∃ record', Sound policy id (run.step id ⟨.setLatest reference, now⟩) now record' := by
  rcases setLatest_cases h.holds reference with ⟨error, heq⟩ | ⟨r, e, t, rfl, he, heq, hw⟩
  · refine ⟨record, ?_⟩
    simp only [Run.step, heq]
    exact h
  · have hstep : run.step id ⟨.setLatest reference, now⟩ =
        { run with store := { run.store with tree := t } } := by
      simp only [Run.step, heq]
    rw [hstep]
    refine ⟨_, sound_rewritten hw (h.holds.owner r rfl) h.retention h.holds.layout h.backed
      (List.Sublist.refl _) (by simp) (by simp) ⟨?_, ?_⟩ h.length_le h.past⟩
    · simpa [ProjectRecord.pointAt] using List.ne_nil_of_mem he
    · rintro l ⟨⟩
      exact ⟨e, he, rfl⟩

/-- Deleting a graph keeps a run sound. -/
theorem Sound.delete (h : Sound policy id run now record) (reference : String) :
    ∃ record', Sound policy id (run.step id ⟨.delete reference, now⟩) now record' := by
  rcases delete_cases h.holds reference with ⟨error, heq⟩ | ⟨r, e, t, rfl, he, heq, hw⟩
  · refine ⟨record, ?_⟩
    simp only [Run.step, heq]
    exact h
  · have hstep : run.step id ⟨.delete reference, now⟩ =
        { run with store := { run.store with tree := t } } := by
      simp only [Run.step, heq]
    have hsub : (withoutCommit r e.commit).history.Sublist (historyOf (some r)) :=
      List.filter_sublist
    rw [hstep]
    refine ⟨_, sound_rewritten hw ?_ h.retention h.holds.layout h.backed ?_ ?_ ?_ ?_ ?_ h.past⟩
    · rw [id_repairLatest]
      exact h.holds.owner r rfl
    · rw [history_repairLatest]
      exact hsub
    · intro x hx
      rw [List.mem_singleton] at hx
      exact hx ▸ h.backed.named e he
    · intro x hx
      rw [history_repairLatest] at hx
      exact h.backed.not_mem_deleted he hx
    · exact pointed_repairLatest h.backed.commits_nodup hsub h.pointed.mem
    · rw [history_repairLatest]
      exact Nat.le_trans hsub.length_le h.length_le

/-- Cleaning keeps a run sound. -/
theorem Sound.clean (h : Sound policy id run now record) (maxCount : Nat) {maxAgeDays : Nat}
    (hcut : HasCutoff now maxAgeDays) :
    ∃ record', Sound policy id (run.step id ⟨.clean maxCount maxAgeDays, now⟩) now record' := by
  rcases clean_cases h.holds maxCount hcut with ⟨-, heq⟩ | ⟨r, bound, t, rfl, heq, hw⟩
  · refine ⟨record, ?_⟩
    simp only [Run.step, heq]
    exact h
  · have hstep : run.step id ⟨.clean maxCount maxAgeDays, now⟩ =
        { run with store := { run.store with tree := t } } := by
      simp only [Run.step, heq]
    have hsub := History.kept_sublist r.history maxCount bound
    rw [hstep]
    refine ⟨_, sound_rewritten hw ?_ h.retention h.holds.layout h.backed ?_ ?_ ?_ ?_ ?_ h.past⟩
    · rw [id_repairLatest]
      exact h.holds.owner r rfl
    · rw [history_repairLatest]
      exact hsub
    · exact fun e he => h.backed.named e (History.mem_of_mem_removed he)
    · intro e he
      rw [history_repairLatest] at he
      exact h.backed.not_mem_removed he
    · exact pointed_repairLatest h.backed.commits_nodup hsub h.pointed.mem
    · rw [history_repairLatest]
      exact Nat.le_trans hsub.length_le h.length_le

/-- Every step keeps a project sound. -/
theorem Sound.step (h : Sound policy id run now record) {step : Step} (hnow : now.le step.now)
    (hstep : step.IsAdmissible policy) :
    ∃ record', Sound policy id (run.step id step) step.now record' := by
  have h := h.later hnow
  obtain ⟨change, now⟩ := step
  cases change with
  | save name remote new => exact h.save hstep.1 hstep.2
  | setLatest reference => exact h.setLatest reference
  | delete reference => exact h.delete reference
  | clean maxCount maxAgeDays => exact h.clean maxCount hstep

/-! ## Whole runs -/

/-- Every run keeps a project sound while the clock does not go back. -/
theorem Sound.after {steps : List Step} (h : Sound policy id run now record)
    (hadmissible : ∀ step ∈ steps, step.IsAdmissible policy)
    (hclock : steps.Pairwise fun a b => a.now.le b.now) (hnow : ∀ step ∈ steps, now.le step.now) :
    ∃ later record', Sound policy id (run.after id steps) later record' := by
  induction steps generalizing run now record with
  | nil => exact ⟨now, record, h⟩
  | cons step steps ih =>
    obtain ⟨hlater, hclock⟩ := List.pairwise_cons.mp hclock
    obtain ⟨record', h'⟩ := h.step (hnow step List.mem_cons_self)
      (hadmissible step List.mem_cons_self)
    exact ih h' (fun x hx => hadmissible x (List.mem_cons_of_mem step hx)) hclock hlater

/-- What a sound run leaves is consistent. -/
theorem Sound.consistent (h : Sound policy id run now record) :
    Consistent policy id run record where
  commits_nodup := h.backed.commits_nodup
  newest := h.backed.newest
  length_le := h.length_le
  dataFiles_nodup := h.backed.dataFiles_nodup
  snapshot e he := by
    obtain ⟨new, now, progress, snapshot, hlast, heq, hsnap, hat⟩ := h.backed.stored e he
    exact ⟨new, now, snapshot, hlast, heq, openSnapshot_of_at? hat, isSnapshotOf_snapshotOf hsnap⟩
  latest_eq_none_iff := h.pointed.eq_none_iff
  latest_mem := h.pointed.mem

end

/-- After any run from an empty data directory, while the clock does not go back, the record of the
project can be read and is consistent with the saves of the run. -/
theorem consistent_after (dataDir : String) (policy : RetentionPolicy) (id : String)
    (steps : List Step) (hadmissible : ∀ step ∈ steps, step.IsAdmissible policy)
    (hclock : steps.Pairwise fun a b => a.now.le b.now) :
    ∃ record, ((Run.start dataDir policy).after id steps).store.record? id = .ok record ∧
      Consistent policy id ((Run.start dataDir policy).after id steps) record := by
  cases steps with
  | nil =>
    have h := sound_start dataDir policy id default
    exact ⟨none, h.holds.read, h.consistent⟩
  | cons step steps =>
    have hnow : ∀ x ∈ step :: steps, step.now.le x.now := by
      intro x hx
      rcases List.mem_cons.mp hx with rfl | hx
      · exact Instant.le_refl _
      · exact (List.pairwise_cons.mp hclock).1 x hx
    obtain ⟨later, record, h⟩ :=
      (sound_start dataDir policy id step.now).after hadmissible hclock hnow
    exact ⟨record, h.holds.read, h.consistent⟩

/-- Two commits that begin alike are saved, the newer one is deleted, and the rest is cleaned. -/
def alikeSteps : List Step :=
  [⟨.save "p" none { (default : NewGraph) with commit := "abcdef1a" }, ⟨1700000000, 0⟩⟩,
    ⟨.save "p" none { (default : NewGraph) with commit := "abcdef1b" }, ⟨1700000000, 5⟩⟩,
    ⟨.delete "abcdef1b", ⟨1700000060, 0⟩⟩, ⟨.clean 1 7, ⟨1700000060, 0⟩⟩]

/-- The case of two commits that begin alike, of which the newer one is deleted. -/
theorem consistent_after_alikeSteps :
    ∃ record, ((Run.start "data" {}).after "p" alikeSteps).store.record? "p" = .ok record ∧
      Consistent {} "p" ((Run.start "data" {}).after "p" alikeSteps) record := by
  exact consistent_after "data" {} "p" alikeSteps (by decide +kernel) (by decide)

end CallImpact.Store
