import CallImpact.Proofs.History
import CallImpact.Proofs.Store.Layout

/-!
# What the operations of the store do

Each operation on a project either leaves the store alone or writes a new record, after some data
files were removed (`Rewritten`) and, in a save, after a snapshot came to its place (`Placed`). The
lemmas `setLatest_cases`, `delete_cases`, `clean_cases`, `save_error` and `save_ok` say for each
operation which it is, and with which record; the lemmas on `Rewritten` and `Placed` say what can be
read afterwards. The first part of a save needs no more than a clear place for its data file
(`save_of_snapshotOf_error`, `save_of_snapshotOf_ok`).
-/

namespace CallImpact.Store

open FileTree (Standing)
open History (HasCutoff)

/-! ## What is recorded -/

/-- The history of what is recorded. -/
def historyOf (record : Option ProjectRecord) : List HistoryEntry :=
  (record.map (·.history)).getD []

/-- The latest commit of what is recorded. -/
def latestOf (record : Option ProjectRecord) : Option LatestPointer :=
  record.bind (·.latest)

/-- What is recorded about a project, in a tree with its layout. -/
structure Holds (s : Store) (id : String) (record : Option ProjectRecord) : Prop where
  layout : Layout id s.tree
  read : s.record? id = .ok record
  owner : ∀ r ∈ record, r.id = id
  named : ∀ e ∈ historyOf record, NamedFor e.commit e.dataFile

@[simp] theorem id_repairLatest (r : ProjectRecord) : r.repairLatest.id = r.id := by
  unfold ProjectRecord.repairLatest
  split
  · rfl
  · rfl

@[simp] theorem history_repairLatest (r : ProjectRecord) :
    r.repairLatest.history = r.history := by
  unfold ProjectRecord.repairLatest
  split
  · rfl
  · rfl

/-! ## A record is written -/

/-- A tree after the data files of entries were removed and a record was written. -/
def Rewritten (r : ProjectRecord) (gone : List HistoryEntry) (t t' : FileTree Stored) : Prop :=
  ∀ p, t'.at? p =
    if p = recordPath r.id then some (.file (.record r))
    else if p <+: projectDir r.id then some .directory
    else if p ∈ gone.map (fun e => dataPath r.id e.dataFile) then none else t.at? p

namespace Rewritten

variable {r : ProjectRecord} {gone : List HistoryEntry} {t t' : FileTree Stored}

/-- Files with a rewritten record are laid out as they should be. -/
theorem layout (h : Rewritten r gone t t') (hl : Layout r.id t) : Layout r.id t' := by
  refine hl.of_at? fun p x hx => ?_
  rw [h p] at hx
  split at hx
  · rename_i hp
    cases hx
    exact .inr (.inl hp)
  · split at hx
    · rename_i hp
      cases hx
      exact .inr (hp.trans (List.prefix_append _ _))
    · split at hx
      · cases hx
      · exact .inl hx

/-- The record that was written is read back. -/
theorem record? {s : Store} (h : Rewritten r gone t t') (hn : History.Newest r.history) :
    ({ s with tree := t' } : Store).record? r.id = .ok (some r) := by
  have hat : ({ s with tree := t' } : Store).tree.at? (recordPath r.id) =
      some (.file (.record r)) := by
    rw [h, if_pos rfl]
  rw [record?_of_at? hat, History.newestFirst_of_newest hn]

/-- Data files stay as they are, except for those of the entries that were removed. -/
theorem at?_dataPath (h : Rewritten r gone t t')
    (hgone : ∀ e ∈ gone, NamedFor e.commit e.dataFile) {commit file : String}
    (hf : NamedFor commit file) :
    t'.at? (dataPath r.id file) =
      if file ∈ gone.map (·.dataFile) then none else t.at? (dataPath r.id file) := by
  obtain ⟨name, hname, rfl⟩ := hf.exists_plain
  have hpath := dataPath_dataFileNamed r.id hname
  have hrecord : dataPath r.id (dataFileNamed name) ≠ recordPath r.id := fun he => by
    have := congrArg List.length (hpath.symm.trans he)
    simp [commitPath, recordPath] at this
  have hdir : ¬ dataPath r.id (dataFileNamed name) <+: projectDir r.id := fun hp => by
    rw [hpath] at hp
    exact commitPath_not_above r.id _ (hp.trans (List.prefix_append _ _))
  have hmem : dataPath r.id (dataFileNamed name) ∈ gone.map (fun e => dataPath r.id e.dataFile) ↔
      dataFileNamed name ∈ gone.map (·.dataFile) := by
    rw [List.mem_map, List.mem_map]
    refine exists_congr fun e => and_congr_right fun he => ?_
    obtain ⟨other, hother, heq⟩ := (hgone e he).exists_plain
    rw [heq]
    exact ⟨fun h => congrArg dataFileNamed (dataPath_dataFileNamed_inj hother hname h),
      fun h => congrArg _ h⟩
  rw [h, if_neg hrecord, if_neg hdir]
  simp only [hmem]

end Rewritten

/-- A record is written after data files were removed. -/
theorem rewrite_ok {α : Type} {s : Store} {r : ProjectRecord} (gone : List HistoryEntry) (a : α)
    (hl : Layout r.id s.tree) (hgone : ∀ e ∈ gone, NamedFor e.commit e.dataFile) :
    ∃ t, (gone.foldl (fun s e => s.removeData r.id e) s).finish r a =
      ({ s with tree := t }, .ok a) ∧
      Rewritten r gone s.tree t := by
  obtain ⟨less, hless, hat⟩ := at?_removeAll hl hgone
  have hl' : Layout r.id ({ s with tree := less } : Store).tree := by
    refine hl.of_at? fun p x hx => ?_
    rw [hat p] at hx
    split at hx
    · cases hx
    · exact .inl hx
  obtain ⟨t, ht, hat'⟩ := finish_ok a hl'
  refine ⟨t, by rw [hless, ht], fun p => ?_⟩
  rw [hat', hat]

/-! ## Operations on what is recorded -/

section
variable {s : Store} {id : String} {record : Option ProjectRecord}

/-- What a reference selects is in the history. -/
theorem mem_of_find? {entries : List HistoryEntry} {reference : String} {e : HistoryEntry}
    (h : History.find? entries reference = some e) : e ∈ entries := by
  unfold History.find? at h
  rw [Option.orElse_eq_orElse, Option.orElse_eq_or] at h
  cases hexact : entries.find? fun e => e.commit == reference with
  | none =>
    rw [hexact, Option.none_or] at h
    exact List.mem_of_find?_eq_some h
  | some found =>
    rw [hexact, Option.some_or] at h
    cases h
    exact List.mem_of_find?_eq_some hexact

/-- A selection finds an entry of what is recorded. -/
theorem mem_of_select {reference : String} {r : ProjectRecord} {e : HistoryEntry}
    (hr : s.record? id = .ok record) (h : s.select id reference = .ok (r, e)) :
    record = some r ∧ e ∈ r.history := by
  unfold select at h
  cases hc : History.checkReference reference with
  | error x => simp [hc, bind, Except.bind] at h
  | ok reference =>
    simp only [hc, hr, bind, Except.bind] at h
    cases record with
    | none => simp [throw, throwThe, MonadExceptOf.throw] at h
    | some r' =>
      dsimp only at h
      split at h
      · rename_i e' he'
        simp only [pure, Except.pure, Except.ok.injEq, Prod.mk.injEq] at h
        obtain ⟨rfl, rfl⟩ := h
        exact ⟨rfl, mem_of_find? he'⟩
      · simp [throw, throwThe, MonadExceptOf.throw] at h

/-- A selection is made in what is recorded. -/
theorem record?_of_select {reference : String} {r : ProjectRecord} {e : HistoryEntry}
    (h : s.select id reference = .ok (r, e)) : s.record? id = .ok (some r) := by
  cases hread : s.record? id with
  | ok record => rw [(mem_of_select hread h).1]
  | error error =>
    unfold select at h
    cases hc : History.checkReference reference with
    | error x => simp [hc, bind, Except.bind] at h
    | ok reference => simp [hc, hread, bind, Except.bind] at h

/-- Making a graph the latest changes the record alone. -/
theorem setLatest_cases (h : Holds s id record) (reference : String) :
    (∃ error, s.setLatest id reference = (s, .error error)) ∨
    ∃ r e t, record = some r ∧ e ∈ r.history ∧
      s.setLatest id reference = ({ s with tree := t }, .ok (s.graphOf id e)) ∧
      Rewritten (r.pointAt (some e)) [] s.tree t := by
  unfold setLatest
  cases hsel : s.select id reference with
  | error error => exact .inl ⟨error, rfl⟩
  | ok found =>
    obtain ⟨r, e⟩ := found
    obtain ⟨rfl, he⟩ := mem_of_select h.read hsel
    have hid : (r.pointAt (some e)).id = id := h.owner r rfl
    obtain ⟨t, ht, hw⟩ := rewrite_ok [] (s.graphOf id e) (hid ▸ h.layout) (by simp)
    exact .inr ⟨r, e, t, rfl, he, ht, hw⟩

/-- Deleting a graph removes its data file and its entry. -/
theorem delete_cases (h : Holds s id record) (reference : String) :
    (∃ error, s.delete id reference = (s, .error error)) ∨
    ∃ r e t, record = some r ∧ e ∈ r.history ∧
      s.delete id reference = ({ s with tree := t }, .ok (s.graphOf id e)) ∧
      Rewritten (withoutCommit r e.commit).repairLatest [e] s.tree t := by
  unfold delete
  cases hsel : s.select id reference with
  | error error => exact .inl ⟨error, rfl⟩
  | ok found =>
    obtain ⟨r, e⟩ := found
    obtain ⟨rfl, he⟩ := mem_of_select h.read hsel
    have hid : (withoutCommit r e.commit).repairLatest.id = id := by
      rw [id_repairLatest]
      exact h.owner r rfl
    obtain ⟨t, ht, hw⟩ := rewrite_ok [e] (s.graphOf id e) (hid ▸ h.layout)
      fun x hx => by
        rw [List.mem_singleton] at hx
        exact hx ▸ h.named e he
    rw [hid] at ht
    exact .inr ⟨r, e, t, rfl, he, ht, hw⟩

/-- Cleaning removes the data files and the entries beyond the bounds. -/
theorem clean_cases (h : Holds s id record) (maxCount : Nat) {maxAgeDays : Nat} {now : Instant}
    (hcut : HasCutoff now maxAgeDays) :
    (record = none ∧ s.clean id maxCount maxAgeDays now = (s, .ok [])) ∨
    ∃ r bound t, record = some r ∧
      s.clean id maxCount maxAgeDays now = ({ s with tree := t },
        .ok ((History.partition r.history maxCount bound).removed.map (s.graphOf id))) ∧
      Rewritten
        ({ r with history := (History.partition r.history maxCount bound).kept } :
          ProjectRecord).repairLatest
        (History.partition r.history maxCount bound).removed s.tree t := by
  unfold clean
  rw [h.read]
  cases record with
  | none => exact .inl ⟨rfl, rfl⟩
  | some r =>
    obtain ⟨bound, -, hretain⟩ := History.retain_ok r.history maxCount hcut
    simp only [hretain]
    have hid : ({ r with history := (History.partition r.history maxCount bound).kept } :
        ProjectRecord).repairLatest.id = id := by
      rw [id_repairLatest]
      exact h.owner r rfl
    obtain ⟨t, ht, hw⟩ := rewrite_ok (History.partition r.history maxCount bound).removed
      ((History.partition r.history maxCount bound).removed.map (s.graphOf id)) (hid ▸ h.layout)
      fun e he => h.named e (History.mem_of_mem_removed he)
    rw [hid] at ht
    exact .inr ⟨r, bound, t, rfl, ht, hw⟩

end

/-! ## Saving -/

/-- What stands at a path after the directory with the snapshots was made and what was left of a
data file was removed. -/
def preparedAt (id name : String) (t : FileTree Stored) (p : Path) :
    Option (FileTree.Standing Stored) :=
  if p ∈ partialPaths id name then none
  else if p <+: projectDir id ++ [commitsDir] then some .directory else t.at? p

/-- A tree that was prepared in this way. -/
def Prepared (id name : String) (t t' : FileTree Stored) : Prop :=
  ∀ p, t'.at? p = preparedAt id name t p

/-- A tree after a snapshot came to its place as well. -/
def Placed (id name : String) (snapshot : Snapshot) (t t' : FileTree Stored) : Prop :=
  ∀ p, t'.at? p =
    if p = dataPath id (dataFileNamed name) then some (.file (.snapshot snapshot))
    else preparedAt id name t p

section
variable {id name : String} {snapshot : Snapshot} {t t' : FileTree Stored} {p : Path}

/-- What may be left of a data file is not in the directory of the project itself. -/
theorem beside_not_mem_partialPaths (id name entry : String) :
    projectDir id ++ [entry] ∉ partialPaths id name := fun hmem => by
  obtain ⟨entry', he⟩ := exists_commitPath_of_mem_partialPaths hmem
  have hlen := congrArg List.length he
  simp [commitPath] at hlen

/-! ### What stands where -/

/-- To prepare a tree adds directories only. -/
theorem preparedAt_cases {x : FileTree.Standing Stored} (h : preparedAt id name t p = some x) :
    t.at? p = some x ∨ (x = .directory ∧ p <+: projectDir id ++ [commitsDir]) := by
  unfold preparedAt at h
  split at h
  · cases h
  · split at h
    · rename_i hp
      cases h
      exact .inr ⟨rfl, hp⟩
    · exact .inl h

/-- Nothing is left of the data file. -/
theorem preparedAt_of_mem (h : p ∈ partialPaths id name) : preparedAt id name t p = none :=
  if_pos h

/-- Above the snapshots there are directories, and elsewhere things are as they were. -/
theorem preparedAt_of_not_mem (h : p ∉ partialPaths id name) :
    preparedAt id name t p =
      if p <+: projectDir id ++ [commitsDir] then some .directory else t.at? p :=
  if_neg h

/-- What is in the directory of the project beside the snapshots stays as it is. -/
theorem preparedAt_beside {entry : String} (h : entry ≠ commitsDir) :
    preparedAt id name t (projectDir id ++ [entry]) = t.at? (projectDir id ++ [entry]) := by
  rw [preparedAt_of_not_mem (beside_not_mem_partialPaths id name entry),
    if_neg (beside_not_above id h)]

/-- What is in the directory with the snapshots stays as it is, or is left of the data file. -/
theorem preparedAt_commitPath (id name entry : String) (t : FileTree Stored) :
    preparedAt id name t (commitPath id entry) =
      if commitPath id entry ∈ partialPaths id name then none else t.at? (commitPath id entry) := by
  rw [preparedAt, if_neg (commitPath_not_above id entry)]

/-- Data files stay as they are. -/
theorem preparedAt_dataPath (hname : IsPlain name) {commit file : String}
    (hf : NamedFor commit file) :
    preparedAt id name t (dataPath id file) = t.at? (dataPath id file) := by
  obtain ⟨other, hother, rfl⟩ := hf.exists_plain
  have hnot : dataPath id (dataFileNamed other) ∉ partialPaths id name :=
    dataPath_not_mem_partialPaths hother hname
  rw [dataPath_dataFileNamed id hother] at hnot ⊢
  rw [preparedAt_commitPath, if_neg hnot]

/-! ### Prepared trees -/

/-- To prepare a tree puts nothing where it must not be. -/
theorem Prepared.layout (h : Prepared id name t t') (hl : Layout id t) : Layout id t' := by
  refine hl.of_at? fun p x hx => ?_
  rw [h p] at hx
  rcases preparedAt_cases hx with hx | ⟨rfl, hp⟩
  · exact .inl hx
  · exact .inr hp

/-- To prepare a tree keeps the way to the data file clear. -/
theorem Prepared.clear (h : Prepared id name t t') (hname : IsPlain name) (hc : Clear id name t) :
    Clear id name t' := by
  refine hc.of_at? hname fun p x hx => ?_
  rw [h p] at hx
  exact (preparedAt_cases hx).imp_right .inl

/-- Preparing a data file leaves what stands at the record. -/
theorem Prepared.at?_recordPath (h : Prepared id name t t') :
    t'.at? (recordPath id) = t.at? (recordPath id) := by
  rw [h, recordPath, preparedAt_beside (by decide)]

/-- After a data file was prepared there is a directory for it. -/
theorem Prepared.at?_dir (h : Prepared id name t t') :
    t'.at? (projectDir id ++ [commitsDir]) = some .directory := by
  rw [h, preparedAt_of_not_mem (beside_not_mem_partialPaths id name _),
    if_pos (List.prefix_refl _)]

/-- Data files stay as they are while a tree is prepared. -/
theorem Prepared.at?_dataPath (h : Prepared id name t t') (hname : IsPlain name)
    {commit file : String} (hf : NamedFor commit file) :
    t'.at? (dataPath id file) = t.at? (dataPath id file) := by
  rw [h, preparedAt_dataPath hname hf]

/-! ### Placed snapshots -/

/-- To place a snapshot puts nothing where it must not be. -/
theorem Placed.layout (h : Placed id name snapshot t t') (hname : IsPlain name)
    (hl : Layout id t) : Layout id t' := by
  refine hl.of_at? fun p x hx => ?_
  rw [h p] at hx
  split at hx
  · rename_i hp
    cases hx
    exact .inr (.inr ⟨_, hp.trans (dataPath_dataFileNamed id hname)⟩)
  · rcases preparedAt_cases hx with hx | ⟨rfl, hp⟩
    · exact .inl hx
    · exact .inr hp

/-- The snapshot is in its place, and the other data files are as they were. -/
theorem Placed.at?_dataPath (h : Placed id name snapshot t t') (hname : IsPlain name)
    {commit file : String} (hf : NamedFor commit file) :
    t'.at? (dataPath id file) =
      if file = dataFileNamed name then some (.file (.snapshot snapshot))
      else t.at? (dataPath id file) := by
  rw [h, preparedAt_dataPath hname hf]
  obtain ⟨other, hother, rfl⟩ := hf.exists_plain
  have hsame : dataPath id (dataFileNamed other) = dataPath id (dataFileNamed name) ↔
      dataFileNamed other = dataFileNamed name :=
    ⟨fun hp => congrArg dataFileNamed (dataPath_dataFileNamed_inj hother hname hp),
      fun he => congrArg (dataPath id) he⟩
  simp only [hsame]

end

section
variable {s : Store} {id name : String} {new : NewGraph} {now : Instant} {progress : List Progress}

/-- A save first prepares the directory with the snapshots. -/
theorem prepare_ok (h : Clear id name s.tree) (hname : IsPlain name) :
    ∃ made t, s.tree.makeDirs (projectDir id ++ [commitsDir]) = .ok made ∧
      ({ s with tree := made } : Store).removePartial id (temporaryFile (dataFileNamed name)) =
        { s with tree := t } ∧
      Prepared id name s.tree t := by
  obtain ⟨made, hmade, hat⟩ := FileTree.makeDirs_ok h.above
  have hclear : Clear id name ({ s with tree := made } : Store).tree := by
    refine h.of_at? hname fun p x hx => ?_
    rw [hat p] at hx
    split at hx
    · rename_i hp
      cases hx
      exact .inr (.inl ⟨rfl, hp⟩)
    · exact .inl hx
  obtain ⟨t, ht, hat'⟩ := at?_removePartial hclear hname
  refine ⟨made, t, hmade, ht, fun p => ?_⟩
  rw [hat', hat, preparedAt]

/-- Placing a snapshot in a prepared tree. -/
theorem placePrepared_ok {snapshot : Snapshot} {t : FileTree Stored} (hname : IsPlain name)
    (hc : Clear id name t) (hp : Prepared id name t s.tree)
    (hsnap : snapshotOf new now = (progress, .ok snapshot)) :
    ∃ t', s.placeSnapshot id (dataFileNamed name) new now =
        ({ s with tree := t' }, progress, .ok ()) ∧ Placed id name snapshot t t' := by
  obtain ⟨t', ht', hat⟩ := placeSnapshot_ok (hp.clear hname hc) hname hp.at?_dir hsnap
  refine ⟨t', ht', fun p => ?_⟩
  rw [hat, hp p]
  have hmem := temporaryPath_mem_partialPaths id name
  by_cases htmp : p = temporaryPath id name
  · have hne : p ≠ dataPath id (dataFileNamed name) := fun he =>
      dataPath_not_mem_partialPaths hname hname (he ▸ htmp ▸ hmem)
    rw [if_pos htmp, if_neg hne, preparedAt_of_mem (htmp ▸ hmem)]
  · rw [if_neg htmp]

/-- After a failure a prepared tree is again as it was prepared. -/
theorem placePrepared_error {e : StoreError} {t : FileTree Stored} (hname : IsPlain name)
    (hc : Clear id name t) (hp : Prepared id name t s.tree)
    (hsnap : snapshotOf new now = (progress, .error e)) :
    ∃ left t', s.placeSnapshot id (dataFileNamed name) new now =
        ({ s with tree := left }, progress, .error (.store e)) ∧
      ({ s with tree := left } : Store).removePartial id (temporaryFile (dataFileNamed name)) =
        { s with tree := t' } ∧
      Prepared id name t t' := by
  have hprepared := hp.clear hname hc
  obtain ⟨left, hleft, hat⟩ := placeSnapshot_error hprepared hname hp.at?_dir hsnap
  have hclear : Clear id name ({ s with tree := left } : Store).tree := by
    refine hprepared.of_at? hname fun p x hx => ?_
    rw [hat p] at hx
    split at hx
    · rename_i hq
      cases hx
      exact .inr (.inr ⟨⟨_, rfl⟩, _, hq⟩)
    · exact .inl hx
  obtain ⟨t', ht', hat'⟩ := at?_removePartial hclear hname
  refine ⟨left, t', hleft, ht', fun p => ?_⟩
  rw [hat']
  by_cases hmem : p ∈ partialPaths id name
  · rw [if_pos hmem, preparedAt_of_mem hmem]
  · have hne : p ≠ temporaryPath id name := fun he =>
      hmem (he ▸ temporaryPath_mem_partialPaths id name)
    rw [if_neg hmem, hat p, if_neg hne, hp p]

end

/-! ## What a save records -/

/-- The record that a save goes on with belongs to the project that is saved. -/
theorem id_nextRecord {s : Store} {identity : ProjectIdentity} {old : Option ProjectRecord}
    (h : ∀ r ∈ old, r.id = identity.id) : (s.nextRecord identity old).id = identity.id := by
  cases old with
  | none => rfl
  | some r => exact h r rfl

/-- The record that a save goes on with has the history so far. -/
theorem history_nextRecord (s : Store) (identity : ProjectIdentity) (old : Option ProjectRecord) :
    (s.nextRecord identity old).history = historyOf old := by
  cases old with
  | none => rfl
  | some r => rfl

/-- The history with a new entry in place of those of the same commit. -/
def replaced (e : HistoryEntry) (history : List HistoryEntry) : List HistoryEntry :=
  History.newestFirst (e :: history.filter fun x => x.commit != e.commit)

/-- A new entry that is not older than the others comes first. -/
theorem replaced_of_newest {e : HistoryEntry} {history : List HistoryEntry}
    (h : History.Newest history) (hpast : ∀ x ∈ history, x.created.le e.created) :
    replaced e history = e :: history.filter fun x => x.commit != e.commit :=
  History.newestFirst_of_newest ((h.sublist List.filter_sublist).cons fun x hx =>
    hpast x (List.mem_filter.mp hx).1)

/-- The division of a history with a new entry by the bounds of the store. -/
def division (s : Store) (e : HistoryEntry) (history : List HistoryEntry)
    (bound : Option Instant) : History.Partition :=
  History.partition (replaced e history) (max s.retention.maxCount 1) bound

/-- The record with a new entry. -/
def entered (r : ProjectRecord) (e : HistoryEntry) (kept : List HistoryEntry) : ProjectRecord :=
  (({ r with history := kept } : ProjectRecord).pointAt (some e)).repairLatest

/-- A new entry that is kept is the latest. -/
theorem latest_entered (r : ProjectRecord) {e : HistoryEntry} {kept : List HistoryEntry}
    (h : e ∈ kept) : (entered r e kept).latest = some ⟨e.commit, e.dataFile⟩ := by
  have hvalid : (({ r with history := kept } : ProjectRecord).pointAt (some e)).latestIsValid :=
    List.any_eq_true.mpr ⟨e, h, beq_self_eq_true _⟩
  rw [entered, ProjectRecord.repairLatest, if_pos hvalid]
  rfl

section
variable {s : Store} {identity : ProjectIdentity} {record : Option ProjectRecord}
  {new : NewGraph} {name : String} {now : Instant} {progress : List Progress}

/-- A save of a graph that breaks a rule fails, in any tree in which the data file has a clear
place, and leaves it prepared. -/
theorem save_of_snapshotOf_error {e : StoreError} (hread : s.record? identity.id = .ok record)
    (hfile : dataFile? (s.nextRecord identity record) new.commit = some (dataFileNamed name))
    (hname : IsPlain name) (hc : Clear identity.id name s.tree)
    (hsnap : snapshotOf new now = (progress, .error e)) :
    ∃ t, Prepared identity.id name s.tree t ∧ s.save identity new now =
      ({ s with tree := t }, ⟨80, "Initializing call graph database"⟩ :: progress,
        .error (.store e)) := by
  obtain ⟨made, prepared, hmade, hprepared, hp⟩ := prepare_ok hc hname
  obtain ⟨left, t, hleft, ht, hp'⟩ :=
    placePrepared_error (s := { s with tree := prepared }) hname hc hp hsnap
  refine ⟨t, hp', ?_⟩
  unfold save
  rw [hread]
  simp only [hfile, hmade, hprepared, hleft, ht]

/-- A save of a graph that keeps the rules places its snapshot, in any tree in which the data file
has a clear place, and then enters the graph. -/
theorem save_of_snapshotOf_ok {snapshot : Snapshot} (hread : s.record? identity.id = .ok record)
    (hfile : dataFile? (s.nextRecord identity record) new.commit = some (dataFileNamed name))
    (hname : IsPlain name) (hc : Clear identity.id name s.tree)
    (hsnap : snapshotOf new now = (progress, .ok snapshot)) :
    ∃ placed, Placed identity.id name snapshot s.tree placed ∧ ∀ s' g,
      ({ s with tree := placed } : Store).enter (s.nextRecord identity record) identity.id
        (entryOf new (dataFileNamed name) now) now = (s', .ok g) →
      s.save identity new now = (s',
        ⟨80, "Initializing call graph database"⟩ :: progress ++ [⟨100, "Call graph saved"⟩],
        .ok g) := by
  obtain ⟨made, prepared, hmade, hprepared, hp⟩ := prepare_ok hc hname
  obtain ⟨placed, hplaced, hpl⟩ :=
    placePrepared_ok (s := { s with tree := prepared }) hname hc hp hsnap
  refine ⟨placed, hpl, fun s' g henter => ?_⟩
  unfold save
  rw [hread]
  simp only [hfile, hmade, hprepared, hplaced, henter]

/-- Entering a graph removes the data files beyond the bounds and then writes the record. -/
theorem enter_eq {r : ProjectRecord} {id : String} {e : HistoryEntry} {bound : Option Instant}
    (hcut : History.cutoff now s.retention.maxAgeDays = .ok bound) :
    s.enter r id e now =
      ((s.division e r.history bound).removed.foldl (fun s e => s.removeData id e) s).finish
        (entered r e (s.division e r.history bound).kept) (s.graphOf id e) := by
  have hretain : History.retain (replaced e r.history) (max s.retention.maxCount 1)
      s.retention.maxAgeDays now = .ok (s.division e r.history bound) := by
    rw [History.retain, hcut]
    rfl
  have hhistory : History.newestFirst (e :: (withoutCommit r e.commit).history) =
      replaced e r.history := rfl
  simp only [enter, hhistory, hretain]
  rfl

end

section
variable {s : Store} (identity : ProjectIdentity) {record : Option ProjectRecord}
  {new : NewGraph} {now : Instant} {progress : List Progress}

/-- A save of a graph that breaks a rule fails and changes no record and no data file. -/
theorem save_error {e : StoreError} (h : Holds s identity.id record) (hc : IsCommit new.commit)
    (hsnap : snapshotOf new now = (progress, .error e)) :
    ∃ name t steps, IsPlain name ∧ Prepared identity.id name s.tree t ∧
      s.save identity new now = ({ s with tree := t }, steps, .error (.store e)) := by
  have hnamed : ∀ e ∈ (s.nextRecord identity record).history, NamedFor e.commit e.dataFile := by
    rw [history_nextRecord]
    exact h.named
  obtain ⟨file, hfile, hnf, -⟩ := dataFile?_spec hc hnamed
  obtain ⟨name, hname, rfl⟩ := hnf.exists_plain
  obtain ⟨t, hp, hsave⟩ := save_of_snapshotOf_error h.read hfile hname (h.layout.clear hname) hsnap
  exact ⟨name, t, _, hname, hp, hsave⟩

/-- A save of a graph that keeps the rules puts its snapshot into a data file that no other commit
has, and then writes the record, without the data files beyond the bounds. -/
theorem save_ok {snapshot : Snapshot} (h : Holds s identity.id record) (hc : IsCommit new.commit)
    (hcut : HasCutoff now s.retention.maxAgeDays)
    (hsnap : snapshotOf new now = (progress, .ok snapshot)) :
    ∃ name bound placed t steps, IsPlain name ∧ NamedFor new.commit (dataFileNamed name) ∧
      (∀ e ∈ historyOf record, e.commit ≠ new.commit → e.dataFile ≠ dataFileNamed name) ∧
      (∀ c ∈ bound, c.le now) ∧
      Placed identity.id name snapshot s.tree placed ∧
      Rewritten
        (entered (s.nextRecord identity record) (entryOf new (dataFileNamed name) now)
          (s.division (entryOf new (dataFileNamed name) now) (historyOf record) bound).kept)
        (s.division (entryOf new (dataFileNamed name) now) (historyOf record) bound).removed
        placed t ∧
      s.save identity new now = ({ s with tree := t }, steps,
        .ok (s.graphOf identity.id (entryOf new (dataFileNamed name) now))) := by
  have hnamed : ∀ e ∈ (s.nextRecord identity record).history, NamedFor e.commit e.dataFile := by
    rw [history_nextRecord]
    exact h.named
  obtain ⟨file, hfile, hnf, hother⟩ := dataFile?_spec hc hnamed
  obtain ⟨name, hname, rfl⟩ := hnf.exists_plain
  obtain ⟨placed, hpl, hsave⟩ :=
    save_of_snapshotOf_ok h.read hfile hname (h.layout.clear hname) hsnap
  obtain ⟨bound, hbound⟩ := History.exists_cutoff hcut
  have hid : (entered (s.nextRecord identity record) (entryOf new (dataFileNamed name) now)
      (s.division (entryOf new (dataFileNamed name) now) (historyOf record) bound).kept).id =
        identity.id := by
    rw [entered, id_repairLatest]
    exact id_nextRecord h.owner
  have hgone : ∀ x ∈ (s.division (entryOf new (dataFileNamed name) now) (historyOf record)
      bound).removed, NamedFor x.commit x.dataFile := by
    intro x hx
    rcases List.mem_cons.mp ((History.newestFirst_perm _).mem_iff.mp
      (History.mem_of_mem_removed hx)) with rfl | hx
    · exact hnf
    · exact h.named x (List.mem_filter.mp hx).1
  have hl : Layout identity.id ({ s with tree := placed } : Store).tree := hpl.layout hname h.layout
  obtain ⟨t, ht, hw⟩ := rewrite_ok _ (s.graphOf identity.id (entryOf new (dataFileNamed name) now))
    (hid ▸ hl) hgone
  rw [hid] at ht
  refine ⟨name, bound, placed, t, _, hname, hnf, ?_, History.le_of_cutoff hbound, hpl, hw,
    hsave _ _ ?_⟩
  · rw [history_nextRecord] at hother
    exact hother
  · rw [enter_eq (s := { s with tree := placed }) hbound, history_nextRecord]
    exact ht

end

end CallImpact.Store
