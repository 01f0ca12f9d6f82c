import CallImpact.Proofs.Snapshot.Writing
import CallImpact.Proofs.Store.Revision

/-!
# Saves that are refused

A save is refused when two nodes of its graph share a number or an edge has an end that is no
node, and for no other reason (`save_refusal`). A save that is refused harms nothing (`Unharmed`):
the record, all snapshots, among them an earlier one of the same commit, and all other files are
as they were, and nothing is left of what was being written. What a save that was cut short left
behind has no influence on one that comes later.
-/

namespace CallImpact.Store

open History (cutoff HasCutoff)

/-! ## Graphs that are refused -/

/-- Whether a graph breaks a rule of snapshots: two of its nodes share a number, or an edge has an
end that is the number of no node. -/
def BreaksRules (graph : BuiltGraph) : Prop :=
  ¬ (graph.nodes.map (·.id)).Nodup ∨ ∃ e ∈ graph.edges,
    e.caller ∉ graph.nodes.map (·.id) ∨ e.callee ∉ graph.nodes.map (·.id)

/-- A snapshot can be written of exactly the graphs that break no rule. -/
theorem snapshotOf_error_iff (new : NewGraph) (now : Instant) :
    (∃ e, (snapshotOf new now).2 = .error e) ↔ BreaksRules new.graph := by
  have hnodes := Snapshot.writeNodes_error_iff (s := {}) new.graph.nodes List.Pairwise.nil
  rw [List.append_nil] at hnodes
  unfold snapshotOf BreaksRules
  rw [← hnodes]
  cases hwrite : ({} : Snapshot).writeNodes new.graph.nodes with
  | error e => exact iff_of_true ⟨_, rfl⟩ (.inl ⟨e, rfl⟩)
  | ok s =>
    have hids : ∀ id, id ∈ s.nodes.map (·.id) ↔ id ∈ new.graph.nodes.map (·.id) := fun id =>
      ((Snapshot.writeNodes_perm hwrite).map (·.id)).mem_iff.trans (by simp)
    have hedges := Snapshot.writeEdges_error_iff s new.graph.edges
    simp only [Snapshot.joinsNodes_iff, hids, not_and_or] at hedges
    rw [← hedges]
    dsimp only
    cases s.writeEdges new.graph.edges with
    | error e => exact iff_of_true ⟨_, rfl⟩ (.inr ⟨e, rfl⟩)
    | ok full => exact iff_of_false (by rintro ⟨e, ⟨⟩⟩) (by rintro (⟨e, ⟨⟩⟩ | ⟨e, ⟨⟩⟩))

/-! ## Nothing in the way of a save -/

/-- Whether nothing is in the way of a save of a commit: what is recorded about the project can be
read and written again, and whichever data file the commit gets has a clear place. -/
structure Savable (s : Store) (id : String) (record : Option ProjectRecord) (commit : String) :
    Prop where
  recorded : Recorded s id record
  clear : ∀ name ∈ [shortName commit, commit], Clear id name s.tree

section
variable {s : Store} {id commit : String} {record : Option ProjectRecord}

/-- Where a commit can be saved, the record can be written. -/
theorem Savable.writable (h : Savable s id record commit) : Writable id s.tree where
  above p content hp :=
    (h.clear _ List.mem_cons_self).above p content (hp.trans (List.prefix_append _ _))
  record := recordPath_ne_directory h.recorded.read
  temporary := h.recorded.free

/-- A plain commit gets a data file with a clear place, where both files that it may get have one.
-/
theorem exists_clear_name {t : FileTree Stored}
    (h : ∀ name ∈ [shortName commit, commit], Clear id name t) (hc : IsPlain commit)
    (r : ProjectRecord) : ∃ name, IsPlain name ∧ Clear id name t ∧
      dataFile? r commit = some (dataFileNamed name) := by
  rw [dataFile?_eq r hc]
  split
  · exact ⟨commit, hc, h _ (by simp), rfl⟩
  · exact ⟨shortName commit, hc.shortName, h _ (by simp), rfl⟩

end

/-! ## What becomes of the files -/

/-- Where what may be left of a data file is, when writing it was cut short. -/
def leftovers (id file : String) : List Path :=
  (partialFiles (temporaryFile file)).map (dataPath id)

/-- The place of what may be left of a data file ends in one of three letters. -/
theorem lastLetter?_of_mem_leftovers {id file : String} {p : Path} (h : p ∈ leftovers id file) :
    ∃ c ∈ ['p', 'l', 'm'], p.lastLetter? = some c := by
  have hending : ∀ ending : String, '/' ∉ ending.toList → 2 < ending.length →
      (dataPath id (temporaryFile file ++ ending)).lastLetter? = ending.toList.getLast? := by
    intro ending hslash hlong
    have hpath : dataPath id (temporaryFile file ++ ending) =
        pathOf (id ++ "/" ++ temporaryFile file ++ ending) := by
      rw [dataPath, ← String.append_assoc]
    rw [hpath, lastLetter?_pathOf_append _ hslash hlong]
  simp only [leftovers, partialFiles, List.map_cons, List.map_nil, List.mem_cons, List.not_mem_nil,
    or_false] at h
  rcases h with rfl | rfl | rfl | rfl
  · exact ⟨'p', by decide, lastLetter?_temporaryFile id file⟩
  · exact ⟨'l', by decide, hending "-wal" (by decide) (by decide)⟩
  · exact ⟨'m', by decide, hending "-shm" (by decide) (by decide)⟩
  · exact ⟨'l', by decide, hending "-journal" (by decide) (by decide)⟩

/-- No data file is in the place of what may be left of one. -/
theorem dataPath_not_mem_leftovers (id name file : String) :
    dataPath id (dataFileNamed name) ∉ leftovers id file := by
  intro hmem
  obtain ⟨c, hc, hlast⟩ := lastLetter?_of_mem_leftovers hmem
  refine ne_of_lastLetter? (lastLetter?_dataFileNamed id name) hlast ?_ rfl
  rintro rfl
  exact absurd hc (by decide)

/-- The record is not in the place of what may be left of a data file. -/
theorem recordPath_not_mem_leftovers (id file : String) : recordPath id ∉ leftovers id file := by
  intro hmem
  obtain ⟨c, hc, hlast⟩ := lastLetter?_of_mem_leftovers hmem
  refine ne_of_lastLetter? (lastLetter?_recordPath id) hlast ?_ rfl
  rintro rfl
  exact absurd hc (by decide)

section
variable {id name : String} {snapshot : Snapshot} {t t' : FileTree Stored}

/-- To prepare a place takes away the file that is there when it was left of a data file, and else
keeps it. -/
theorem content?_of_preparedAt (hc : Clear id name t) {p : Path}
    (h : t'.at? p = preparedAt id name t p) :
    t'.content? p = if p ∈ partialPaths id name then none else t.content? p := by
  split
  · rename_i hp
    rw [preparedAt_of_mem hp] at h
    exact FileTree.content?_of_at?_eq_none h
  · rename_i hp
    rw [preparedAt_of_not_mem hp] at h
    exact FileTree.content?_of_at?_above (fun content => hc.above p content) h

/-- Preparing a tree takes away what was left of a data file, and no other file. -/
theorem Prepared.content? (h : Prepared id name t t') (hc : Clear id name t) (p : Path) :
    t'.content? p = if p ∈ partialPaths id name then none else t.content? p :=
  content?_of_preparedAt hc (h p)

/-- Placing a snapshot changes its data file, takes away what was left of it, and changes no other
file. -/
theorem Placed.content? (h : Placed id name snapshot t t') (hc : Clear id name t) (p : Path) :
    t'.content? p = if p = dataPath id (dataFileNamed name) then some (.snapshot snapshot)
      else if p ∈ partialPaths id name then none else t.content? p := by
  have hat := h p
  split
  · rename_i hp
    rw [if_pos hp] at hat
    exact FileTree.content?_eq_some_iff.mpr hat
  · rename_i hp
    rw [if_neg hp] at hat
    exact content?_of_preparedAt hc hat

/-- What stands in the directory of a project beside the directory with the snapshots stays where a
snapshot is placed. -/
theorem Placed.at?_beside (h : Placed id name snapshot t t') (hname : IsPlain name) {entry : String}
    (hentry : entry ≠ commitsDir) :
    t'.at? (projectDir id ++ [entry]) = t.at? (projectDir id ++ [entry]) := by
  have hdata : projectDir id ++ [entry] ≠ dataPath id (dataFileNamed name) := fun he => by
    rw [dataPath_dataFileNamed id hname] at he
    have hlen := congrArg List.length he
    simp [commitPath] at hlen
  rw [h, if_neg hdata, preparedAt_beside hentry]

/-- After a data file was placed, the record can still be written. -/
theorem Placed.writable (h : Placed id name snapshot t t') (hname : IsPlain name)
    (hc : Clear id name t) (hw : Writable id t) : Writable id t' where
  above p content hp hx := by
    have hfile := FileTree.content?_eq_some_iff.mpr hx
    have habove := hp.trans (List.prefix_append _ [commitsDir])
    have hdata : p ≠ dataPath id (dataFileNamed name) := fun he => by
      rw [he, dataPath_dataFileNamed id hname] at habove
      exact commitPath_not_above id _ habove
    rw [h.content? hc, if_neg hdata] at hfile
    split at hfile
    · cases hfile
    · exact hw.above p content hp (FileTree.content?_eq_some_iff.mp hfile)
  record := by
    rw [recordPath, h.at?_beside hname (by decide)]
    exact hw.record
  temporary := by
    rw [temporaryRecordPath, h.at?_beside hname (by decide)]
    exact hw.temporary

end

/-! ## The outcome of a save -/

section
variable {s : Store} {identity : ProjectIdentity} {record : Option ProjectRecord} {new : NewGraph}
  {name : String} {now : Instant} {bound : Option Instant} {progress : List Progress}

/-- A graph that breaks a rule is refused, and what may have been left of its data file is gone. -/
theorem Savable.save_refused {e : StoreError} (h : Savable s identity.id record new.commit)
    (hfile : dataFile? (s.nextRecord identity record) new.commit = some (dataFileNamed name))
    (hname : IsPlain name) (hclear : Clear identity.id name s.tree)
    (hsnap : snapshotOf new now = (progress, .error e)) :
    ∃ t, s.save identity new now = ({ s with tree := t },
        ⟨80, "Initializing call graph database"⟩ :: progress, .error (.store e)) ∧
      t.at? (recordPath identity.id) = s.tree.at? (recordPath identity.id) ∧
      ∀ p, t.content? p = if p ∈ leftovers identity.id (dataFileNamed name) then none
        else s.tree.content? p := by
  obtain ⟨t, hp, hsave⟩ := save_of_snapshotOf_error h.recorded.read hfile hname hclear hsnap
  refine ⟨t, hsave, hp.at?_recordPath, fun p => ?_⟩
  rw [leftovers, map_dataPath_partialFiles identity.id hname]
  exact hp.content? hclear p

/-- A graph that breaks no rule is saved: its snapshot is placed, and then the record is revised. -/
theorem Savable.save_taken {snapshot : Snapshot} (h : Savable s identity.id record new.commit)
    (hfile : dataFile? (s.nextRecord identity record) new.commit = some (dataFileNamed name))
    (hname : IsPlain name) (hclear : Clear identity.id name s.tree)
    (hcut : cutoff now s.retention.maxAgeDays = .ok bound)
    (hsnap : snapshotOf new now = (progress, .ok snapshot)) :
    ∃ placed t, s.save identity new now = ({ s with tree := t },
        ⟨80, "Initializing call graph database"⟩ :: progress ++ [⟨100, "Call graph saved"⟩],
        .ok (s.graphOf identity.id (entryOf new (dataFileNamed name) now))) ∧
      (∀ p, placed.content? p =
        if p = dataPath identity.id (dataFileNamed name) then some (.snapshot snapshot)
        else if p ∈ leftovers identity.id (dataFileNamed name) then none else s.tree.content? p) ∧
      Revised
        (entered (s.nextRecord identity record) (entryOf new (dataFileNamed name) now)
          (s.division (entryOf new (dataFileNamed name) now) (historyOf record) bound).kept)
        (s.division (entryOf new (dataFileNamed name) now) (historyOf record) bound).removed
        placed t := by
  obtain ⟨placed, hplaced, hsave⟩ := save_of_snapshotOf_ok h.recorded.read hfile hname hclear hsnap
  have hid : (entered (s.nextRecord identity record) (entryOf new (dataFileNamed name) now)
      (s.division (entryOf new (dataFileNamed name) now) (historyOf record) bound).kept).id =
        identity.id := by
    rw [entered, id_repairLatest]
    exact id_nextRecord h.recorded.owner
  have hwritable := hplaced.writable hname hclear h.writable
  obtain ⟨t, ht, hrevised⟩ := revise_ok (s := { s with tree := placed })
    (s.division (entryOf new (dataFileNamed name) now) (historyOf record) bound).removed
    (s.graphOf identity.id (entryOf new (dataFileNamed name) now)) (hid ▸ hwritable)
  rw [hid] at ht
  refine ⟨placed, t, hsave _ _ ?_, fun p => ?_, hrevised⟩
  · rw [enter_eq (s := { s with tree := placed }) hcut, history_nextRecord]
    exact ht
  · rw [leftovers, map_dataPath_partialFiles identity.id hname]
    exact hplaced.content? hclear p

end

/-! ## What does not change -/

/-- What is read from a data file depends only on the file there. -/
theorem openSnapshot_congr {s : Store} {t : FileTree Stored} {id file : String}
    (h : t.content? (dataPath id file) = s.tree.content? (dataPath id file)) :
    ({ s with tree := t } : Store).openSnapshot id file = s.openSnapshot id file := by
  unfold FileTree.content? at h
  unfold openSnapshot
  dsimp only
  generalize t.get? (dataPath id file) = found at h ⊢
  generalize s.tree.get? (dataPath id file) = before at h ⊢
  rcases found with _ | ⟨new⟩ | ⟨new⟩ <;> rcases before with _ | ⟨old⟩ | ⟨old⟩ <;> cases h <;> rfl

/-- Whether a store is as it was before, but for what was left of a data file, of which nothing is
left. -/
structure Unharmed (s s' : Store) (id : String) (left : List Path) : Prop where
  record : s'.record? id = s.record? id
  latest : s'.latest id = s.latest id
  snapshots : ∀ name, s'.openSnapshot id (dataFileNamed name) =
    s.openSnapshot id (dataFileNamed name)
  files : ∀ p ∉ left, s'.tree.content? p = s.tree.content? p
  nothing_left : ∀ p ∈ left, s'.tree.content? p = none

/-- A store is unharmed when its record is untouched and no content is missing but what was left of
a data file. -/
theorem unharmed_of_content? {s : Store} {t : FileTree Stored} {id file : String}
    (hrecord : t.at? (recordPath id) = s.tree.at? (recordPath id))
    (hfiles : ∀ p, t.content? p = if p ∈ leftovers id file then none else s.tree.content? p) :
    Unharmed s { s with tree := t } id (leftovers id file) where
  record := record?_congr hrecord
  latest := by
    have hread : ({ s with tree := t } : Store).record? id = s.record? id := record?_congr hrecord
    rw [latest, hread]
    rfl
  snapshots name := openSnapshot_congr <| by
    rw [hfiles, if_neg (dataPath_not_mem_leftovers id name file)]
  files p hp := by rw [hfiles, if_neg hp]
  nothing_left p hp := by rw [hfiles, if_pos hp]

section
variable {s : Store} {identity : ProjectIdentity} {record stale : Option ProjectRecord}
  {new : NewGraph} {name : String} {now : Instant} {t : FileTree Stored}

/-- What is recorded does not depend on what was left of a data file. -/
theorem Savable.record_eq {id commit : String} (h : Savable s id record commit)
    (hstale : Savable { s with tree := t } id stale commit)
    (hsame : ∀ p ∉ leftovers id (dataFileNamed name), t.content? p = s.tree.content? p) :
    stale = record := by
  have hat := FileTree.at?_congr (hsame _ (recordPath_not_mem_leftovers id _)) h.writable.record
    hstale.writable.record
  have hread := hstale.recorded.read
  have hequal : ({ s with tree := t } : Store).record? id = s.record? id := record?_congr hat
  exact Except.ok.inj (hread.symm.trans (hequal.trans h.recorded.read))

/-- The outcome of a save does not depend on what was left of the data file that it writes. -/
theorem Savable.save_eq (h : Savable s identity.id record new.commit)
    (hstale : Savable { s with tree := t } identity.id stale new.commit)
    (hcommit : IsPlain new.commit)
    (hcut : HasCutoff now s.retention.maxAgeDays) (hname : IsPlain name)
    (hfile : dataFile? (s.nextRecord identity record) new.commit = some (dataFileNamed name))
    (hsame : ∀ p ∉ leftovers identity.id (dataFileNamed name), t.content? p = s.tree.content? p) :
    (({ s with tree := t } : Store).save identity new now).2 = (s.save identity new now).2 ∧
    ∀ p, (({ s with tree := t } : Store).save identity new now).1.tree.content? p =
      (s.save identity new now).1.tree.content? p := by
  obtain rfl := h.record_eq hstale hsame
  obtain ⟨bound, hbound⟩ := History.exists_cutoff hcut
  have hclear : ∀ {s' : Store}, Savable s' identity.id stale new.commit →
      s'.nextRecord identity stale = s.nextRecord identity stale →
      Clear identity.id name s'.tree := by
    intro s' h' hnext
    obtain ⟨name', -, hclear', hfile'⟩ := exists_clear_name h'.clear hcommit
      (s'.nextRecord identity stale)
    rw [hnext, hfile] at hfile'
    rwa [dataFileNamed_inj (Option.some.inj hfile')]
  rcases hsnap : snapshotOf new now with ⟨progress, e | snapshot⟩
  · obtain ⟨left, hsave, -, hfiles⟩ := h.save_refused hfile hname (hclear h rfl) hsnap
    obtain ⟨left', hsave', -, hfiles'⟩ := hstale.save_refused hfile hname (hclear hstale rfl) hsnap
    rw [hsave, hsave']
    refine ⟨rfl, fun p => ?_⟩
    dsimp only
    rw [hfiles, hfiles']
    split
    · rfl
    · rename_i hp
      exact hsame p hp
  · obtain ⟨placed, full, hsave, hplaced, hfull⟩ :=
      h.save_taken hfile hname (hclear h rfl) hbound hsnap
    obtain ⟨placed', full', hsave', hplaced', hfull'⟩ :=
      hstale.save_taken hfile hname (hclear hstale rfl) hbound hsnap
    have hequal : ∀ p, placed'.content? p = placed.content? p := by
      intro p
      rw [hplaced, hplaced']
      split
      · rfl
      · split
        · rfl
        · rename_i hp
          exact hsame p hp
    rw [hsave, hsave']
    refine ⟨rfl, fun p => ?_⟩
    dsimp only
    rw [hfull.content, hfull'.content, hequal]
    rfl

/-- A save fails exactly when the graph breaks a rule of snapshots. It then leaves the record, the
latest graph, all snapshots and all other files as they were, and nothing of what was being
written. What an earlier save that was cut short left of the same data file changes neither the
outcome nor what is stored afterwards. -/
theorem save_refusal (h : Savable s identity.id record new.commit) (hcommit : IsPlain new.commit)
    (hcut : HasCutoff now s.retention.maxAgeDays) :
    ∃ file, dataFile? (s.nextRecord identity record) new.commit = some file ∧
      ((∃ e, (s.save identity new now).2.2 = .error e) ↔ BreaksRules new.graph) ∧
      ((∃ e, (s.save identity new now).2.2 = .error e) →
        Unharmed s (s.save identity new now).1 identity.id (leftovers identity.id file)) ∧
      ∀ t stale, Savable { s with tree := t } identity.id stale new.commit →
        (∀ p ∉ leftovers identity.id file, t.content? p = s.tree.content? p) →
        (({ s with tree := t } : Store).save identity new now).2 = (s.save identity new now).2 ∧
        ∀ p, (({ s with tree := t } : Store).save identity new now).1.tree.content? p =
          (s.save identity new now).1.tree.content? p := by
  obtain ⟨name, hname, hclear, hfile⟩ := exists_clear_name h.clear hcommit
    (s.nextRecord identity record)
  obtain ⟨bound, hbound⟩ := History.exists_cutoff hcut
  have hcrash := fun t stale (hstale : Savable { s with tree := t } identity.id stale new.commit) =>
    h.save_eq hstale hcommit hcut hname hfile
  refine ⟨dataFileNamed name, hfile, ?_⟩
  rw [← snapshotOf_error_iff new now]
  rcases hsnap : snapshotOf new now with ⟨progress, e | snapshot⟩
  · obtain ⟨left, hsave, hrecord, hfiles⟩ := h.save_refused hfile hname hclear hsnap
    refine ⟨?_, fun _ => ?_, hcrash⟩
    · rw [hsave]
      exact iff_of_true ⟨_, rfl⟩ ⟨e, rfl⟩
    · rw [hsave]
      exact unharmed_of_content? hrecord hfiles
  · obtain ⟨placed, full, hsave, -⟩ := h.save_taken hfile hname hclear hbound hsnap
    have htaken : ¬ ∃ e, (s.save identity new now).2.2 = .error e := by
      rw [hsave]
      rintro ⟨e, ⟨⟩⟩
    exact ⟨iff_of_false htaken (by rintro ⟨e, ⟨⟩⟩), fun hfails => absurd hfails htaken, hcrash⟩

end

/-! ## A commit that is saved again -/

/-- Nothing is in the way where a directory for snapshots holds files alone. -/
theorem savable_storeWith {r : ProjectRecord} {files : List (String × FileTree Stored)}
    {commit : String} (hid : r.id = "p1") (hn : History.Newest r.history) (hc : IsPlain commit)
    (hfiles : ∀ f ∈ files, f.2.isDir = false) :
    Savable (storeWith r files) "p1" (some r) commit where
  recorded := recorded_storeWith files hid hn
  clear := by
    have hdir : (storeWith r files).tree.at? (projectDir "p1" ++ [commitsDir]) = some .directory :=
      rfl
    have hentry : ∀ entry,
        (storeWith r files).tree.at? (commitPath "p1" entry) ≠ some .directory := by
      intro entry hx
      have hat : (storeWith r files).tree.at? (commitPath "p1" entry) =
          (FileTree.dir files).at? [entry] := rfl
      rw [hat, FileTree.at?_dir_cons, Option.bind_eq_some_iff] at hx
      obtain ⟨sub, hlookup, hsub⟩ := hx
      obtain ⟨before, after, rfl, -⟩ := List.lookup_eq_some_iff.mp hlookup
      have hfile := hfiles (entry, sub) (by simp)
      cases sub with
      | file content => cases hsub
      | dir entries => cases hfile
    have hclear : ∀ name, IsPlain name → Clear "p1" name (storeWith r files).tree := by
      intro name hname
      refine ⟨fun p content hp hx => ?_, ?_, fun p hp => ?_⟩
      · by_cases heq : p = projectDir "p1" ++ [commitsDir]
        · rw [heq, hdir] at hx
          cases hx
        · rw [FileTree.at?_eq_directory_of_above hp heq hdir] at hx
          cases hx
      · rw [dataPath_dataFileNamed "p1" hname]
        exact hentry _
      · obtain ⟨entry, rfl⟩ := exists_commitPath_of_mem_partialPaths hp
        exact hentry entry
    intro name hmem
    rcases List.mem_pair.mp hmem with rfl | rfl
    · exact hclear _ hc.shortName
    · exact hclear _ hc

/-- A snapshot of a commit that was saved before. -/
def earlierSnapshot : Snapshot :=
  ({} : Snapshot).setText "commit" "a1"

/-- What is recorded about that commit. -/
def earlierRecord : ProjectRecord :=
  { id := "p1", name := "app", history := [entryAt "a1" 100] }

/-- A data directory with that record and snapshot, and with what was left of another save. -/
def interruptedStore (left : List (String × FileTree Stored)) : Store :=
  storeWith earlierRecord (("a1.db", .file (.snapshot earlierSnapshot)) :: left)

/-- A graph of the same commit in which two nodes share a number. -/
def clashingGraph : NewGraph :=
  { (default : NewGraph) with
    commit := "a1", graph := { (default : BuiltGraph) with nodes := [default, default] } }

/-- The project that is recorded. -/
def interruptedProject : ProjectIdentity :=
  ⟨"p1", "app", none⟩

/-- The graph is refused, the earlier snapshot is still there, and what was left is gone. Without
what was left the outcome is the same. -/
theorem save_refusal_interruptedStore :
    ∃ e s', s' = ((interruptedStore [("a1.db.tmp", .file .binary)]).save interruptedProject
        clashingGraph ⟨200, 0⟩).1 ∧
      ((interruptedStore [("a1.db.tmp", .file .binary)]).save interruptedProject clashingGraph
        ⟨200, 0⟩).2.2 = .error e ∧
      ((interruptedStore []).save interruptedProject clashingGraph ⟨200, 0⟩).2.2 = .error e ∧
      s'.openSnapshot "p1" (dataFileNamed "a1") = .ok earlierSnapshot ∧
      s'.tree.content? ["p1", commitsDir, "a1.db.tmp"] = none := by
  have hplain : IsPlain clashingGraph.commit := by decide +kernel
  have hsavable : ∀ left : List (String × FileTree Stored), (∀ f ∈ left, f.2.isDir = false) →
      Savable (interruptedStore left) interruptedProject.id (some earlierRecord)
        clashingGraph.commit := by
    intro left hleft
    refine savable_storeWith rfl (List.pairwise_singleton _ _) hplain fun f hf => ?_
    rcases List.mem_cons.mp hf with rfl | hf
    · rfl
    · exact hleft f hf
  have hcut : HasCutoff ⟨200, 0⟩
      (interruptedStore [("a1.db.tmp", .file .binary)]).retention.maxAgeDays := by decide
  obtain ⟨file, hfile, hiff, hharm, hsame⟩ := save_refusal
    (hsavable [("a1.db.tmp", .file .binary)] (by simp [FileTree.isDir])) hplain hcut
  have hchosen : dataFile? ((interruptedStore [("a1.db.tmp", .file .binary)]).nextRecord
      interruptedProject (some earlierRecord)) clashingGraph.commit =
      some (dataFileNamed "a1") := by
    decide +kernel
  obtain rfl : dataFileNamed "a1" = file := Option.some.inj (hchosen.symm.trans hfile)
  obtain ⟨e, he⟩ := hiff.mpr (.inl (by decide))
  have hunharmed := hharm ⟨e, he⟩
  have hwithout : (interruptedStore []).tree = (interruptedStore
      [("a1.db.tmp", .file .binary)]).tree.removeFile ["p1", commitsDir, "a1.db.tmp"] := by
    rfl
  obtain ⟨hresult, -⟩ := hsame (interruptedStore []).tree _ (hsavable [] (by simp)) fun p hp => by
    have hne : p ≠ ["p1", commitsDir, "a1.db.tmp"] := fun heq => hp (heq ▸ by decide +kernel)
    cases p with
    | nil => rfl
    | cons name rest => rw [hwithout, FileTree.content?_removeFile _ (by simp), if_neg hne]
  refine ⟨e, _, rfl, he, ?_, ?_, ?_⟩
  · exact (congrArg Prod.snd hresult).trans he
  · exact (hunharmed.snapshots "a1").trans rfl
  · exact hunharmed.nothing_left _ (by decide +kernel)

end CallImpact.Store
