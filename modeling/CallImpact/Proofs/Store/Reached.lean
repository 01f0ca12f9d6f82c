import CallImpact.Proofs.Store.Projects
import CallImpact.Proofs.Store.Refusal
import CallImpact.Proofs.Store.Survival

/-!
# Stores that operations have left

A store that operations have left (`Reached`) may have seen any projects, commands that failed,
and other bounds on histories than those it has now. What a later save takes from the past is a
record alone, and of that it needs little: that it is the record of this place, that the data
files of its entries are named for their commits, and that no entry is later than the present
(`Regular`). Every operation preserves this of all records in the data directory (`Orderly`), also
where it stops half way, since all else that it writes ends in another letter than a record does.

Where nothing is in the way of the files that are written (`IsOpen`), a graph that keeps the rules
of a snapshot is then saved, and is the latest one afterwards (`Reached.save_latest`).
-/

namespace CallImpact.Store

open FileTree (AllFiles)
open History (HasCutoff)

/-! ## Records that operations write -/

/-- Whether the data files of a history are named for their commits, and no entry is later than an
instant. -/
structure Regular (history : List HistoryEntry) (now : Instant) : Prop where
  named : ∀ e ∈ history, NamedFor e.commit e.dataFile
  past : ∀ e ∈ history, e.created.le now

section
variable {history fewer : List HistoryEntry} {now : Instant} {e : HistoryEntry}

/-- Fewer entries of a regular history are regular. -/
theorem Regular.subset (h : Regular history now) (hsub : fewer ⊆ history) : Regular fewer now :=
  ⟨fun e he => h.named e (hsub he), fun e he => h.past e (hsub he)⟩

/-- A history that is regular at an instant is so later on. -/
theorem Regular.later (h : Regular history now) {later : Instant} (hle : now.le later) :
    Regular history later :=
  ⟨h.named, fun e he => Instant.le_trans (h.past e he) hle⟩

/-- A history stays regular with a regular entry in place of those of its commit. -/
theorem Regular.replaced (h : Regular history now) (hnamed : NamedFor e.commit e.dataFile)
    (hpast : e.created.le now) : Regular (replaced e history) now := by
  refine ⟨fun x hx => ?_, fun x hx => ?_⟩
  · rcases mem_replaced.mp hx with rfl | ⟨hx, -⟩
    · exact hnamed
    · exact h.named x hx
  · rcases mem_replaced.mp hx with rfl | ⟨hx, -⟩
    · exact hpast
    · exact h.past x hx

end

/-- Whether a file may stand at a path: where a record is kept, only a record of that place with a
regular history. -/
def MayStand (now : Instant) (p : Path) (content : Stored) : Prop :=
  ∀ id, p = recordPath id →
    ∃ r, content = .record r ∧ projectDir r.id = projectDir id ∧ Regular r.history now

/-- Whether all records of a store are in their places and regular. -/
def Orderly (now : Instant) (s : Store) : Prop :=
  AllFiles (MayStand now) s.tree

section
variable {now : Instant} {p : Path} {r : ProjectRecord}

/-- Anything may stand where no record is kept. -/
theorem mayStand_of_lastLetter? {c : Char} (hp : p.lastLetter? = some c) (hc : c ≠ 'n')
    (content : Stored) : MayStand now p content :=
  fun id heq => absurd heq (ne_of_lastLetter? hp (lastLetter?_recordPath id) hc)

/-- A record with a regular history may stand in its place. -/
theorem mayStand_record (h : Regular r.history now) :
    MayStand now (recordPath r.id) (.record r) := by
  intro id heq
  rw [recordPath, recordPath, List.append_cancel_right_eq] at heq
  exact ⟨r, rfl, heq, h⟩

end

namespace Orderly

variable {s : Store} {id : String} {now : Instant} {record : Option ProjectRecord}
  {r : ProjectRecord}

/-- A store that is orderly at an instant is so later on. -/
theorem later (h : Orderly now s) {later : Instant} (hle : now.le later) : Orderly later s := by
  intro p content hp id heq
  obtain ⟨r, hr, hdir, hregular⟩ := h p content hp id heq
  exact ⟨r, hr, hdir, hregular.later hle⟩

/-! ## Reading -/

/-- Where no directory is in the place of a record, one can be read, or there is none. -/
theorem exists_record? (h : Orderly now s)
    (hdir : s.tree.at? (recordPath id) ≠ some .directory) :
    ∃ record, s.record? id = .ok record := by
  cases hx : s.tree.at? (recordPath id) with
  | none => exact ⟨none, record?_of_at?_none hx⟩
  | some x =>
    cases x with
    | directory => exact absurd hx hdir
    | file content =>
      obtain ⟨r, rfl, -, -⟩ := h _ _ (FileTree.content?_eq_some_iff.mpr hx) id rfl
      exact ⟨_, record?_of_at? hx⟩

/-- A record that is read is one of its place and regular. -/
theorem of_record? (h : Orderly now s) (hread : s.record? id = .ok (some r)) :
    projectDir r.id = projectDir id ∧ Regular r.history now := by
  obtain ⟨content, hat⟩ := exists_file_of_record? hread
  obtain ⟨old, rfl, hdir, hregular⟩ := h _ _ (FileTree.content?_eq_some_iff.mpr hat) id rfl
  rw [record?_of_at? hat] at hread
  cases hread
  exact ⟨hdir, hregular.subset (History.newestFirst_perm _).subset⟩

/-- The histories of an orderly store are regular. -/
theorem regular (h : Orderly now s) (hread : s.record? id = .ok record) :
    Regular (historyOf record) now := by
  cases record with
  | none => exact ⟨by simp [historyOf], by simp [historyOf]⟩
  | some r => exact (h.of_record? hread).2

/-! ## Writing -/

/-- A record with a regular history is written without harm to the others. -/
theorem finish {α : Type} (h : Orderly now s) (hr : Regular r.history now) (a : α) :
    Orderly now (s.finish r a).1 := by
  unfold Store.finish
  split
  · rename_i s' hwrite
    simp only [writeRecord] at hwrite
    split at hwrite
    · rename_i tree hall
      cases hwrite
      obtain ⟨made, hmade, hall⟩ := of_bind_ok hall
      obtain ⟨written, hwritten, hmoved⟩ := of_bind_ok hall
      have htmp : MayStand now (temporaryRecordPath r.id) (.record r) :=
        mayStand_of_lastLetter? (lastLetter?_temporaryRecordPath r.id) (by decide) _
      refine ((AllFiles.makeDirs h hmade).writeFile htmp hwritten).rename (fun content hc => ?_)
        hmoved
      -- what is moved is the record that was just written
      rw [FileTree.content?_of_writeFile hwritten, if_pos rfl] at hc
      cases hc
      exact mayStand_record hr
    · cases hwrite
  · exact h

/-- Removing data files leaves a store orderly. -/
theorem removeData (h : Orderly now s) (id : String) (es : List HistoryEntry) :
    Orderly now (es.foldl (fun s e => s.removeData id e) s) := by
  rw [foldl_removeData]
  exact AllFiles.removeFiles h _

/-- Clearing a data file leaves a store orderly. -/
theorem removePartial (h : Orderly now s) (id file : String) :
    Orderly now (s.removePartial id file) := by
  unfold Orderly Store.removePartial
  rw [← List.foldl_map]
  exact AllFiles.removeFiles h _

/-- Whatever comes of it, placing a snapshot writes no record. -/
theorem placeSnapshot (h : Orderly now s) (id name : String) (new : NewGraph) :
    Orderly now (s.placeSnapshot id (dataFileNamed name) new now).1 := by
  have htmp : ∀ content, MayStand now (dataPath id (temporaryFile (dataFileNamed name))) content :=
    mayStand_of_lastLetter? (lastLetter?_temporaryFile id (dataFileNamed name)) (by decide)
  have hdata : ∀ content, MayStand now (dataPath id (dataFileNamed name)) content :=
    mayStand_of_lastLetter? (lastLetter?_dataFileNamed id name) (by decide)
  simp only [Store.placeSnapshot]
  split
  · exact h
  · rename_i created hcreated
    have hempty := AllFiles.writeFile h (htmp _) hcreated
    split
    · exact hempty
    · rename_i snapshot hsnap
      have hfull := hempty.writeFile (htmp (.snapshot snapshot))
        (FileTree.writeFile_of_writeFile hcreated (.snapshot snapshot))
      split
      · rename_i moved hmoved
        exact hfull.rename (fun content _ => hdata content) hmoved
      · exact hfull

/-- Entering a regular entry into a regular history writes a regular record. -/
theorem enter (h : Orderly now s) (hr : Regular r.history now) (id : String) {e : HistoryEntry}
    (hnamed : NamedFor e.commit e.dataFile) (hpast : e.created.le now) :
    Orderly now (s.enter r id e now).1 := by
  unfold Store.enter
  dsimp only
  split
  · exact h
  · rename_i p hretain
    refine (h.removeData id p.removed).finish ?_ _
    rw [history_repairLatest]
    exact (hr.replaced hnamed hpast).subset (History.kept_subset_of_retain hretain)

/-! ## One step -/

/-- Saving a commit leaves a store orderly. -/
theorem save (h : Orderly now s) (identity : ProjectIdentity) {new : NewGraph}
    (hc : IsCommit new.commit) : Orderly now (s.save identity new now).1 := by
  unfold Store.save
  cases hread : s.record? identity.id with
  | error e => exact h
  | ok record =>
    have hregular : Regular (s.nextRecord identity record).history now := by
      rw [history_nextRecord]
      exact h.regular hread
    obtain ⟨file, hfile, hnamed, -⟩ := dataFile?_spec hc hregular.named
    obtain ⟨name, -, rfl⟩ := hnamed.exists_plain
    simp only [hfile]
    cases hmade : s.tree.makeDirs (projectDir identity.id ++ [commitsDir]) with
    | error e => exact h
    | ok tree =>
      have hprepared : Orderly now (({ s with tree } : Store).removePartial identity.id
          (temporaryFile (dataFileNamed name))) :=
        removePartial (s := { s with tree }) (AllFiles.makeDirs h hmade) _ _
      have hplaced := hprepared.placeSnapshot identity.id name new
      dsimp only
      split
      · rename_i hplace
        rw [hplace] at hplaced
        exact hplaced.removePartial _ _
      · rename_i hplace
        rw [hplace] at hplaced
        have hentered := hplaced.enter hregular identity.id
          (e := entryOf new (dataFileNamed name) now)
          hnamed (Instant.le_refl now)
        split
        · rename_i henter
          rw [henter] at hentered
          exact hentered
        · rename_i henter
          rw [henter] at hentered
          exact hentered

/-- Setting the latest graph leaves a store orderly. -/
theorem setLatest (h : Orderly now s) (id reference : String) :
    Orderly now (s.setLatest id reference).1 := by
  unfold Store.setLatest
  split
  · exact h
  · rename_i r e hsel
    exact h.finish (r := r.pointAt (some e)) (h.of_record? (record?_of_select hsel)).2 _

/-- Deleting a graph leaves a store orderly. -/
theorem delete (h : Orderly now s) (id reference : String) :
    Orderly now (s.delete id reference).1 := by
  unfold Store.delete
  split
  · exact h
  · rename_i r e hsel
    refine (h.removeData id [e]).finish ?_ _
    rw [history_repairLatest]
    exact (h.of_record? (record?_of_select hsel)).2.subset List.filter_sublist.subset

/-- Cleaning leaves a store orderly. -/
theorem clean (h : Orderly now s) (id : String) (maxCount maxAgeDays : Nat) :
    Orderly now (s.clean id maxCount maxAgeDays now).1 := by
  unfold Store.clean
  split
  · exact h
  · exact h
  · rename_i r hread
    split
    · exact h
    · rename_i p hretain
      refine (h.removeData id p.removed).finish ?_ _
      rw [history_repairLatest]
      exact (h.of_record? hread).2.subset (History.kept_subset_of_retain hretain)

end Orderly

/-- Whether the commit of a step has the form of commits, if it saves one. -/
def Step.IsFormed (step : Step) : Prop :=
  match step.change with
  | .save _ _ new => IsCommit new.commit
  | .setLatest _ => True
  | .delete _ => True
  | .clean _ _ => True

/-- Every step on a project keeps a store orderly, also one that fails. -/
theorem Orderly.stepOn {s : Store} {step : Step} (h : Orderly step.now s) (id : String)
    (hstep : step.IsFormed) : Orderly step.now (stepOn s (id, step)) := by
  obtain ⟨change, now⟩ := step
  cases change with
  | save name remote new =>
    have hsaved : Orderly now (s.save ⟨id, name, remote⟩ new now).1 :=
      Orderly.save h ⟨id, name, remote⟩ hstep
    simp only [Store.stepOn, Run.step]
    split
    · rename_i hout
      rw [hout] at hsaved
      exact hsaved
    · rename_i hout
      rw [hout] at hsaved
      exact hsaved
  | setLatest reference => exact Orderly.setLatest h id reference
  | delete reference => exact Orderly.delete h id reference
  | clean maxCount maxAgeDays => exact Orderly.clean h id maxCount maxAgeDays

/-! ## Whole runs -/

/-- The stores that operations leave, and an instant that is not before any of them: beginning
with an empty data directory, any steps on any projects are made while the clock does not go back,
also steps that fail. In between the store may be opened with other bounds, and what is not a
record may change, such as the list of registered projects. -/
inductive Reached : Store → Instant → Prop where
  | start (dataDir : String) (retention : RetentionPolicy) (now : Instant) :
      Reached { dataDir, retention } now
  | step {s : Store} {now : Instant} (id : String) {step : Step} : Reached s now → step.IsFormed →
      now.le step.now → Reached (stepOn s (id, step)) step.now
  | reopen {s : Store} {now : Instant} (retention : RetentionPolicy) : Reached s now →
      Reached { s with retention } now
  | beside {s : Store} {now : Instant} {tree : FileTree Stored} : Reached s now →
      (∀ id, tree.content? (recordPath id) = s.tree.content? (recordPath id)) →
      Reached { s with tree } now
  | later {s : Store} {now later : Instant} : Reached s now → now.le later → Reached s later

/-- Whatever operations leave a store, it is orderly. -/
theorem Reached.orderly {s : Store} {now : Instant} (h : Reached s now) : Orderly now s := by
  induction h with
  | start dataDir retention now =>
    intro p content hp
    cases p with
    | nil => cases hp
    | cons name rest => cases hp
  | step id _ hstep hnow ih => exact (ih.later hnow).stepOn id hstep
  | reopen retention _ ih => exact ih
  | beside _ hsame ih =>
    rintro _ content hp id rfl
    exact ih _ content (hsame id ▸ hp) id rfl
  | later _ hle ih => exact ih.later hle

/-! ## The latest save -/

/-- Whether nothing is in the way of a save of a commit: no file where it needs a directory, and no
directory where it writes a file. -/
structure IsOpen (id commit : String) (t : FileTree Stored) : Prop where
  writable : Writable id t
  clear : ∀ name ∈ [shortName commit, commit], Clear id name t

/-- In a layout nothing is in the way. -/
theorem Layout.isOpen {id commit : String} {t : FileTree Stored} (h : Layout id t)
    (hc : IsPlain commit) : IsOpen id commit t where
  writable := h.writable
  clear := by
    simp only [List.forall_mem_cons, List.not_mem_nil, IsEmpty.forall_iff, implies_true, and_true]
    exact ⟨h.clear hc.shortName, h.clear hc⟩

/-- Runs on projects that are apart never leave anything in the way of a save. -/
theorem Runs.isOpen_after_start (dataDir : String) {policy : RetentionPolicy} {ids : List String}
    {steps : List (String × Step)} (hapart : ids.Pairwise Apart) (hids : ∀ x ∈ steps, x.1 ∈ ids)
    (hadmissible : ∀ x ∈ steps, x.2.IsAdmissible policy)
    (hclock : steps.Pairwise fun a b => a.2.now.le b.2.now) {id : String} (hid : id ∈ ids)
    {commit : String} (hc : IsPlain commit) :
    IsOpen id commit ((start dataDir policy).after steps).store.tree := by
  obtain ⟨later, hsound⟩ := sound_after_start dataDir hapart hids hadmissible hclock
  obtain ⟨record, h⟩ := hsound id hid
  exact h.holds.layout.isOpen hc

/-- What the store holds of a graph that was just saved: the one entry of its commit, which is the
latest, and its snapshot. -/
def IsLatest (s : Store) (id commit : String) (snapshot : Snapshot) : Prop :=
  ∃ r e, s.record? id = .ok (some r) ∧ r.history.filter (·.commit == commit) = [e] ∧
    r.latest = some ⟨commit, e.dataFile⟩ ∧ s.openSnapshot id e.dataFile = .ok snapshot

section
variable {s : Store} {id other : String}

/-- Where two identifiers have one directory, a data file has one place for both. -/
theorem dataPath_congr (hdir : projectDir id = projectDir other) {commit file : String}
    (hnamed : NamedFor commit file) : dataPath id file = dataPath other file := by
  obtain ⟨name, hname, rfl⟩ := hnamed.exists_plain
  rw [dataPath_dataFileNamed id hname, dataPath_dataFileNamed other hname, commitPath, commitPath,
    hdir]

/-- Identifiers with one directory have their data files removed alike. -/
theorem removeData_congr (hdir : projectDir id = projectDir other) {es : List HistoryEntry}
    (hnamed : ∀ e ∈ es, NamedFor e.commit e.dataFile) :
    es.foldl (fun s e => s.removeData id e) s = es.foldl (fun s e => s.removeData other e) s := by
  have hplaces : es.map (fun e => dataPath id e.dataFile) =
      es.map fun e => dataPath other e.dataFile :=
    List.map_congr_left fun e he => dataPath_congr hdir (hnamed e he)
  rw [foldl_removeData, foldl_removeData, hplaces]

/-- Where the record of a project can be written, so can that of another identifier with the same
directory. -/
theorem Writable.congr {t : FileTree Stored} (h : Writable id t)
    (hdir : projectDir id = projectDir other) : Writable other t where
  above := hdir ▸ h.above
  record := by
    rw [recordPath, ← hdir]
    exact h.record
  temporary := by
    rw [temporaryRecordPath, ← hdir]
    exact h.temporary

variable {e : HistoryEntry} {history : List HistoryEntry} {bound : Option Instant}

/-- An entry that is as late as any is kept, and only entries of other commits are removed. -/
theorem mem_division_of_past (s : Store) (hpast : ∀ x ∈ history, x.created.le e.created)
    (hbound : ∀ c ∈ bound, c.le e.created) :
    e ∈ (s.division e history bound).kept ∧
      (s.division e history bound).kept.filter (fun x => x.commit == e.commit) = [e] ∧
      ∀ x ∈ (s.division e history bound).removed, x ∈ history ∧ x.commit ≠ e.commit := by
  have hnone : countLater history e.commit e.created = 0 :=
    List.countP_eq_zero.mpr fun x hx => by simp [hpast x hx]
  have hkept : e ∈ (s.division e history bound).kept :=
    (mem_kept_division_iff s history hbound).mpr (by omega)
  rcases filter_division s e history bound with ⟨honly, hremoved⟩ | ⟨hgone, -⟩
  · refine ⟨hkept, honly, fun x hx => ?_⟩
    have hne : x.commit ≠ e.commit := fun heq =>
      List.filter_eq_nil_iff.mp hremoved x hx (beq_iff_eq.mpr heq)
    rcases mem_replaced.mp (History.mem_of_mem_removed hx) with rfl | hold
    · exact absurd rfl hne
    · exact hold
  · exact absurd (beq_self_eq_true _) (List.filter_eq_nil_iff.mp hgone e hkept)

/-- Where a record is regular, a snapshot that is in its place is entered, and is the latest one
then: what is removed belongs to other commits, and none of these has its data file. -/
theorem enter_latest {s : Store} {r : ProjectRecord} {name : String} {new : NewGraph}
    {now : Instant} {snapshot : Snapshot} (hdir : projectDir r.id = projectDir id)
    (hregular : Regular r.history now)
    (hbound : History.cutoff now s.retention.maxAgeDays = .ok bound) (hc : IsCommit new.commit)
    (hfile : dataFile? r new.commit = some (dataFileNamed name)) (hw : Writable id s.tree)
    (hdata : s.tree.content? (dataPath id (dataFileNamed name)) = some (.snapshot snapshot)) :
    ∃ s' g, s.enter r id (entryOf new (dataFileNamed name) now) now = (s', .ok g) ∧
      g.commit = new.commit ∧ IsLatest s' id new.commit snapshot := by
  set e := entryOf new (dataFileNamed name) now
  obtain ⟨hkept, honly, hremoved⟩ := mem_division_of_past (e := e) s hregular.past
    (History.le_of_cutoff hbound)
  set p := s.division e r.history bound
  have hid : projectDir (entered r e p.kept).id = projectDir id := by
    rw [← hdir]
    exact congrArg projectDir (id_repairLatest _)
  have hrecord : recordPath (entered r e p.kept).id = recordPath id := by
    rw [recordPath, recordPath, hid]
  have hnamed : ∀ x ∈ p.removed, NamedFor x.commit x.dataFile :=
    fun x hx => hregular.named x (hremoved x hx).1
  obtain ⟨t, ht, hrevised⟩ := revise_ok (s := s) p.removed (s.graphOf id e) (hw.congr hid.symm)
  rw [removeData_congr hid hnamed, ← enter_eq hbound] at ht
  have hsorted : History.Newest p.kept :=
    (History.newest_newestFirst _).sublist (History.kept_sublist _ _ _)
  have hgone : dataPath id (dataFileNamed name) ∉ places (entered r e p.kept).id p.removed := by
    intro hmem
    obtain ⟨x, hx, heq⟩ := List.mem_map.mp hmem
    rw [dataPath_congr hid (hnamed x hx)] at heq
    exact dataPath_ne_of_named id hc hregular.named hfile (hremoved x hx).1 (hremoved x hx).2 heq
  refine ⟨_, _, ht, rfl, entered r e p.kept, e, ?_, ?_, latest_entered r hkept,
    openSnapshot_of_at? (FileTree.content?_eq_some_iff.mp ?_)⟩
  · refine record?_of_entered ?_ hsorted
    rw [hrevised.content, ← hrecord, if_pos rfl]
  · rw [history_entered]
    exact honly
  · have hletter := lastLetter?_dataFileNamed id name
    have htmp := lastLetter?_temporaryRecordPath (entered r e p.kept).id
    change t.content? (dataPath id (dataFileNamed name)) = _
    rw [hrevised.content, if_neg (ne_of_lastLetter? hletter (lastLetter?_recordPath _) (by decide)),
      if_neg (not_or.mpr ⟨ne_of_lastLetter? hletter htmp (by decide), hgone⟩), hdata]

end

/-- A graph that keeps the rules of a snapshot can be saved in any store that operations left, where
nothing is in the way of its files, and is the latest one then. -/
theorem Reached.save_latest {s : Store} {now : Instant} (h : Reached s now)
    {identity : ProjectIdentity} {new : NewGraph} {progress : List Progress} {snapshot : Snapshot}
    (hc : IsCommit new.commit) (hopen : IsOpen identity.id new.commit s.tree)
    (hcut : HasCutoff now s.retention.maxAgeDays)
    (hsnap : snapshotOf new now = (progress, .ok snapshot)) :
    ∃ s' steps g, s.save identity new now = (s', steps, .ok g) ∧ g.commit = new.commit ∧
      IsLatest s' identity.id new.commit snapshot := by
  obtain ⟨record, hread⟩ := h.orderly.exists_record? hopen.writable.record
  have hregular := h.orderly.regular hread
  rw [← history_nextRecord s identity] at hregular
  have hdir : projectDir (s.nextRecord identity record).id = projectDir identity.id := by
    cases record with
    | none => rfl
    | some r => exact (h.orderly.of_record? hread).1
  obtain ⟨name, hname, hclear, hfile⟩ := exists_clear_name hopen.clear hc.isPlain
    (s.nextRecord identity record)
  obtain ⟨placed, hplaced, hsave⟩ := save_of_snapshotOf_ok hread hfile hname hclear hsnap
  obtain ⟨bound, hbound⟩ := History.exists_cutoff hcut
  obtain ⟨s', g, henter, hcommit, hlatest⟩ := enter_latest (s := { s with tree := placed }) hdir
    hregular hbound hc hfile (hplaced.writable hname hclear hopen.writable)
    (by rw [hplaced.content? hclear, if_pos rfl])
  exact ⟨s', _, g, hsave _ _ henter, hcommit, hlatest⟩

end CallImpact.Store
