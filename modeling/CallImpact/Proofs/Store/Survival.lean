import CallImpact.Proofs.Store.Strays

/-!
# What becomes of a graph in its own save

A save enters a graph into a history that it takes as it finds it, and applies the bounds to all of
it. So the new entry is dropped again by its own save when enough entries have a later date, which
happens after a clock was set back; and its data file is removed when an entry that is dropped names
the same place. These are the only two ways: `survives_iff` holds for every tree, every record and
every policy, as long as the save succeeds.
-/

namespace CallImpact.Store

open History (cutoff)

/-! ## The steps of a save that succeeds -/

/-- A snapshot that was placed is in its place. -/
theorem content?_of_placeSnapshot {s s' : Store} {id name : String} {new : NewGraph} {now : Instant}
    {progress : List Progress}
    (h : s.placeSnapshot id (dataFileNamed name) new now = (s', progress, .ok ())) :
    ∃ t snapshot, s' = { s with tree := t } ∧ snapshotOf new now = (progress, .ok snapshot) ∧
      t.content? (dataPath id (dataFileNamed name)) = some (.snapshot snapshot) := by
  have hdata := lastLetter?_dataFileNamed id name
  have htmp := lastLetter?_temporaryFile id (dataFileNamed name)
  simp only [placeSnapshot] at h
  split at h
  · cases h
  · rename_i created hcreated
    split at h
    · cases h
    · rename_i snapshot hsnap
      split at h
      · rename_i moved hmoved
        cases h
        refine ⟨moved, snapshot, rfl, hsnap, ?_⟩
        rw [FileTree.content?_of_rename hmoved (ne_nil_of_lastLetter? hdata),
          if_neg (ne_of_lastLetter? hdata htmp (by decide)), if_pos rfl,
          FileTree.content?_of_writeFile (FileTree.writeFile_of_writeFile hcreated _), if_pos rfl]
      · cases h

/-- What was computed in two steps was computed in the first. -/
theorem of_bind_ok {ε α β : Type} {x : Except ε α} {f : α → Except ε β} {b : β}
    (h : (x >>= f) = .ok b) : ∃ a, x = .ok a ∧ f a = .ok b := by
  cases x with
  | error e => cases h
  | ok a => exact ⟨a, rfl, h⟩

/-- A record that was written is in its place, and no other file has changed. -/
theorem content?_of_writeRecord {s s' : Store} {r : ProjectRecord} (h : s.writeRecord r = .ok s') :
    ∃ t, s' = { s with tree := t } ∧ ∀ p, p ≠ [] → p ≠ temporaryRecordPath r.id →
      t.content? p = if p = recordPath r.id then some (.record r) else s.tree.content? p := by
  simp only [writeRecord] at h
  split at h
  · rename_i tree hall
    cases h
    obtain ⟨made, hmade, hall⟩ := of_bind_ok hall
    obtain ⟨written, hwritten, hmoved⟩ := of_bind_ok hall
    refine ⟨tree, rfl, fun p hp hne => ?_⟩
    rw [temporaryRecordPath] at hne
    rw [FileTree.content?_of_rename hmoved hp, if_neg hne, FileTree.content?_of_writeFile hwritten,
      FileTree.content?_of_writeFile hwritten, if_pos rfl, if_neg hne,
      FileTree.content?_of_makeDirs hmade]
  · cases h

/-- A graph that was entered: the record names what was kept, and the data files of what was removed
are gone. -/
theorem content?_of_enter {s s' : Store} {r : ProjectRecord} {id : String} {e : HistoryEntry}
    {now : Instant} {bound : Option Instant} {g : CallGraph}
    (hcut : cutoff now s.retention.maxAgeDays = .ok bound) (h : s.enter r id e now = (s', .ok g)) :
    ∃ t, s' = { s with tree := t } ∧ ∀ p, p ≠ [] → p ≠ temporaryRecordPath r.id →
      t.content? p =
        if p = recordPath r.id then some (.record (entered r e (s.division e r.history bound).kept))
        else if p ∈ (s.division e r.history bound).removed.map (fun e => dataPath id e.dataFile)
          then none
        else s.tree.content? p := by
  rw [enter_eq hcut, foldl_removeData, finish] at h
  split at h
  · rename_i written hwritten
    cases h
    obtain ⟨t, rfl, hcontent⟩ := content?_of_writeRecord hwritten
    have hid : (entered r e (s.division e r.history bound).kept).id = r.id := id_repairLatest _
    rw [hid] at hcontent
    refine ⟨t, rfl, fun p hp hne => ?_⟩
    rw [hcontent p hp hne, FileTree.content?_removeFiles _ _ hp]
  · cases h

/-- What a save that succeeded leaves in the places of the record and of the new data file, in
whatever tree. -/
theorem content?_of_save {s s' : Store} {identity : ProjectIdentity} {new : NewGraph}
    {now : Instant} {record : Option ProjectRecord} {bound : Option Instant} {steps : List Progress}
    {g : CallGraph} (hread : s.record? identity.id = .ok record)
    (howner : ∀ r ∈ record, r.id = identity.id)
    (hcut : cutoff now s.retention.maxAgeDays = .ok bound)
    (hsave : s.save identity new now = (s', steps, .ok g)) :
    ∃ file t snapshot, s' = { s with tree := t } ∧
      dataFile? (s.nextRecord identity record) new.commit = some file ∧
      g = s.graphOf identity.id (entryOf new file now) ∧ IsSnapshotOf snapshot new now ∧
      t.content? (recordPath identity.id) =
        some (.record (entered (s.nextRecord identity record) (entryOf new file now)
          (s.division (entryOf new file now) (historyOf record) bound).kept)) ∧
      t.content? (dataPath identity.id file) =
        if dataPath identity.id file ∈
            (s.division (entryOf new file now) (historyOf record) bound).removed.map
              (fun e => dataPath identity.id e.dataFile)
          then none
        else some (.snapshot snapshot) := by
  have hid := id_nextRecord (s := s) howner
  simp only [save, hread] at hsave
  split at hsave
  · cases hsave
  · rename_i file hfile
    obtain ⟨name, rfl⟩ := exists_dataFileNamed hfile
    split at hsave
    · cases hsave
    · split at hsave
      · cases hsave
      · rename_i hplace
        obtain ⟨t, snapshot, rfl, hsnap, hdata⟩ := content?_of_placeSnapshot hplace
        split at hsave
        · rename_i henter
          cases hsave
          have hgraph := graph_of_enter henter
          obtain ⟨t', rfl, hcontent⟩ := content?_of_enter (s := { s with tree := t }) hcut henter
          rw [hid, history_nextRecord] at hcontent
          have hrecord := lastLetter?_recordPath identity.id
          have hplaced := lastLetter?_dataFileNamed identity.id name
          have htmp := lastLetter?_temporaryRecordPath identity.id
          refine ⟨dataFileNamed name, t', snapshot, rfl, hfile, hgraph,
            isSnapshotOf_snapshotOf hsnap, ?_, ?_⟩
          · rw [hcontent _ (ne_nil_of_lastLetter? hrecord)
              (ne_of_lastLetter? hrecord htmp (by decide)), if_pos rfl]
            rfl
          · rw [hcontent _ (ne_nil_of_lastLetter? hplaced)
              (ne_of_lastLetter? hplaced htmp (by decide)),
              if_neg (ne_of_lastLetter? hplaced hrecord (by decide)), hdata]
            rfl
        · cases hsave

/-! ## The new entry among the others -/

/-- How many entries of other commits are later than an instant. -/
def countLater (history : List HistoryEntry) (commit : String) (now : Instant) : Nat :=
  history.countP fun x => x.commit != commit && !x.created.le now

section
variable (s : Store) (e : HistoryEntry) (history : List HistoryEntry) (bound : Option Instant)

/-- The new entry is either kept or removed, and no other entry has its commit. -/
theorem filter_division :
    ((s.division e history bound).kept.filter (fun x => x.commit == e.commit) = [e] ∧
      (s.division e history bound).removed.filter (fun x => x.commit == e.commit) = []) ∨
    ((s.division e history bound).kept.filter (fun x => x.commit == e.commit) = [] ∧
      (s.division e history bound).removed.filter (fun x => x.commit == e.commit) = [e]) := by
  have hnew : (e :: history.filter fun x => x.commit != e.commit).filter
      (fun x => x.commit == e.commit) = [e] := by
    rw [List.filter_cons, if_pos (beq_self_eq_true _), List.filter_filter]
    simp
  have hperm := ((History.partition_perm (replaced e history) (max s.retention.maxCount 1)
    bound).trans (History.newestFirst_perm _)).filter fun x => x.commit == e.commit
  rw [List.filter_append, hnew, List.perm_singleton, List.append_eq_singleton_iff] at hperm
  exact hperm.symm

variable {e bound}

/-- The new entry is kept unless enough entries of other commits are later. -/
theorem mem_kept_division_iff (hbound : ∀ c ∈ bound, c.le e.created) :
    e ∈ (s.division e history bound).kept ↔
      countLater history e.commit e.created < max s.retention.maxCount 1 := by
  obtain ⟨later, others, heq, hperm, hlength⟩ :=
    History.newestFirst_cons e (history.filter fun x => x.commit != e.commit)
  have hnot : e ∉ later ++ others := fun hmem => by
    have := (List.mem_filter.mp (hperm.mem_iff.mp hmem)).2
    simp at this
  rw [List.mem_append, not_or] at hnot
  have hcount : countLater history e.commit e.created = later.length := by
    rw [hlength, List.countP_filter, countLater]
    exact List.countP_congr fun x _ => by rw [Bool.and_comm]
  rw [division, replaced, heq, History.mem_kept_iff hnot.1 hnot.2, hcount]
  exact and_iff_left hbound

end

/-! ## Whether the graph is there -/

/-- Whether a graph that was saved is there: it alone is listed for its commit, its snapshot can be
read from its data file, and it counts as the latest. -/
structure Survives (s : Store) (new : NewGraph) (now : Instant) (g : CallGraph) : Prop where
  listed : ∃ gs, s.list g.projectId = .ok gs ∧ gs.filter (fun x => x.commit == new.commit) = [g]
  stored : ∃ snapshot, s.snapshotAt g = .ok snapshot ∧ IsSnapshotOf snapshot new now
  latest : s.latest g.projectId = .ok g

section
variable {s : Store} {id : String} {r : ProjectRecord}

@[simp] theorem history_entered (r : ProjectRecord) (e : HistoryEntry) (kept : List HistoryEntry) :
    (entered r e kept).history = kept :=
  history_repairLatest _

/-- The record with a new entry is read back. -/
theorem record?_of_entered {e : HistoryEntry} {kept : List HistoryEntry}
    (h : s.tree.content? (recordPath id) = some (.record (entered r e kept)))
    (hn : History.Newest kept) : s.record? id = .ok (some (entered r e kept)) := by
  rw [record?_of_at? (FileTree.content?_eq_some_iff.mp h),
    History.newestFirst_of_newest (by rwa [history_entered])]

/-- What is listed are the entries of the history. -/
theorem list_eq (h : s.record? id = .ok (some r)) :
    s.list id = .ok (r.history.map (s.graphOf id)) := by
  rw [list, h]
  rfl

/-- The latest graph is the first that is recorded for the latest commit. -/
theorem latest_eq {l : LatestPointer} {e : HistoryEntry} {rest : List HistoryEntry}
    (h : s.record? id = .ok (some r)) (hl : r.latest = some l)
    (hfirst : r.history.filter (fun x => x.commit == l.commit) = e :: rest) :
    s.latest id = .ok (s.graphOf id e) := by
  have hfind : r.history.find? (fun x => x.commit == l.commit) = some e := by
    rw [← List.head?_filter, hfirst, List.head?_cons]
  simp only [latest, h, bind, Except.bind, hl, Option.bind_some, hfind]
  rfl

/-- A snapshot is read from a file. -/
theorem content?_of_openSnapshot {file : String} {snapshot : Snapshot}
    (h : s.openSnapshot id file = .ok snapshot) : s.tree.content? (dataPath id file) ≠ none := by
  unfold openSnapshot at h
  unfold FileTree.content?
  split at h
  · rename_i hget
    simp [hget]
  · rename_i hget
    simp [hget]
  · cases h
  · cases h

variable {new : NewGraph} {now : Instant} {file : String}

/-- A graph is there when its entry is the only one of its commit and the latest, and its snapshot
is in its data file. -/
theorem survives_of_entry {snapshot : Snapshot} (hread : s.record? id = .ok (some r))
    (honly : r.history.filter (fun x => x.commit == new.commit) = [entryOf new file now])
    (hlatest : r.latest = some ⟨new.commit, file⟩)
    (hdata : s.tree.content? (dataPath id file) = some (.snapshot snapshot))
    (hsnap : IsSnapshotOf snapshot new now) :
    s.Survives new now (s.graphOf id (entryOf new file now)) where
  listed := by
    refine ⟨_, list_eq hread, ?_⟩
    rw [List.filter_map]
    exact congrArg (List.map (s.graphOf id)) honly
  stored := ⟨snapshot, openSnapshot_of_at? (FileTree.content?_eq_some_iff.mp hdata), hsnap⟩
  latest := latest_eq hread hlatest honly

/-- Without an entry for its commit a graph is not there. -/
theorem not_survives_of_filter (hread : s.record? id = .ok (some r))
    (hnone : r.history.filter (fun x => x.commit == new.commit) = []) :
    ¬ s.Survives new now (s.graphOf id (entryOf new file now)) := by
  intro h
  obtain ⟨gs, hgs, hall⟩ := h.listed
  obtain rfl : r.history.map (s.graphOf id) = gs := Except.ok.inj ((list_eq hread).symm.trans hgs)
  have hmap : (r.history.map (s.graphOf id)).filter (fun x => x.commit == new.commit) = [] := by
    rw [List.filter_map]
    exact congrArg (List.map (s.graphOf id)) hnone
  rw [hmap] at hall
  cases hall

end

section
variable {s : Store} {identity : ProjectIdentity} {new : NewGraph} {now : Instant}
  {record : Option ProjectRecord} {bound : Option Instant} {g : CallGraph}

/-- A graph is there after its save when its entry is kept and no data file in the place of its own
is removed. -/
theorem survives_iff_kept (hread : s.record? identity.id = .ok record)
    (howner : ∀ r ∈ record, r.id = identity.id)
    (hcut : cutoff now s.retention.maxAgeDays = .ok bound)
    (hsave : (s.save identity new now).2.2 = .ok g) :
    ∃ file, dataFile? (s.nextRecord identity record) new.commit = some file ∧
      g = s.graphOf identity.id (entryOf new file now) ∧
      ((s.save identity new now).1.Survives new now g ↔
        entryOf new file now ∈ (s.division (entryOf new file now) (historyOf record) bound).kept ∧
          dataPath identity.id file ∉
            (s.division (entryOf new file now) (historyOf record) bound).removed.map
              (fun e => dataPath identity.id e.dataFile)) := by
  rcases hout : s.save identity new now with ⟨s', steps, result⟩
  rw [hout] at hsave
  obtain rfl : result = .ok g := hsave
  obtain ⟨file, t, snapshot, rfl, hfile, hgraph, hsnap, hrecord, hdata⟩ :=
    content?_of_save hread howner hcut hout
  refine ⟨file, hfile, hgraph, ?_⟩
  have hsorted : History.Newest
      (s.division (entryOf new file now) (historyOf record) bound).kept :=
    (History.newest_newestFirst _).sublist (History.kept_sublist _ _ _)
  have hfilter := filter_division s (entryOf new file now) (historyOf record) bound
  generalize s.division (entryOf new file now) (historyOf record) bound = p at *
  have hread' := record?_of_entered (s := { s with tree := t }) hrecord hsorted
  rcases hfilter with ⟨honly, -⟩ | ⟨hnone, -⟩
  · have hkept : entryOf new file now ∈ p.kept :=
      List.mem_of_mem_filter (honly ▸ List.mem_singleton_self _)
    rw [and_iff_right hkept]
    constructor
    · intro h hmem
      obtain ⟨stored, hstored, -⟩ := h.stored
      rw [if_pos hmem] at hdata
      rw [hgraph] at hstored
      exact content?_of_openSnapshot hstored hdata
    · intro hmem
      rw [if_neg hmem] at hdata
      rw [hgraph]
      exact survives_of_entry hread' (by rwa [history_entered]) (latest_entered _ hkept) hdata hsnap
  · have hgone : entryOf new file now ∉ p.kept := fun hmem =>
      List.filter_eq_nil_iff.mp hnone _ hmem (beq_self_eq_true _)
    rw [hgraph]
    exact iff_of_false (not_survives_of_filter hread' (by rwa [history_entered])) fun h => hgone h.1

/-- Where all data files are named for their commits, no other commit has one in the place that is
chosen for a commit. -/
theorem dataPath_ne_of_named {r : ProjectRecord} {commit file : String} (id : String)
    (hc : IsCommit commit) (hnamed : ∀ x ∈ r.history, NamedFor x.commit x.dataFile)
    (hfile : dataFile? r commit = some file) {x : HistoryEntry} (hx : x ∈ r.history)
    (hne : x.commit ≠ commit) : dataPath id x.dataFile ≠ dataPath id file := by
  obtain ⟨chosen, hchosen, hnamedFor, hfree⟩ := dataFile?_spec hc hnamed
  obtain rfl : chosen = file := Option.some.inj (hchosen.symm.trans hfile)
  intro hsame
  refine hfree x hx hne ?_
  obtain ⟨a, ha, hxa⟩ := (hnamed x hx).exists_plain
  obtain ⟨b, hb, rfl⟩ := hnamedFor.exists_plain
  rw [hxa] at hsame ⊢
  exact congrArg dataFileNamed (dataPath_dataFileNamed_inj ha hb hsame)

/-- Whether a graph is there after a save that succeeded and returned it, in whatever tree and with
whatever history: it is when fewer entries of other commits are later than the number of entries
that may stay, and none of these others is dropped that has its data file in the same place. Where
all data files are named for their commits, the second never happens. -/
theorem survives_iff (hread : s.record? identity.id = .ok record)
    (howner : ∀ r ∈ record, r.id = identity.id)
    (hcut : cutoff now s.retention.maxAgeDays = .ok bound)
    (hsave : (s.save identity new now).2.2 = .ok g) :
    ∃ file, g = s.graphOf identity.id (entryOf new file now) ∧
      ((s.save identity new now).1.Survives new now g ↔
        countLater (historyOf record) new.commit now < max s.retention.maxCount 1 ∧
          ∀ x ∈ (s.division (entryOf new file now) (historyOf record) bound).removed,
            x.commit ≠ new.commit → dataPath identity.id x.dataFile ≠ dataPath identity.id file) ∧
      (IsCommit new.commit → (∀ x ∈ historyOf record, NamedFor x.commit x.dataFile) →
        ((s.save identity new now).1.Survives new now g ↔
          countLater (historyOf record) new.commit now < max s.retention.maxCount 1)) := by
  obtain ⟨file, hfile, hgraph, hiff⟩ := survives_iff_kept hread howner hcut hsave
  have hkept : entryOf new file now ∈
      (s.division (entryOf new file now) (historyOf record) bound).kept ↔
        countLater (historyOf record) new.commit now < max s.retention.maxCount 1 :=
    mem_kept_division_iff s (historyOf record) (History.le_of_cutoff hcut)
  have hfilter := filter_division s (entryOf new file now) (historyOf record) bound
  have hmem : ∀ x ∈ (s.division (entryOf new file now) (historyOf record) bound).removed,
      x.commit ≠ new.commit → x ∈ historyOf record := by
    intro x hx hne
    obtain rfl | ⟨hold, -⟩ := mem_replaced.mp (History.mem_of_mem_removed hx)
    · exact absurd rfl hne
    · exact hold
  refine ⟨file, hgraph, ?_⟩
  generalize s.division (entryOf new file now) (historyOf record) bound = p at *
  -- an entry that is kept is not removed, so what is removed belongs to other commits
  have hother : entryOf new file now ∈ p.kept → ∀ x ∈ p.removed, x.commit ≠ new.commit := by
    intro hk x hx hcommit
    rcases hfilter with ⟨-, hnone⟩ | ⟨hnone, -⟩
    · exact List.filter_eq_nil_iff.mp hnone x hx (beq_iff_eq.mpr hcommit)
    · exact List.filter_eq_nil_iff.mp hnone _ hk (beq_self_eq_true _)
  have hplaces : (s.save identity new now).1.Survives new now g ↔
      countLater (historyOf record) new.commit now < max s.retention.maxCount 1 ∧
        ∀ x ∈ p.removed, x.commit ≠ new.commit →
          dataPath identity.id x.dataFile ≠ dataPath identity.id file := by
    rw [hiff, ← hkept]
    refine and_congr_right fun hk => ?_
    simp only [List.mem_map, not_exists, not_and]
    exact ⟨fun h x hx _ => h x hx, fun h x hx => h x hx (hother hk x hx)⟩
  refine ⟨hplaces, fun hc hnamed => ?_⟩
  rw [hplaces]
  refine and_iff_left fun x hx hne => ?_
  rw [← history_nextRecord s identity] at hnamed hmem
  exact dataPath_ne_of_named identity.id hc hnamed hfile (hmem x hx hne) hne

end

/-! ## A clock that was ahead -/

/-- Where there is nothing but a record, it has the place of its project. -/
theorem layout_of_put? {id : String} {content : Stored} {t : FileTree Stored}
    (h : FileTree.put? (.file content) (recordPath id) (.dir []) = some t) : Layout id t := by
  intro p x _ hx
  rw [FileTree.at?_put? h] at hx
  split at hx
  · rename_i hbelow
    obtain ⟨rest, rfl⟩ := hbelow
    rw [List.drop_left] at hx
    cases rest with
    | nil =>
      cases hx
      exact .inl (List.append_nil _)
    | cons name rest => cases hx
  · rename_i hbelow
    split at hx
    · rename_i habove
      cases hx
      rcases List.prefix_concat_iff.mp habove with rfl | habove
      · exact absurd (List.prefix_refl _) hbelow
      · exact habove.trans (List.prefix_append _ _)
    · rename_i habove
      cases p with
      | nil => exact absurd List.nil_prefix habove
      | cons name rest => cases hx

/-- An entry from a time when the clock was ahead. -/
def aheadEntry : HistoryEntry :=
  { commit := "aaaaaaaa1", created := ⟨32472144000, 0⟩, funcCount := 2, edgeCount := 1,
    algorithm := .rapid, dataFile := "commits/aaaaaaa.db" }

/-- What is recorded about a project with that entry. -/
def aheadRecord : ProjectRecord :=
  { id := "p1", name := "app", history := [aheadEntry] }

/-- A data directory with that record, where a number of entries may stay. -/
def aheadStore (maxCount : Nat) : Store :=
  { dataDir := "data", retention := ⟨maxCount, 0⟩,
    tree := .dir [("p1", .dir [(recordFile, .file (.record aheadRecord))])] }

/-- The project that is recorded. -/
def aheadProject : ProjectIdentity :=
  ⟨"p1", "app", none⟩

/-- A graph of another commit. -/
def nextGraph : NewGraph :=
  { (default : NewGraph) with commit := "bbbbbbbb2" }

/-- The sample record can be read from its store. -/
theorem record?_aheadStore (maxCount : Nat) :
    (aheadStore maxCount).record? aheadProject.id = .ok (some aheadRecord) := by
  have hat : (aheadStore maxCount).tree.at? (recordPath aheadProject.id) =
      some (.file (.record aheadRecord)) := rfl
  have hnewest : History.Newest aheadRecord.history := List.pairwise_singleton _ _
  rw [record?_of_at? hat, History.newestFirst_of_newest hnewest]

/-- The data files of the sample record are named for their commits. -/
theorem named_aheadRecord : ∀ x ∈ historyOf (some aheadRecord), NamedFor x.commit x.dataFile := by
  intro x hx
  obtain rfl : x = aheadEntry := List.mem_singleton.mp hx
  exact ⟨by decide +kernel, .inl (by decide +kernel)⟩

/-- The sample record belongs to the sample project. -/
theorem owner_aheadRecord : ∀ r ∈ some aheadRecord, r.id = aheadProject.id := by
  rintro r ⟨⟩
  rfl

/-- The next graph is saved without an error in the sample store, whatever number of entries may
stay. -/
theorem save_aheadStore (maxCount : Nat) (now : Instant) :
    ∃ g, ((aheadStore maxCount).save aheadProject nextGraph now).2.2 = .ok g := by
  have hlayout : Layout aheadProject.id (aheadStore maxCount).tree := layout_of_put? rfl
  have hholds : Holds (aheadStore maxCount) aheadProject.id (some aheadRecord) :=
    ⟨hlayout, record?_aheadStore maxCount, owner_aheadRecord, named_aheadRecord⟩
  have hsnap : snapshotOf nextGraph now = ((snapshotOf nextGraph now).1, .ok _) := rfl
  obtain ⟨name, bound, placed, t, steps, -, -, -, -, -, -, hsave⟩ :=
    save_ok aheadProject hholds (by decide +kernel) (.inl rfl) hsnap
  exact ⟨_, by rw [hsave]⟩

/-- The case of a record with a later entry, where two entries may stay. -/
theorem survives_iff_aheadStore :
    (aheadStore 2).record? aheadProject.id = .ok (some aheadRecord) ∧
    cutoff ⟨1700000000, 0⟩ (aheadStore 2).retention.maxAgeDays = .ok none ∧
    ∃ g, ((aheadStore 2).save aheadProject nextGraph ⟨1700000000, 0⟩).2.2 = .ok g ∧
      ((aheadStore 2).save aheadProject nextGraph ⟨1700000000, 0⟩).1.Survives nextGraph
        ⟨1700000000, 0⟩ g := by
  have hread := record?_aheadStore 2
  have hcut : cutoff ⟨1700000000, 0⟩ (aheadStore 2).retention.maxAgeDays = .ok none := rfl
  obtain ⟨g, hsave⟩ := save_aheadStore 2 ⟨1700000000, 0⟩
  obtain ⟨file, -, -, hiff⟩ := survives_iff hread owner_aheadRecord hcut hsave
  exact ⟨hread, hcut, g, hsave, (hiff (by decide +kernel) named_aheadRecord).mpr (by decide)⟩

/-- Where one entry may stay, the one with the later date stays: the save succeeds, and afterwards
nothing is left of its graph. -/
theorem save_drops_new_graph :
    ∃ g, ((aheadStore 1).save aheadProject nextGraph ⟨1700000000, 0⟩).2.2 = .ok g ∧
      g.commit = "bbbbbbbb2" ∧
      ((aheadStore 1).save aheadProject nextGraph ⟨1700000000, 0⟩).1.list aheadProject.id =
        .ok [(aheadStore 1).graphOf aheadProject.id aheadEntry] ∧
      ((aheadStore 1).save aheadProject nextGraph ⟨1700000000, 0⟩).1.latest aheadProject.id =
        .ok ((aheadStore 1).graphOf aheadProject.id aheadEntry) ∧
      ((aheadStore 1).save aheadProject nextGraph ⟨1700000000, 0⟩).1.tree.hasFile
        (dataPath aheadProject.id g.dataFile) = false := by
  obtain ⟨g, hsave⟩ := save_aheadStore 1 ⟨1700000000, 0⟩
  have hcut : cutoff ⟨1700000000, 0⟩ (aheadStore 1).retention.maxAgeDays = .ok none := rfl
  rcases hout : (aheadStore 1).save aheadProject nextGraph ⟨1700000000, 0⟩ with ⟨s', steps, result⟩
  rw [hout] at hsave
  obtain rfl : result = .ok g := hsave
  obtain ⟨file, t, snapshot, rfl, -, rfl, -, hrecord, hdata⟩ :=
    content?_of_save (record?_aheadStore 1) owner_aheadRecord hcut hout
  have horder : replaced (entryOf nextGraph file ⟨1700000000, 0⟩) [aheadEntry] =
      [aheadEntry, entryOf nextGraph file ⟨1700000000, 0⟩] := by
    simp [replaced, History.newestFirst, List.mergeSort, aheadEntry, entryOf, nextGraph, Instant.le]
  have hdivision : (aheadStore 1).division (entryOf nextGraph file ⟨1700000000, 0⟩)
      (historyOf (some aheadRecord)) none =
        ⟨[aheadEntry], [entryOf nextGraph file ⟨1700000000, 0⟩]⟩ := by
    change History.partition (replaced _ [aheadEntry]) 1 none = _
    rw [horder]
    rfl
  rw [hdivision] at hrecord hdata
  have hread := record?_of_entered (s := { aheadStore 1 with tree := t }) hrecord
    (List.pairwise_singleton _ _)
  have hgone : t.content? (dataPath aheadProject.id file) = none :=
    hdata.trans (if_pos (List.mem_singleton_self _))
  refine ⟨_, rfl, rfl, ?_, latest_eq hread rfl rfl, ?_⟩
  · exact (list_eq hread).trans (by rw [history_entered]; rfl)
  · exact congrArg Option.isSome hgone

end CallImpact.Store
