import CallImpact.Proofs.FileTree
import CallImpact.Proofs.Store.DataFiles

/-!
# The directory of a project

The steps of an operation succeed where they meet no file in the place of a directory and no
directory in the place of a file: a record is written where its place is `Writable`, a snapshot
where the place of its data file is `Clear`. For each step there is one equation that says what
stands where afterwards: `writeRecord_eq`, `at?_removeAll`, `at?_removePartial`,
`placeSnapshot_ok` and `placeSnapshot_error`.

Nothing but the record and the files beside each other in one directory ever stands in the place
of a project (`Layout`), and such a place is writable and clear.
-/

namespace CallImpact.Store

open FileTree (Standing)

/-! ## Layouts -/

/-- An entry of the directory with the snapshots is not above it. -/
theorem commitPath_not_above (id entry : String) :
    ¬ commitPath id entry <+: projectDir id ++ [commitsDir] := fun hp => by
  have hlen := hp.length_le
  rw [commitPath, List.length_append, List.length_append] at hlen
  simp only [List.length_cons, List.length_nil] at hlen
  omega

/-- What is beside the directory with the snapshots is not above it. -/
theorem beside_not_above (id : String) {entry : String} (h : entry ≠ commitsDir) :
    ¬ projectDir id ++ [entry] <+: projectDir id ++ [commitsDir] := fun hp => by
  have heq := hp.eq_of_length (by simp)
  rw [List.append_cancel_left_eq, List.cons.injEq] at heq
  exact h heq.1

/-- The record is beside the directory with the snapshots. -/
theorem recordPath_not_above (id : String) :
    ¬ recordPath id <+: projectDir id ++ [commitsDir] :=
  beside_not_above id (by decide)

/-- Where the record of a project is written first. -/
def temporaryRecordPath (id : String) : Path :=
  projectDir id ++ [recordFile ++ ".tmp"]

/-- The path of a temporary record ends in a `p`. -/
theorem lastLetter?_temporaryRecordPath (id : String) :
    (temporaryRecordPath id).lastLetter? = some 'p' := by
  rw [temporaryRecordPath, Path.lastLetter?_concat]
  rfl

/-- Whether a path is one at which operations on a project write files. -/
def IsFileOf (id : String) (p : Path) : Prop :=
  p = recordPath id ∨ p = temporaryRecordPath id ∨ ∃ entry, p = commitPath id entry

/-- Whether a path is one at which operations on a project need a directory or write files. -/
def Near (id : String) (p : Path) : Prop :=
  p <+: projectDir id ++ [commitsDir] ∨ IsFileOf id p

/-- Operations on a project write its record. -/
theorem near_recordPath (id : String) : Near id (recordPath id) :=
  .inr (.inl rfl)

/-- Operations on a project write files in its directory of snapshots. -/
theorem near_commitPath (id entry : String) : Near id (commitPath id entry) :=
  .inr (.inr (.inr ⟨entry, rfl⟩))

/-- What may stand at a path in the place of a project. -/
def Allowed (id : String) (p : Path) : Standing Stored → Prop
  | .directory => p <+: projectDir id ++ [commitsDir]
  | .file _ => p = recordPath id ∨ ∃ entry, p = commitPath id entry

/-- In the place of a project stand the record, the directory with the snapshots, and files in it.
-/
def Layout (id : String) (t : FileTree Stored) : Prop :=
  ∀ p x, Near id p → t.at? p = some x → Allowed id p x

/-- In the place of a project nothing stands yet, and no file is in the way to it. -/
def Vacant (id : String) (t : FileTree Stored) : Prop :=
  ∀ p x, Near id p → t.at? p = some x → p <+: projectDir id ∧ x = .directory

/-- In an empty data directory every place is vacant. -/
theorem vacant_empty (id : String) : Vacant id (.dir []) := by
  intro p x _ h
  cases p with
  | nil =>
    cases h
    exact ⟨List.nil_prefix, rfl⟩
  | cons name rest => simp at h

section
variable {id : String} {t : FileTree Stored}

/-- A vacant place is laid out as it should be. -/
theorem Vacant.layout (h : Vacant id t) : Layout id t := by
  intro p x hnear hx
  obtain ⟨hp, rfl⟩ := h p x hnear hx
  exact hp.trans (List.prefix_append _ _)

/-- Nothing is recorded where nothing stands. -/
theorem Vacant.at?_recordPath (h : Vacant id t) : t.at? (recordPath id) = none := by
  cases hx : t.at? (recordPath id) with
  | none => rfl
  | some x =>
    have hp := (h _ x (near_recordPath id) hx).1
    exact absurd (hp.trans (List.prefix_append _ _)) (recordPath_not_above id)

/-- No directory is in the place of an entry of the directory with the snapshots. -/
theorem Layout.commitPath_ne_directory (h : Layout id t) (entry : String) :
    t.at? (commitPath id entry) ≠ some .directory :=
  fun hd => commitPath_not_above id entry (h _ _ (near_commitPath id entry) hd)

/-- No directory is in the place of a data file. -/
theorem Layout.dataPath_ne_directory (h : Layout id t) {commit file : String}
    (hf : NamedFor commit file) : t.at? (dataPath id file) ≠ some .directory := by
  obtain ⟨name, hname, rfl⟩ := hf.exists_plain
  rw [dataPath_dataFileNamed id hname]
  exact h.commitPath_ne_directory _

/-- No directory is in the place of the record. -/
theorem Layout.recordPath_ne_directory (h : Layout id t) :
    t.at? (recordPath id) ≠ some .directory :=
  fun hd => recordPath_not_above id (h _ _ (near_recordPath id) hd)

/-- No file is in the way to the directory with the snapshots. -/
theorem Layout.ne_file_of_above (h : Layout id t) {p : Path} (content : Stored)
    (hp : p <+: projectDir id ++ [commitsDir]) : t.at? p ≠ some (.file content) := by
  intro hf
  rcases (h _ _ (.inl hp) hf : p = _ ∨ _) with rfl | ⟨entry, rfl⟩
  · exact recordPath_not_above id hp
  · exact commitPath_not_above id entry hp

/-- Nothing is in the place of the temporary record. -/
theorem Layout.temporaryRecord (h : Layout id t) :
    t.at? (projectDir id ++ [recordFile ++ ".tmp"]) = none := by
  cases hx : t.at? (projectDir id ++ [recordFile ++ ".tmp"]) with
  | none => rfl
  | some x =>
    have hallowed : Allowed id (projectDir id ++ [recordFile ++ ".tmp"]) x :=
      h _ _ (.inr (.inr (.inl rfl))) hx
    cases x with
    | directory =>
      have := (hallowed : _ <+: _).eq_of_length (by simp)
      simp [recordFile, commitsDir] at this
    | file content =>
      rcases (hallowed : _ ∨ _) with hp | ⟨entry, hp⟩
      · simp [recordPath, recordFile] at hp
      · have := congrArg List.length hp
        simp [commitPath] at this

/-- A change that removes something or puts something where it is allowed keeps the layout. -/
theorem Layout.of_at? {t' : FileTree Stored} (h : Layout id t)
    (hch : ∀ p x, t'.at? p = some x → t.at? p = some x ∨ Allowed id p x) : Layout id t' :=
  fun p x hnear hx => (hch p x hx).elim (h p x hnear) fun hallowed => hallowed

end

/-! ## Places where files can be written -/

/-- Whether the record of a project can be written: no file is in the way to it, and no directory is
in its place. -/
structure Writable (id : String) (t : FileTree Stored) : Prop where
  above : ∀ p content, p <+: projectDir id → t.at? p ≠ some (.file content)
  record : t.at? (recordPath id) ≠ some .directory
  temporary : t.at? (temporaryRecordPath id) ≠ some .directory

/-- The root of a tree in which a record can be written is no file. -/
theorem Writable.content?_root {id : String} {t : FileTree Stored} (h : Writable id t) :
    t.content? [] = none :=
  FileTree.content?_eq_none_iff.mpr fun content => h.above [] content List.nil_prefix

/-- Whether a data file with a plain name can be written: no file is in the way to it, and no
directory is in its place or in that of what may be left of it. -/
structure Clear (id name : String) (t : FileTree Stored) : Prop where
  above : ∀ p content, p <+: projectDir id ++ [commitsDir] → t.at? p ≠ some (.file content)
  data : t.at? (dataPath id (dataFileNamed name)) ≠ some .directory
  partials : ∀ p ∈ partialPaths id name, t.at? p ≠ some .directory

/-- Where a data file with a plain name is written first. -/
def temporaryPath (id name : String) : Path :=
  commitPath id (name ++ "." ++ "db.tmp")

section
variable {id name : String} {t t' : FileTree Stored}

/-- The temporary file is among what may be left. -/
theorem temporaryPath_mem_partialPaths (id name : String) :
    temporaryPath id name ∈ partialPaths id name :=
  List.mem_map.mpr ⟨"", by simp [partialEndings], rfl⟩

/-- What may be left of a data file is beside it. -/
theorem exists_commitPath_of_mem_partialPaths {p : Path} (h : p ∈ partialPaths id name) :
    ∃ entry, p = commitPath id entry := by
  obtain ⟨ending, -, rfl⟩ := List.mem_map.mp h
  exact ⟨_, rfl⟩

/-- Where files are laid out as they should be, the record can be written. -/
theorem Layout.writable (h : Layout id t) : Writable id t where
  above p content hp := h.ne_file_of_above content (hp.trans (List.prefix_append _ _))
  record := h.recordPath_ne_directory
  temporary := by
    rw [temporaryRecordPath, h.temporaryRecord]
    simp

/-- Where files are laid out as they should be, every data file with a plain name can be written. -/
theorem Layout.clear (h : Layout id t) (hname : IsPlain name) : Clear id name t where
  above _ content hp := h.ne_file_of_above content hp
  data := by
    rw [dataPath_dataFileNamed id hname]
    exact h.commitPath_ne_directory _
  partials p hp := by
    obtain ⟨entry, rfl⟩ := exists_commitPath_of_mem_partialPaths hp
    exact h.commitPath_ne_directory entry

/-- A change that puts directories only above the data files, and files only in it, keeps the place
of a data file clear. -/
theorem Clear.of_at? (h : Clear id name t) (hname : IsPlain name)
    (hch : ∀ p x, t'.at? p = some x → t.at? p = some x ∨
      (x = .directory ∧ p <+: projectDir id ++ [commitsDir]) ∨
      ((∃ content, x = .file content) ∧ ∃ entry, p = commitPath id entry)) : Clear id name t' := by
  have hdir : ∀ entry, t.at? (commitPath id entry) ≠ some .directory →
      t'.at? (commitPath id entry) ≠ some .directory := by
    intro entry hne hx
    rcases hch _ _ hx with hx | ⟨-, hp⟩ | ⟨⟨content, hc⟩, -⟩
    · exact hne hx
    · exact commitPath_not_above id entry hp
    · cases hc
  refine ⟨fun p content hp hx => ?_, ?_, fun p hp => ?_⟩
  · rcases hch _ _ hx with hx | ⟨hc, -⟩ | ⟨-, entry, rfl⟩
    · exact h.above p content hp hx
    · cases hc
    · exact commitPath_not_above id entry hp
  · have hdata := h.data
    rw [dataPath_dataFileNamed id hname] at hdata ⊢
    exact hdir _ hdata
  · obtain ⟨entry, rfl⟩ := exists_commitPath_of_mem_partialPaths hp
    exact hdir entry (h.partials _ hp)

end

/-! ## Records -/

/-- What is recorded depends only on what stands in the place of the record. -/
theorem record?_congr {s s' : Store} {id : String}
    (h : s'.tree.at? (recordPath id) = s.tree.at? (recordPath id)) :
    s'.record? id = s.record? id := by
  unfold record?
  unfold FileTree.at? at h
  cases hs : s.tree.get? (recordPath id) with
  | none =>
    rw [hs, Option.map_none, Option.map_eq_none_iff] at h
    rw [h]
  | some x =>
    rw [hs, Option.map_some, Option.map_eq_some_iff] at h
    obtain ⟨x', hx', heq⟩ := h
    rw [hx']
    cases x with
    | file c => cases x' with
      | file c' => cases heq; rfl
      | dir _ => cases heq
    | dir _ => cases x' with
      | file c' => cases heq
      | dir _ => rfl

/-- A record is read back, with its history in order. -/
theorem record?_of_at? {s : Store} {id : String} {r : ProjectRecord}
    (h : s.tree.at? (recordPath id) = some (.file (.record r))) :
    s.record? id = .ok (some { r with history := History.newestFirst r.history }) := by
  have hget := FileTree.get?_of_at?_file h
  simp [record?, hget, Except.map]

/-- Where nothing stands in the place of the record, nothing is recorded. -/
theorem record?_of_at?_none {s : Store} {id : String}
    (h : s.tree.at? (recordPath id) = none) : s.record? id = .ok none := by
  have hget : s.tree.get? (recordPath id) = none := Option.map_eq_none_iff.mp h
  simp [record?, hget, Except.map]

/-- A snapshot is read back from its data file. -/
theorem openSnapshot_of_at? {s : Store} {id file : String} {snapshot : Snapshot}
    (h : s.tree.at? (dataPath id file) = some (.file (.snapshot snapshot))) :
    s.openSnapshot id file = .ok snapshot := by
  have hget := FileTree.get?_of_at?_file h
  simp [openSnapshot, hget]

/-- A record can be written; it then stands in its place, below directories, and nothing is left of
it beside that. -/
theorem writeRecord_eq {s : Store} {r : ProjectRecord} (h : Writable r.id s.tree) :
    ∃ t, s.writeRecord r = .ok { s with tree := t } ∧ ∀ p, t.at? p =
      if p = temporaryRecordPath r.id then none
      else if p = recordPath r.id then some (.file (.record r))
      else if p <+: projectDir r.id then some .directory else s.tree.at? p := by
  obtain ⟨made, hmade, hat⟩ := FileTree.makeDirs_ok h.above
  have hnot : ∀ name : String, ¬ projectDir r.id ++ [name] <+: projectDir r.id := fun name hp => by
    have := hp.length_le
    rw [List.length_append, List.length_singleton] at this
    omega
  have hdir : made.at? (projectDir r.id) = some .directory := by
    rw [hat, if_pos (List.prefix_refl _)]
  have htmp : made.at? (temporaryRecordPath r.id) ≠ some .directory := by
    rw [hat, temporaryRecordPath, if_neg (hnot _)]
    exact h.temporary
  have hrec : made.at? (recordPath r.id) ≠ some .directory := by
    rw [hat, recordPath, if_neg (hnot _)]
    exact h.record
  have hne : temporaryRecordPath r.id ≠ recordPath r.id := by
    simp [temporaryRecordPath, recordPath, recordFile]
  have hnil : temporaryRecordPath r.id ≠ [] := by simp [temporaryRecordPath]
  have hdrop : made.at? (temporaryRecordPath r.id).dropLast = some .directory := by
    simpa [temporaryRecordPath] using hdir
  have hwrite := FileTree.writeFile_ok hnil hdrop htmp (.record r)
  have hwritten := FileTree.at?_write hnil hdrop htmp (Stored.record r)
  generalize made.write (temporaryRecordPath r.id) (.record r) = written at *
  have hsource : written.at? (temporaryRecordPath r.id) = some (.file (.record r)) := by
    rw [hwritten, if_pos rfl]
  have hparent : written.at? (recordPath r.id).dropLast = some .directory := by
    have hdrop : (recordPath r.id).dropLast = projectDir r.id := by simp [recordPath]
    rw [hdrop, hwritten, if_neg (by simp [temporaryRecordPath]), hdir]
  have htarget : written.at? (recordPath r.id) ≠ some .directory := by
    rw [hwritten, if_neg hne.symm]
    exact hrec
  obtain ⟨moved, hmoved, hat'⟩ := FileTree.rename_ok hsource hnil (by simp [recordPath])
    hparent htarget hne
  refine ⟨moved, ?_, fun p => ?_⟩
  · rw [temporaryRecordPath] at hwrite hmoved
    simp [writeRecord, hmade, hwrite, hmoved, bind, Except.bind]
  · rw [hat', hwritten, hat]
    by_cases hp : p = temporaryRecordPath r.id
    · rw [if_pos hp, if_pos hp]
    · simp only [if_neg hp]

/-- In a layout nothing was left beside the record, so writing it changes the record alone. -/
theorem writeRecord_ok {s : Store} {r : ProjectRecord} (h : Layout r.id s.tree) :
    ∃ t, s.writeRecord r = .ok { s with tree := t } ∧ ∀ p, t.at? p =
      if p = recordPath r.id then some (.file (.record r))
      else if p <+: projectDir r.id then some .directory else s.tree.at? p := by
  obtain ⟨t, ht, hat⟩ := writeRecord_eq h.writable
  refine ⟨t, ht, fun p => ?_⟩
  rw [hat]
  split
  · rename_i hp
    have hrecord : p ≠ recordPath r.id := by
      simp [hp, temporaryRecordPath, recordPath, recordFile]
    have habove : ¬ p <+: projectDir r.id := fun hpre => by
      have := hpre.length_le
      rw [hp, temporaryRecordPath, List.length_append, List.length_singleton] at this
      omega
    rw [if_neg hrecord, if_neg habove, hp, temporaryRecordPath, h.temporaryRecord]
  · rfl

/-- A record can be written at the end of an operation. -/
theorem finish_ok {α : Type} {s : Store} {r : ProjectRecord} (a : α) (h : Layout r.id s.tree) :
    ∃ t, s.finish r a = ({ s with tree := t }, .ok a) ∧ ∀ p, t.at? p =
      if p = recordPath r.id then some (.file (.record r))
      else if p <+: projectDir r.id then some .directory else s.tree.at? p := by
  obtain ⟨t, ht, hat⟩ := writeRecord_ok h
  exact ⟨t, by rw [finish, ht], hat⟩

/-! ## Removing -/

/-- Removing the data of entries removes their data files. -/
theorem foldl_removeData (s : Store) (id : String) (es : List HistoryEntry) :
    es.foldl (fun s e => s.removeData id e) s =
      { s with
        tree := (es.map fun e => dataPath id e.dataFile).foldl FileTree.removeFile s.tree } := by
  induction es generalizing s with
  | nil => rfl
  | cons e es ih =>
    rw [List.foldl_cons, ih]
    rfl

/-- Removing the data files of entries removes them and nothing else. -/
theorem at?_removeAll {s : Store} {id : String} {es : List HistoryEntry} (h : Layout id s.tree)
    (hes : ∀ e ∈ es, NamedFor e.commit e.dataFile) :
    ∃ t, es.foldl (fun s e => s.removeData id e) s = { s with tree := t } ∧ ∀ p, t.at? p =
      if p ∈ es.map (fun e => dataPath id e.dataFile) then none else s.tree.at? p := by
  refine ⟨_, foldl_removeData s id es, FileTree.at?_removeFiles fun p hp => ?_⟩
  obtain ⟨e, he, rfl⟩ := List.mem_map.mp hp
  refine ⟨?_, h.dataPath_ne_directory (hes e he)⟩
  obtain ⟨name, hname, hfile⟩ := (hes e he).exists_plain
  rw [hfile, dataPath_dataFileNamed id hname]
  simp [commitPath]

/-- Removing what may be left of a data file removes that and nothing else. -/
theorem at?_removePartial {s : Store} {id name : String} (h : Clear id name s.tree)
    (hname : IsPlain name) :
    ∃ t, s.removePartial id (temporaryFile (dataFileNamed name)) = { s with tree := t } ∧
      ∀ p, t.at? p = if p ∈ partialPaths id name then none else s.tree.at? p := by
  refine ⟨_, rfl, fun p => ?_⟩
  rw [← List.foldl_map, map_dataPath_partialFiles id hname]
  refine FileTree.at?_removeFiles (fun q hq => ⟨?_, h.partials q hq⟩) p
  obtain ⟨entry, rfl⟩ := exists_commitPath_of_mem_partialPaths hq
  simp [commitPath]

/-! ## Snapshots -/

section
variable {s : Store} {id name : String} {new : NewGraph} {now : Instant} {progress : List Progress}

/-- The temporary form of a data file stands where partial files are looked for. -/
theorem dataPath_temporaryFile (hname : IsPlain name) :
    dataPath id (temporaryFile (dataFileNamed name)) = temporaryPath id name := by
  rw [temporaryFile_dataFileNamed hname, dataPath_commits id (hname.isName _ (by decide))]
  rfl

/-- The temporary file can be created in the directory with the snapshots. -/
theorem createTemporary (h : Clear id name s.tree) (hname : IsPlain name)
    (hdir : s.tree.at? (projectDir id ++ [commitsDir]) = some .directory) :
    ∃ created, s.tree.writeFile (dataPath id (temporaryFile (dataFileNamed name)))
        (.snapshot {}) = .ok created ∧
      ∀ p, created.at? p = if p = temporaryPath id name
        then some (.file (.snapshot {})) else s.tree.at? p := by
  have hne : temporaryPath id name ≠ [] := by simp [temporaryPath, commitPath]
  have hparent : s.tree.at? (temporaryPath id name).dropLast =
      some .directory := by
    have : (temporaryPath id name).dropLast = projectDir id ++ [commitsDir] := by
      simp [temporaryPath, commitPath]
    rw [this, hdir]
  have hplace := h.partials _ (temporaryPath_mem_partialPaths id name)
  rw [dataPath_temporaryFile hname]
  exact ⟨_, FileTree.writeFile_ok hne hparent hplace _, FileTree.at?_write hne hparent hplace _⟩

/-- A snapshot that breaks a rule leaves an empty temporary file behind. -/
theorem placeSnapshot_error {e : StoreError} (h : Clear id name s.tree) (hname : IsPlain name)
    (hdir : s.tree.at? (projectDir id ++ [commitsDir]) = some .directory)
    (hsnap : snapshotOf new now = (progress, .error e)) :
    ∃ t, s.placeSnapshot id (dataFileNamed name) new now =
        ({ s with tree := t }, progress, .error (.store e)) ∧
      ∀ p, t.at? p = if p = temporaryPath id name
        then some (.file (.snapshot {})) else s.tree.at? p := by
  obtain ⟨created, hcreated, hat⟩ := createTemporary h hname hdir
  exact ⟨created, by simp [placeSnapshot, hcreated, hsnap], hat⟩

/-- A snapshot that keeps the rules comes to its place, and the temporary file is gone. -/
theorem placeSnapshot_ok {snapshot : Snapshot} (h : Clear id name s.tree) (hname : IsPlain name)
    (hdir : s.tree.at? (projectDir id ++ [commitsDir]) = some .directory)
    (hsnap : snapshotOf new now = (progress, .ok snapshot)) :
    ∃ t, s.placeSnapshot id (dataFileNamed name) new now =
        ({ s with tree := t }, progress, .ok ()) ∧
      ∀ p, t.at? p = if p = temporaryPath id name then none
        else if p = dataPath id (dataFileNamed name) then some (.file (.snapshot snapshot))
        else s.tree.at? p := by
  obtain ⟨created, hcreated, hat⟩ := createTemporary h hname hdir
  have hdata := dataPath_dataFileNamed id hname
  have hne : temporaryPath id name ≠ dataPath id (dataFileNamed name) := by
    rw [hdata]
    intro he
    have := congrArg String.length (commitPath_inj he)
    simp only [String.length_append] at this
    exact absurd (Nat.add_left_cancel this) (by decide)
  have hparent : ∀ entry, created.at? (commitPath id entry).dropLast = some .directory := by
    intro entry
    have hdrop : (commitPath id entry).dropLast = projectDir id ++ [commitsDir] := by
      simp [commitPath]
    rw [hdrop, hat, if_neg (by simp [temporaryPath, commitPath]), hdir]
  have htmp : created.at? (temporaryPath id name) ≠ some .directory := by
    rw [hat, if_pos rfl]
    simp
  have hfull := FileTree.at?_write (p := temporaryPath id name)
    (by simp [temporaryPath, commitPath])
    (hparent _) htmp (Stored.snapshot snapshot)
  generalize hw : created.write (temporaryPath id name) (.snapshot snapshot) = full
    at hfull
  have hsource : full.at? (temporaryPath id name) =
      some (.file (.snapshot snapshot)) := by rw [hfull, if_pos rfl]
  have htarget : full.at? (dataPath id (dataFileNamed name)) ≠ some .directory := by
    rw [hfull, if_neg hne.symm, hat, if_neg hne.symm]
    exact h.data
  have hinto : full.at? (dataPath id (dataFileNamed name)).dropLast = some .directory := by
    have hlong : (commitPath id (name ++ "." ++ "db")).dropLast ≠
        temporaryPath id name := fun he => by
      have := congrArg List.length he
      simp [temporaryPath, commitPath] at this
    rw [hdata, hfull, if_neg hlong, hparent]
  obtain ⟨moved, hmoved, hat'⟩ := FileTree.rename_ok hsource (by simp [temporaryPath, commitPath])
    (by simp [hdata, commitPath]) hinto htarget hne
  refine ⟨moved, ?_, fun p => ?_⟩
  · rw [dataPath_temporaryFile hname] at hcreated
    simp [placeSnapshot, dataPath_temporaryFile hname, hcreated, hsnap, hw, hmoved]
  · rw [hat', hfull, hat]
    by_cases hp : p = temporaryPath id name
    · simp only [if_pos hp]
    · simp only [if_neg hp]

end

end CallImpact.Store
