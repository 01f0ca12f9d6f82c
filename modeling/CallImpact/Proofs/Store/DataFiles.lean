import CallImpact.Store
import CallImpact.Proofs.Path

/-!
# Names of data files

Commits are named by ASCII letters and digits, more than seven of them (`IsCommit`). A data file is
named for the first seven or for all of them (`NamedFor`), and which it is depends on the files
that other commits have. `dataFile?_spec` says that the choice never falls on the file of another
commit. All data files are entries of one directory (`dataPath_dataFileNamed`), and the names under
which they are written first are none of theirs (`dataPath_not_mem_partialPaths`).
-/

namespace CallImpact.Store

/-! ## Letters and digits -/

/-- Whether a text consists of ASCII letters and digits, at least one of them. -/
def IsPlain (s : String) : Prop :=
  s ≠ "" ∧ ∀ c ∈ s.toList, c.isAlphanum

/-- Whether a text can be a commit whose data file may get a short name. -/
def IsCommit (s : String) : Prop :=
  7 < s.length ∧ ∀ c ∈ s.toList, c.isAlphanum

instance (s : String) : Decidable (IsPlain s) :=
  decidable_of_iff (s ≠ "" ∧ s.toList.all Char.isAlphanum) (by simp [IsPlain])

instance (s : String) : Decidable (IsCommit s) :=
  decidable_of_iff (7 < s.length ∧ s.toList.all Char.isAlphanum) (by simp [IsCommit])

/-- The name of a commit is plain. -/
theorem IsCommit.isPlain {s : String} (h : IsCommit s) : IsPlain s := by
  refine ⟨fun he => ?_, h.2⟩
  have := h.1
  simp [he] at this

/-- Letters and digits take one byte. -/
theorem utf8Size_of_isAlphanum {c : Char} (h : c.isAlphanum) : c.utf8Size = 1 := by
  have hle : c.val ≤ 0x7F := by
    change ((decide (c.val ≥ 65 ∧ c.val ≤ 90) || (c.val ≥ 97 && c.val ≤ 122)) ||
      (c.val ≥ 48 && c.val ≤ 57)) = true at h
    simp only [Bool.or_eq_true, Bool.and_eq_true, decide_eq_true_eq, UInt32.le_iff_toNat_le] at h ⊢
    simp at h ⊢
    omega
  simp [Char.utf8Size, hle]

/-- A cut through letters and digits falls between characters. -/
theorem firstBytes?_of_isAlphanum {cs : List Char} (h : ∀ c ∈ cs, c.isAlphanum) (count : Nat) :
    firstBytes? count cs = some (cs.take count) := by
  induction cs generalizing count with
  | nil => simp [firstBytes?]
  | cons c cs ih =>
    have hc := utf8Size_of_isAlphanum (h c List.mem_cons_self)
    have hcs := ih fun x hx => h x (List.mem_cons_of_mem c hx)
    cases count with
    | zero => rfl
    | succ n => simp [firstBytes?, hc, hcs]

/-- Of a text that starts with letters and digits before a point, the point shows where they end. -/
theorem append_point_inj {a b x y : List Char} (ha : ∀ c ∈ a, c.isAlphanum)
    (hb : ∀ c ∈ b, c.isAlphanum) (h : a ++ '.' :: x = b ++ '.' :: y) : a = b ∧ x = y := by
  induction a generalizing b with
  | nil =>
    cases b with
    | nil => simpa using h
    | cons d b =>
      obtain ⟨hd, -⟩ := List.cons.inj h
      exact absurd (hb d List.mem_cons_self) (by rw [← hd]; decide)
  | cons c a ih =>
    cases b with
    | nil =>
      obtain ⟨hc, -⟩ := List.cons.inj h
      exact absurd (ha c List.mem_cons_self) (by rw [hc]; decide)
    | cons d b =>
      obtain ⟨rfl, htail⟩ := List.cons.inj h
      obtain ⟨rfl, rfl⟩ := ih (fun x hx => ha x (List.mem_cons_of_mem _ hx))
        (fun x hx => hb x (List.mem_cons_of_mem _ hx)) htail
      exact ⟨rfl, rfl⟩

/-! ## Data files -/

/-- The first seven characters of a commit. -/
def shortName (commit : String) : String :=
  String.ofList (commit.toList.take 7)

/-- A short name has seven characters. -/
theorem length_shortName {commit : String} (h : IsCommit commit) :
    (shortName commit).length = 7 := by
  have := h.1
  rw [← String.length_toList] at this
  simp [shortName]
  omega

/-- The short form of a plain name is plain. -/
theorem IsPlain.shortName {commit : String} (h : IsPlain commit) : IsPlain (shortName commit) := by
  refine ⟨fun he => ?_, fun c hc => h.2 c ?_⟩
  · have hnil := congrArg String.toList he
    rw [Store.shortName, String.toList_ofList, String.toList_empty, List.take_eq_nil_iff] at hnil
    exact h.1 (String.toList_inj.mp (hnil.resolve_left (by decide)))
  · rw [Store.shortName, String.toList_ofList] at hc
    exact List.mem_of_mem_take hc

/-- Different names give different data files. -/
theorem dataFileNamed_inj {a b : String} (h : dataFileNamed a = dataFileNamed b) : a = b := by
  simpa [dataFileNamed, ← String.toList_inj] using h

/-- Whether the data file of an entry is named for its commit, in short or in full. -/
def NamedFor (commit dataFile : String) : Prop :=
  IsCommit commit ∧ (dataFile = dataFileNamed (shortName commit) ∨ dataFile = dataFileNamed commit)

/-- A data file named for a commit has a plain name. -/
theorem NamedFor.exists_plain {commit file : String} (h : NamedFor commit file) :
    ∃ name, IsPlain name ∧ file = dataFileNamed name := by
  rcases h with ⟨hc, rfl | rfl⟩
  · exact ⟨_, hc.isPlain.shortName, rfl⟩
  · exact ⟨_, hc.isPlain, rfl⟩

/-- A data file is named for something. -/
theorem exists_dataFileNamed {r : ProjectRecord} {commit file : String}
    (h : dataFile? r commit = some file) : ∃ name, file = dataFileNamed name := by
  unfold dataFile? at h
  obtain ⟨short, -, rfl⟩ := Option.map_eq_some_iff.mp h
  dsimp only
  split
  · exact ⟨_, rfl⟩
  · exact ⟨_, rfl⟩

/-- A plain commit gets a data file, in short unless another commit has that. -/
theorem dataFile?_eq (r : ProjectRecord) {commit : String} (h : IsPlain commit) :
    dataFile? r commit = some (
      if r.history.any fun e => e.commit != commit && e.dataFile == dataFileNamed (shortName commit)
      then dataFileNamed commit else dataFileNamed (shortName commit)) := by
  rw [dataFile?, firstBytes?_of_isAlphanum h.2 7, Option.map_some]
  rfl

/-- A commit gets a data file named for it that no other commit has. -/
theorem dataFile?_spec {r : ProjectRecord} {commit : String} (hc : IsCommit commit)
    (hr : ∀ e ∈ r.history, NamedFor e.commit e.dataFile) :
    ∃ file, dataFile? r commit = some file ∧ NamedFor commit file ∧
      ∀ e ∈ r.history, e.commit ≠ commit → e.dataFile ≠ file := by
  have hfile := dataFile?_eq r hc.isPlain
  refine ⟨_, hfile, ?_⟩
  split
  · refine ⟨⟨hc, .inr rfl⟩, fun e he hne heq => ?_⟩
    -- a full name is longer than any short one, and another commit has another full name
    obtain ⟨hec, hshort | hfull⟩ := hr e he
    · have hlen := congrArg String.length (dataFileNamed_inj (hshort.symm.trans heq))
      rw [length_shortName hec] at hlen
      exact absurd hc.1 (by omega)
    · exact hne (dataFileNamed_inj (hfull.symm.trans heq))
  · rename_i hfree
    refine ⟨⟨hc, .inl rfl⟩, fun e he hne heq => hfree ?_⟩
    rw [List.any_eq_true]
    exact ⟨e, he, by rw [Bool.and_eq_true]; exact ⟨by simpa using hne, by simpa using heq⟩⟩

/-! ## Where data files are -/

/-- The place of an entry of the directory with the snapshots of a project. -/
def commitPath (id entry : String) : Path :=
  projectDir id ++ [commitsDir, entry]

/-- Files at one path below the directory of snapshots have one name. -/
theorem commitPath_inj {id a b : String} (h : commitPath id a = commitPath id b) : a = b := by
  simpa [commitPath] using h

/-- A file name that starts with a plain text before a point is the name of an entry. -/
theorem IsPlain.isName {name : String} (h : IsPlain name) (rest : String)
    (hr : '/' ∉ rest.toList) : IsName (name ++ "." ++ rest) := by
  obtain ⟨hne, hall⟩ := h
  have hslash : '/' ∉ name.toList := fun hm => absurd (hall '/' hm) (by decide)
  cases hcs : name.toList with
  | nil => exact absurd (String.toList_inj.mp (by simpa using hcs)) hne
  | cons c cs =>
    have hc : c ≠ '.' := by
      rintro rfl
      exact absurd (hall '.' (by simp [hcs])) (by decide)
    have hstr : name ++ "." ++ rest = String.ofList (c :: (cs ++ '.' :: rest.toList)) := by
      simp [← String.toList_inj, hcs]
    rw [hcs] at hslash
    rw [hstr]
    refine IsName.of_head hc ?_
    simp only [List.mem_cons, List.mem_append, not_or] at hslash ⊢
    exact ⟨hslash.1, hslash.2, by decide, hr⟩

/-- A path below the directory with the snapshots is the path of an entry of it. -/
theorem dataPath_commits (id : String) {entry : String} (h : IsName entry) :
    dataPath id (commitsDir ++ "/" ++ entry) = commitPath id entry := by
  have htext : commitsDir ++ "/" ++ entry = Path.text [commitsDir, entry] := by
    simp [Path.text, String.intercalate_cons_cons]
  rw [dataPath, htext, pathOf_append id (by simp)]
  · rfl
  · intro c hc
    rcases List.mem_pair.mp hc with rfl | rfl
    · decide
    · exact h

/-- Where a data file with a plain name is. -/
theorem dataPath_dataFileNamed (id : String) {name : String} (h : IsPlain name) :
    dataPath id (dataFileNamed name) = commitPath id (name ++ "." ++ "db") := by
  have hfile : dataFileNamed name = commitsDir ++ "/" ++ (name ++ "." ++ "db") := by
    simp [dataFileNamed, ← String.toList_inj]
  rw [hfile, dataPath_commits id (h.isName "db" (by decide))]

/-- Where data files of different names are. -/
theorem dataPath_dataFileNamed_inj {id a b : String} (ha : IsPlain a) (hb : IsPlain b)
    (h : dataPath id (dataFileNamed a) = dataPath id (dataFileNamed b)) : a = b := by
  rw [dataPath_dataFileNamed id ha, dataPath_dataFileNamed id hb] at h
  simpa [← String.toList_inj] using commitPath_inj h

/-! ## Last letters of places -/

section
variable (id name : String)

/-- The path of a data file ends in a `b`. -/
theorem lastLetter?_dataFileNamed : (dataPath id (dataFileNamed name)).lastLetter? = some 'b' := by
  have hpath : dataPath id (dataFileNamed name) =
      pathOf (id ++ "/" ++ (commitsDir ++ "/" ++ name) ++ ".db") := by
    simp [dataPath, dataFileNamed, String.append_assoc]
  rw [hpath, lastLetter?_pathOf_append _ (by decide) (by decide)]
  rfl

/-- The path of a temporary data file ends in a `p`. -/
theorem lastLetter?_temporaryFile (file : String) :
    (dataPath id (temporaryFile file)).lastLetter? = some 'p' := by
  have hending : ∃ start, id ++ "/" ++ temporaryFile file = start ++ ".tmp" := by
    unfold temporaryFile
    dsimp only
    split
    · exact ⟨id ++ "/" ++ (file ++ ".db"), by simp [← String.toList_inj]⟩
    · exact ⟨id ++ "/" ++ file, by simp [String.append_assoc]⟩
  obtain ⟨start, hstart⟩ := hending
  rw [dataPath, hstart, lastLetter?_pathOf_append _ (by decide) (by decide)]
  rfl

/-- The path of a record ends in an `n`. -/
theorem lastLetter?_recordPath : (recordPath id).lastLetter? = some 'n' := by
  rw [recordPath, Path.lastLetter?_concat]
  rfl

end

/-! ## What is left of a file that is being written -/

/-- What the name of a file may end in while it is being written. -/
def partialEndings : List String :=
  ["", "-wal", "-shm", "-journal"]

/-- Where what is left of a data file with a plain name may be. -/
def partialPaths (id name : String) : List Path :=
  partialEndings.map fun ending => commitPath id (name ++ "." ++ ("db.tmp" ++ ending))

/-- The temporary name of a data file with a plain name. -/
theorem temporaryFile_dataFileNamed {name : String} (h : IsPlain name) :
    temporaryFile (dataFileNamed name) = commitsDir ++ "/" ++ (name ++ "." ++ "db.tmp") := by
  have hfile : dataFileNamed name = commitsDir ++ "/" ++ (name ++ "." ++ "db") := by
    simp [dataFileNamed, ← String.toList_inj]
  have hname := h.isName "db" (by decide)
  have hne : name ++ "." ++ "db" ≠ ".db" := fun he => h.1 <| by
    have := congrArg String.length he
    rw [String.length_append, String.length_append] at this
    exact String.length_eq_zero_iff.mp (Nat.add_right_cancel (Nat.add_right_cancel this))
  rw [temporaryFile, hfile, Text.lastPiece_append _ hname.2.2.2, if_neg hne]
  simp [← String.toList_inj]

/-- Where what may be left of a data file with a plain name is. -/
theorem map_dataPath_partialFiles (id : String) {name : String} (h : IsPlain name) :
    (partialFiles (temporaryFile (dataFileNamed name))).map (dataPath id) =
      partialPaths id name := by
  have hpath : ∀ ending ∈ partialEndings,
      dataPath id (commitsDir ++ "/" ++ (name ++ "." ++ "db.tmp") ++ ending) =
        commitPath id (name ++ "." ++ ("db.tmp" ++ ending)) := by
    intro ending hending
    have hslash : '/' ∉ ("db.tmp" ++ ending).toList := by
      revert ending
      decide
    rw [← dataPath_commits id (h.isName _ hslash)]
    congr 1
    simp [← String.toList_inj]
  have hfiles : partialFiles (temporaryFile (dataFileNamed name)) =
      partialEndings.map fun ending =>
        commitsDir ++ "/" ++ (name ++ "." ++ "db.tmp") ++ ending := by
    simp [partialFiles, partialEndings, temporaryFile_dataFileNamed h]
  rw [hfiles, List.map_map, partialPaths]
  exact List.map_congr_left hpath

/-- What is left of a file that is being written is never in the place of a data file. -/
theorem dataPath_not_mem_partialPaths {id a b : String} (ha : IsPlain a) (hb : IsPlain b) :
    dataPath id (dataFileNamed a) ∉ partialPaths id b := by
  rw [dataPath_dataFileNamed id ha]
  intro hmem
  obtain ⟨ending, -, he⟩ := List.mem_map.mp hmem
  have hcs := congrArg String.toList (commitPath_inj he)
  simp only [String.toList_append, List.append_assoc] at hcs
  obtain ⟨-, htail⟩ := append_point_inj hb.2 ha.2 hcs
  simp at htail

end CallImpact.Store
