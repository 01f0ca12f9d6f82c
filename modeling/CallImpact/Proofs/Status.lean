import CallImpact.Status
import CallImpact.Proofs.Store.Projects
import CallImpact.Proofs.Worktree
import Mathlib.Data.List.Find

/-!
# The status reflects the run

The status of a project goes by the entries whose commit begins with the wanted one, or the other
way round, and whose data file is there. After a run every entry of a history has its own data
file (`Store.Backed.hasFile`), and commits of one length begin alike only when they are the same,
so the entry that is found is the one of the wanted commit (`Store.entryFor?_eq`). What a status
says of a commit is therefore what the run left of it (`status_reflects_run`).
-/

namespace CallImpact

namespace Store

/-- Every entry of a history after a run has its data file. -/
theorem Backed.hasFile {t : FileTree Stored} {id : String} {saved : List (NewGraph × Instant)}
    {history : List HistoryEntry} (h : Backed t id saved history) {e : HistoryEntry}
    (he : e ∈ history) : t.hasFile (dataPath id e.dataFile) := by
  obtain ⟨_, _, _, snapshot, -, -, -, hat⟩ := h.stored e he
  rw [FileTree.hasFile, FileTree.content?, FileTree.get?_of_at?_file hat]
  rfl

section
variable {policy : RetentionPolicy} {id : String} {run : Run} {now : Instant}
  {record : Option ProjectRecord}

/-- Among commits of one length, the entry that a status goes by is the one of the wanted commit. -/
theorem entryFor?_eq (h : Sound policy id run now record) {wanted : String}
    (hlength : ∀ e ∈ historyOf record, e.commit.length = wanted.length) :
    run.store.entryFor? id wanted = .ok ((historyOf record).find? (·.commit == wanted)) := by
  have hmatch : ∀ e ∈ historyOf record,
      ((Text.startsWith e.commit wanted || Text.startsWith wanted e.commit) &&
        run.store.tree.hasFile (dataPath id e.dataFile)) = (e.commit == wanted) := by
    intro e he
    rw [h.backed.hasFile he, Bool.and_true, Bool.eq_iff_iff, Bool.or_eq_true,
      Text.startsWith_iff_eq (hlength e he), Text.startsWith_iff_eq (hlength e he).symm, beq_iff_eq]
    exact ⟨fun heq => heq.elim (fun heq => heq) Eq.symm, .inl⟩
  rw [entryFor?, h.holds.read]
  exact congrArg Except.ok (List.find?_congr hmatch)

end

end Store

open Session Store

/-! ## What a status is asked about -/

/-- What a target stands for: the commit that is checked out, where there is no target or it is
empty or `HEAD`, else the commit that version control finds for it. -/
inductive StandsFor (limits : TimeoutSettings) (repo : Path) (head : String) (host : Host)
    (w : World) : Option String → String → World → Prop where
  | head {target : Option String} :
      (∀ reference ∈ target, Text.trim reference = "" ∨ Text.trim reference = "HEAD") →
      StandsFor limits repo head host w target head w
  | resolved {reference wanted : String} {w₁ : World} : Text.trim reference ≠ "" →
      Text.trim reference ≠ "HEAD" →
      exec (Vcs.commitOf limits repo (Text.trim reference)) host w = (.ok wanted, w₁) →
      StandsFor limits repo head host w (some reference) wanted w₁

section
variable {limits : TimeoutSettings} {repo : Path} {head wanted : String} {target : Option String}
  {host : Host} {w w₁ : World}

/-- A target that stands for a commit is resolved to it. -/
theorem StandsFor.exec_eq (h : StandsFor limits repo head host w target wanted w₁) :
    exec (wantedCommit limits repo head target) host w = (.ok wanted, w₁) := by
  cases h with
  | head hhead =>
    cases target with
    | none => rfl
    | some reference =>
      rcases hhead reference rfl with h | h
      · simp only [wantedCommit, Option.map_some, h, exec_pure]
      · simp only [wantedCommit, Option.map_some, h, exec_pure]
  | resolved hempty hnot hresolved =>
    rw [wantedCommit, Option.map_some]
    split
    · rename_i hnone
      exact absurd hnone (Option.some_ne_none _)
    · rename_i hreference
      exact absurd (Option.some.inj hreference) hempty
    · rename_i hreference
      exact absurd (Option.some.inj hreference) hnot
    · rename_i hreference
      rw [← Option.some.inj hreference]
      exact hresolved

/-- Finding out what a target stands for leaves the store alone. -/
theorem StandsFor.store_eq (h : StandsFor limits repo head host w target wanted w₁) :
    w₁.store = w.store := by
  cases h with
  | head _ => rfl
  | @resolved reference _ _ _ _ hresolved =>
    have hspared := Worktree.spares_commitOf limits repo (Text.trim reference) host w
    rw [hresolved] at hspared
    exact hspared.store

/-- The commit that is checked out is the one that the repository names. -/
theorem exec_head {repository : Repository} (hrepo : Vcs.repositoryAt host w repo = some repository)
    (hhead : repository.head = some head) :
    exec (liftVcs (Vcs.head repo)) host w = (.ok head, w) := by
  obtain ⟨checkedOut, branch, remote⟩ := repository
  cases hhead
  have hlift : (Vcs.repository? repo host w).1 = some ⟨some head, branch, remote⟩ := hrepo
  rw [liftVcs, exec_adapt, Vcs.head, exec_bind_ok (exec_lift _), hlift]
  rfl

/-! ## What a status says -/

/-- A status with the number of commits since then, which is kept as it is where they could not be
counted. -/
def withCount (status : Status) : Except VcsError Nat → Status
  | .ok n => { status with commitsBehind := n }
  | .error _ => status

/-- The status goes by the entry of the store; commits are counted where it is not up to date. -/
theorem exec_checkStatus {id : String} {entry : Option HistoryEntry}
    (hhead : exec (liftVcs (Vcs.head repo)) host w = (.ok head, w))
    (hwanted : exec (wantedCommit limits repo head target) host w = (.ok wanted, w₁))
    (hentry : w₁.store.entryFor? id wanted = .ok entry) :
    ∃ w', exec (checkStatus limits id repo target) host w =
      (.ok (match entry with
        | none => w₁.store.statusOf id head none
        | some e =>
          if (w₁.store.statusOf id head (some e)).upToDate then w₁.store.statusOf id head (some e)
          else withCount (w₁.store.statusOf id head (some e))
            (exec (Vcs.count limits repo e.commit head) host w₁).1), w') := by
  have hfrom : exec (fromStore fun s => s.entryFor? id wanted) host w₁ = (.ok entry, w₁) :=
    Prod.ext hentry rfl
  rw [checkStatus, exec_bind_ok hhead, exec_bind_ok hwanted, exec_bind_ok hfrom,
    exec_bind_ok exec_get]
  cases entry with
  | none => exact ⟨w₁, rfl⟩
  | some e =>
    dsimp only
    split
    · exact ⟨w₁, rfl⟩
    · rw [exec_bind_ok (exec_attempt _)]
      rcases (exec (Vcs.count limits repo e.commit head) host w₁).1 with error | n
      · exact ⟨_, rfl⟩
      · exact ⟨_, rfl⟩

/-- Whether a status says of the wanted commit what a history and the saves of a run do; `behind` is
what came of counting the commits from there to the one that is checked out. -/
structure Reflects (status : Status) (history : List HistoryEntry)
    (saved : List (NewGraph × Instant)) (head wanted : String) (behind : Except VcsError Nat) :
    Prop where
  head_eq : status.head = some head
  found_iff : status.found ↔ wanted ∈ history.map (·.commit)
  current_eq : status.found → status.current = some wanted
  funcCount_eq : status.found → ∃ new now, lastSaved? saved wanted = some (new, now) ∧
    status.funcCount = some new.graph.nodes.length
  upToDate_iff : status.upToDate ↔ status.found ∧ wanted = head
  behind_eq_zero : ¬ status.found ∨ status.upToDate ∨ (∃ e, behind = .error e) →
    status.commitsBehind = 0
  behind_eq : status.found → ¬ status.upToDate → ∀ n, behind = .ok n → status.commitsBehind = n
  not_found : ¬ status.found → status = { head := some head }
  not_saved : saved = [] → ¬ status.found

/-- Where there is no entry for the wanted commit, no graph is reported. -/
theorem reflects_none {history : List HistoryEntry} {saved : List (NewGraph × Instant)}
    (behind : Except VcsError Nat) (hnone : history.find? (·.commit == wanted) = none) :
    Reflects { head := some head } history saved head wanted behind := by
  have hmem : wanted ∉ history.map (·.commit) := by
    simpa [List.find?_eq_none] using hnone
  exact
    { head_eq := rfl
      found_iff := iff_of_false Bool.false_ne_true hmem
      current_eq := fun h => absurd h Bool.false_ne_true
      funcCount_eq := fun h => absurd h Bool.false_ne_true
      upToDate_iff := iff_of_false Bool.false_ne_true fun h => absurd h.1 Bool.false_ne_true
      behind_eq_zero := fun _ => rfl
      behind_eq := fun h => absurd h Bool.false_ne_true
      not_found := fun _ => rfl
      not_saved := fun _ => Bool.false_ne_true }

section
variable {s : Store} {id : String} {t : FileTree Stored} {history : List HistoryEntry}
  {saved : List (NewGraph × Instant)} {e : HistoryEntry} {behind : Except VcsError Nat}

/-- The entry of a commit is up to date when it is the one that is checked out. -/
theorem upToDate_statusOf_iff (hlength : e.commit.length = head.length) :
    (s.statusOf id head (some e)).upToDate ↔ e.commit = head := by
  simp only [statusOf, Bool.or_eq_true, beq_iff_eq, Text.startsWith_iff_eq hlength.symm]
  exact ⟨fun h => h.elim (fun h => h) Eq.symm, .inl⟩

/-- What is said of an entry reflects the run, when the number of commits is right. -/
theorem reflects_entry (hbacked : Backed t id saved history) (hmem : e ∈ history)
    (hlength : e.commit.length = head.length) (n : Nat)
    (hzero : e.commit = head ∨ (∃ error, behind = .error error) → n = 0)
    (hcounted : e.commit ≠ head → ∀ m, behind = .ok m → n = m) :
    Reflects { s.statusOf id head (some e) with commitsBehind := n } history saved head e.commit
      behind := by
  obtain ⟨new, now, -, -, hlast, heq, -, -⟩ := hbacked.stored e hmem
  have hupToDate : (s.statusOf id head (some e)).upToDate ↔ e.commit = head :=
    upToDate_statusOf_iff hlength
  have hcount : e.funcCount = new.graph.nodes.length := by
    rw [heq]
    rfl
  exact
    { head_eq := rfl
      found_iff := iff_of_true rfl (List.mem_map_of_mem hmem)
      current_eq := fun _ => rfl
      funcCount_eq := fun _ => ⟨new, now, hlast, congrArg some hcount⟩
      upToDate_iff := hupToDate.trans (and_iff_right rfl).symm
      behind_eq_zero := fun h => hzero (h.elim (absurd rfl) (Or.imp_left hupToDate.mp))
      behind_eq := fun _ hnot => hcounted (mt hupToDate.mpr hnot)
      not_found := absurd rfl
      not_saved := fun hnil => absurd (hnil ▸ hlast) (by simp [lastSaved?]) }

/-- The entry for the wanted commit is reported, with what was counted unless it is up to date. -/
theorem reflects_some (hbacked : Backed t id saved history)
    (hsome : history.find? (·.commit == wanted) = some e)
    (hlength : e.commit.length = head.length) :
    Reflects (if (s.statusOf id head (some e)).upToDate then s.statusOf id head (some e)
      else withCount (s.statusOf id head (some e)) behind) history saved head wanted behind := by
  have hmem := List.mem_of_find?_eq_some hsome
  obtain rfl : e.commit = wanted := by simpa using List.find?_some hsome
  split
  · rename_i hupToDate
    exact reflects_entry hbacked hmem hlength 0 (fun _ => rfl)
      fun hne => absurd ((upToDate_statusOf_iff hlength).mp hupToDate) hne
  · rename_i hnot
    have hne := mt (upToDate_statusOf_iff hlength).mpr hnot
    cases behind with
    | ok n => exact reflects_entry hbacked hmem hlength n (by simp [hne]) (by simp)
    | error error => exact reflects_entry hbacked hmem hlength 0 (fun _ => rfl) (by simp)

end

/-- The status of a sound project reflects what its run has left. -/
theorem Store.Sound.status {policy : RetentionPolicy} {id : String} {run : Run} {now : Instant}
    {record : Option ProjectRecord} (h : Sound policy id run now record)
    (hstore : w.store = run.store) {repository : Repository}
    (hrepo : Vcs.repositoryAt host w repo = some repository) (hhead : repository.head = some head)
    (hwanted : StandsFor limits repo head host w target wanted w₁)
    (hcommits : ∀ e ∈ historyOf record, e.commit.length = wanted.length)
    (hlength : head.length = wanted.length) :
    ∃ status w', exec (checkStatus limits id repo target) host w = (.ok status, w') ∧
      Reflects status (historyOf record) run.saved head wanted
        (exec (Vcs.count limits repo wanted head) host w₁).1 := by
  have hentry := entryFor?_eq h hcommits
  rw [← hstore, ← hwanted.store_eq] at hentry
  rcases hfind : (historyOf record).find? (·.commit == wanted) with _ | e
  · rw [hfind] at hentry
    obtain ⟨w', hstatus⟩ := exec_checkStatus (exec_head hrepo hhead) hwanted.exec_eq hentry
    exact ⟨_, w', hstatus, reflects_none _ hfind⟩
  · rw [hfind] at hentry
    obtain ⟨w', hstatus⟩ := exec_checkStatus (exec_head hrepo hhead) hwanted.exec_eq hentry
    obtain rfl : e.commit = wanted := by simpa using List.find?_some hfind
    exact ⟨_, w', hstatus, reflects_some h.backed hfind hlength.symm⟩

/-- After any run of changes to projects that are apart from each other, from an empty data
directory and while the clock does not go back, the status of each project reflects the run: the
graph of the wanted commit is found when the history has it, and is described by the last save for
the commit. A project for which nothing was saved has a status like every other. -/
theorem status_reflects_run (dataDir : String) (policy : RetentionPolicy) {ids : List String}
    (hapart : ids.Pairwise Apart) {steps : List (String × Step)} (hids : ∀ x ∈ steps, x.1 ∈ ids)
    (hadmissible : ∀ x ∈ steps, x.2.IsAdmissible policy)
    (hclock : steps.Pairwise fun a b => a.2.now.le b.2.now) {length : Nat}
    (hcommits : ∀ id name remote new now, (id, Step.mk (.save name remote new) now) ∈ steps →
      new.commit.length = length)
    {id : String} (hid : id ∈ ids)
    (hstore : w.store = ((Runs.start dataDir policy).after steps).store)
    {repository : Repository} (hrepo : Vcs.repositoryAt host w repo = some repository)
    (hhead : repository.head = some head)
    (hwanted : StandsFor limits repo head host w target wanted w₁)
    (hheadLength : head.length = length) (hwantedLength : wanted.length = length) :
    ∃ record status w', w.store.record? id = .ok record ∧
      exec (checkStatus limits id repo target) host w = (.ok status, w') ∧
      Reflects status (historyOf record) (((Runs.start dataDir policy).after steps).saved id) head
        wanted (exec (Vcs.count limits repo wanted head) host w₁).1 := by
  obtain ⟨later, hsound⟩ := Runs.sound_after_start dataDir hapart hids hadmissible hclock
  obtain ⟨record, hsound⟩ := hsound id hid
  have hsame : ∀ e ∈ historyOf record, e.commit.length = wanted.length := by
    intro e he
    obtain ⟨new, now, -, -, hlast, heq, -, -⟩ := hsound.backed.stored e he
    have hcommit : e.commit = new.commit := congrArg HistoryEntry.commit heq
    have hsaved : (new, now) ∈ ((Runs.start dataDir policy).after steps).saved id :=
      List.mem_of_find?_eq_some hlast
    rcases Runs.mem_saved_after hsaved with hnil | ⟨name, remote, hstep⟩
    · cases hnil
    · rw [hcommit, hcommits id name remote new now hstep, hwantedLength]
  obtain ⟨status, w', hstatus, hreflects⟩ := hsound.status hstore hrepo hhead hwanted hsame
    (hheadLength.trans hwantedLength.symm)
  exact ⟨record, status, w', hstore ▸ hsound.holds.read, hstatus, hreflects⟩

end

/-- Two commits of one project are saved, and between them one of another, which is deleted again.
-/
def savedTwice : List (String × Step) :=
  [("p", ⟨.save "p" none { (default : NewGraph) with commit := "aaaaaaaa" }, ⟨1700000000, 0⟩⟩),
    ("q", ⟨.save "q" none { (default : NewGraph) with commit := "cccccccc" }, ⟨1700000000, 0⟩⟩),
    ("p", ⟨.save "p" none { (default : NewGraph) with commit := "bbbbbbbb" }, ⟨1700000060, 0⟩⟩),
    ("q", ⟨.delete "cccccccc", ⟨1700000060, 0⟩⟩)]

/-- The tag `v1` is on the first of these commits, and version control counts two commits since. -/
def twoCommitsLater : Host where
  repository := some { head := some "dddddddd", branch := none, remote := none }
  reply _ _ i _ :=
    { ended := .exited 0 (if i.args.head? = some "rev-parse" then "aaaaaaaa\n" else "2\n") "" }
  clock _ := ⟨1700000120, 0⟩
  suffix _ := ""

/-- The repository after both saves. -/
def afterSavedTwice : World where
  trees := .dir [("repo", .dir [])]
  store := ((Runs.start "data" {}).after savedTwice).store

/-- The case of a tag on the older of two saved commits. -/
theorem status_reflects_run_savedTwice :
    ∃ record status w', afterSavedTwice.store.record? "p" = .ok record ∧
      exec (checkStatus {} "p" ["repo"] (some " v1")) twoCommitsLater afterSavedTwice =
        (.ok status, w') ∧
      Reflects status (historyOf record) (((Runs.start "data" {}).after savedTwice).saved "p")
        "dddddddd" "aaaaaaaa" (.ok 2) := by
  obtain ⟨wanted, w₁, hwanted, rfl⟩ : ∃ wanted w₁,
      exec (Vcs.commitOf {} ["repo"] (Text.trim " v1")) twoCommitsLater afterSavedTwice =
        (.ok wanted, w₁) ∧ wanted = "aaaaaaaa" :=
    exists_ok_of_map (by decide +kernel)
  have hcommits : ∀ id name remote new now,
      (id, Step.mk (.save name remote new) now) ∈ savedTwice → new.commit.length = 8 := by
    intro id name remote new now hmem
    simp only [savedTwice, List.mem_cons, Prod.mk.injEq, Step.mk.injEq, Change.save.injEq,
      reduceCtorEq, List.not_mem_nil, and_false, false_and, or_false] at hmem
    rcases hmem with ⟨-, ⟨-, -, rfl⟩, -⟩ | ⟨-, ⟨-, -, rfl⟩, -⟩ | ⟨-, ⟨-, -, rfl⟩, -⟩
    all_goals rfl
  have hids : ∀ x ∈ savedTwice, x.1 ∈ ["p", "q"] := by decide
  have hcounted :
      (exec (Vcs.count {} ["repo"] "aaaaaaaa" "dddddddd") twoCommitsLater w₁).1 = .ok 2 := by
    have hworld : (exec (Vcs.commitOf {} ["repo"] (Text.trim " v1")) twoCommitsLater
        afterSavedTwice).2 = w₁ := congrArg Prod.snd hwanted
    rw [← hworld]
    decide +kernel
  rw [← hcounted]
  exact status_reflects_run "data" {}
    (by simpa using apart_of_ne (by decide) (by decide) (by decide))
    hids (by decide +kernel) (by decide) hcommits (by decide) rfl rfl rfl
    (.resolved (by decide) (by decide) hwanted) rfl rfl

end CallImpact
