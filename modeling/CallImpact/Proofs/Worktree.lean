import CallImpact.Worktree
import CallImpact.Proofs.Session
import CallImpact.Proofs.Text.Cut

/-!
# Working copies do not last

A working copy is torn down in one of two ways (`Torn`): the command for it succeeds, or its
directory is deleted and the list of working copies brought up to date. Either way nothing is left
at its path (`exec_discard`). So a working copy that could not be created, and one in which an
operation has ended, are gone, whatever comes of the commands (`nothing_left_behind`).

None of this touches what the program keeps for itself (`spares_within`), nor does the question
whether a reference stands for what is checked out (`isHead_ok`).
-/

namespace CallImpact.Worktree

open Session

/-! ## Events -/

/-- The ways to tear down the working copy at a path: it is removed, or, where that fails, deleted
before the list of working copies is brought up to date. -/
inductive Torn (repo path : Path) : List Event → Prop where
  | removed {ended : Ended} : Succeeded ended →
      Torn repo path [.git repo (.removeWorktree path) ended]
  | deleted {ended pruned : Ended} : ¬ Succeeded ended →
      Torn repo path [.git repo (.removeWorktree path) ended, .deleted path,
        .git repo .pruneWorktrees pruned]

/-- The attempts to check out a commit among events: the path, and how the attempt ended. -/
def addsIn (events : List Event) : List (Path × Ended) :=
  events.filterMap fun
    | .git _ (.addWorktree path _) ended => some (path, ended)
    | _ => none

/-- Whether a command has failed with a message about a lock. -/
def FailedLocked : Ended → Prop
  | .exited status _ err => status ≠ 0 ∧ Text.contains err "lock"
  | _ => False

@[simp] theorem addsIn_append (a b : List Event) : addsIn (a ++ b) = addsIn a ++ addsIn b :=
  List.filterMap_append

/-- Tearing down a working copy makes no attempt to check it out. -/
theorem Torn.addsIn_eq {repo path : Path} {events : List Event} (h : Torn repo path events) :
    addsIn events = [] := by
  cases h with
  | removed _ => rfl
  | deleted _ => rfl

/-! ## Teardown -/

section
variable {c : Config} {repo path : Path} {commit reference : String} {host : Host} {w : World}

/-- Whatever comes of the commands, a working copy is torn down and nothing is left at its path. -/
theorem exec_discard (c : Config) (repo : Path) (host : Host) (w : World) (hpath : path ≠ []) :
    ∃ torn w', discard c repo path host w = ((), w') ∧ Torn repo path torn ∧
      w'.events = w.events ++ torn ∧ w'.trees.at? path = none ∧ Untouched w w' := by
  have hdiscard : discard c repo path host w = ((), (exec (remove c repo path) host w).2) := rfl
  have hgone : ∀ trees : FileTree Content, (FileTree.remove path trees).at? path = none := by
    intro trees
    rw [FileTree.at?_remove hpath, if_pos (List.prefix_refl path)]
  obtain ⟨reply, w₁, -, hafter, ⟨out, err, hgit, hended⟩ | ⟨e, hgit, houtcome⟩⟩ :=
    git_cases repo (.removeWorktree path) c.limits.worktreeRemove host w
  · have hremove : exec (remove c repo path) host w = (.ok (), w₁) := by
      rw [remove, exec_bind_ok (by rw [exec_attempt, hgit]), exec_pure]
    rw [hdiscard, hremove]
    refine ⟨_, w₁, rfl, .removed (by rw [hended]; trivial), hafter.events, ?_, hafter.untouched⟩
    rw [hafter.trees]
    simp only [GitCommand.effect, hended]
    exact hgone _
  · have hremove : exec (remove c repo path) host w = exec (do
        let _ ← liftVcs (git repo .pruneWorktrees c.limits.worktreeRemove) : Action Unit) host
          (delete path host w₁).2 := by
      rw [remove, exec_bind_ok (by rw [exec_attempt, hgit])]
      rfl
    have hdeleted := delete_after path host w₁
    obtain ⟨pruned, w₂, -, hpruned, hcases⟩ :=
      git_cases repo .pruneWorktrees c.limits.worktreeRemove host (delete path host w₁).2
    have hw₂ : (exec (remove c repo path) host w).2 = w₂ := by
      rw [hremove]
      obtain ⟨out, err, hgit, -⟩ | ⟨e, hgit, -⟩ := hcases
      · rw [exec_bind_ok (by rw [liftVcs, exec_adapt, hgit]; rfl), exec_pure]
      · rw [exec_bind_error (by rw [liftVcs, exec_adapt, hgit]; rfl)]
    rw [hdiscard, hw₂]
    refine ⟨[.git repo (.removeWorktree path) reply.ended, .deleted path,
      .git repo .pruneWorktrees pruned.ended], w₂, rfl, .deleted (outcome_eq_error houtcome), ?_,
      ?_, (hafter.untouched.trans hdeleted.untouched).trans hpruned.untouched⟩
    · rw [hpruned.events, hdeleted.events, hafter.events]
      simp
    · rw [hpruned.trees]
      simp only [GitCommand.effect]
      rw [hdeleted.trees]
      exact hgone _

/-! ## Creation -/

/-- What a failure to check out a commit says about a lock stands in the message of the command. -/
theorem failedLocked_of_isLocked {i : Invocation} {limit : Nat} {ended : Ended} {e : VcsError}
    (h : outcome i limit ended = .error e) (hlocked : isLocked e) : FailedLocked ended := by
  unfold outcome at h
  split at h
  · cases h
  · rename_i status out err hstatus
    cases h
    exact ⟨hstatus, Text.contains_of_contains_trim hlocked⟩
  · cases h
    cases hlocked
  · cases h
    cases hlocked

/-- What was done to check out a commit into a directory: it was tried a few times, again only after
a failure that had to do with a lock. -/
structure Tried (path : Path) (events : List Event) : Prop where
  path : ∀ x ∈ addsIn events, x.1 = path
  length_le : (addsIn events).length ≤ addAttempts
  locked : ∀ x ∈ (addsIn events).dropLast, FailedLocked x.2

/-- Before a commit is checked out, a reference is resolved. -/
theorem Tried.resolved {path : Path} {events : List Event} (h : Tried path events) (repo : Path)
    (reference : String) (ended : Ended) :
    Tried path (.git repo (.resolve reference) ended :: events) :=
  ⟨h.path, h.length_le, h.locked⟩

/-- Whether the working trees are as a successful command that checks out a commit leaves them. -/
def CheckedOut (host : Host) (path : Path) (commit : String) (w : World) : Prop :=
  ∃ turn before limit trees,
    let i := (GitCommand.addWorktree path commit).invocation host.root
    let reply := host.reply turn before i limit
    Succeeded reply.ended ∧ w.trees = (GitCommand.addWorktree path commit).effect reply trees

/-- The commit that a reference stands for is what the command for it writes. -/
theorem commitOf_cases (limits : TimeoutSettings) (dir : Path) (reference : String) (host : Host)
    (w : World) :
    ∃ ended w₁, After w (.git dir (.resolve reference) ended) w.trees w₁ ∧
      ((∃ out err, ended = .exited 0 out err ∧ Writes host (.resolve reference) out ∧
        exec (Vcs.commitOf limits dir reference) host w = (.ok (Text.trim out), w₁)) ∨
      ∃ e, exec (Vcs.commitOf limits dir reference) host w = (.error e, w₁)) := by
  obtain ⟨reply, w₁, rfl, hafter, ⟨out, err, hgit, hended⟩ | ⟨e, hgit, -⟩⟩ :=
    git_cases dir (.resolve reference) limits.revParse host w
  · have hwrites : Writes host (.resolve reference) out :=
      ⟨_, _, _, err, replyIn_of_exited hended ▸ hended⟩
    refine ⟨_, w₁, hafter, .inl ⟨out, err, hended, hwrites, ?_⟩⟩
    rw [Vcs.commitOf, exec_adapt, Vcs.resolve, exec_bind_ok hgit]
    rfl
  · refine ⟨_, w₁, hafter, .inr ⟨Vcs.resolveError reference e, ?_⟩⟩
    rw [Vcs.commitOf, exec_adapt, Vcs.resolve, exec_bind_error hgit]
    rfl

/-- A new suffix leaves the world as it was, but for the suffixes to come. -/
theorem freshSuffix_after (host : Host) (w : World) :
    ∃ suffix w', exec (monadLift freshSuffix : Action String) host w = (.ok suffix, w') ∧
      w'.events = w.events ∧ w'.trees = w.trees ∧ Untouched w w' :=
  ⟨_, _, rfl, rfl, rfl, ⟨rfl, rfl, rfl⟩⟩

/-- One attempt to check out a commit succeeds, or fails with the error of its one command. -/
theorem addOnce_cases (c : Config) (repo path : Path) (commit : String) (host : Host) (w : World) :
    ∃ ended w₁, w₁.events = w.events ++ [.git repo (.addWorktree path commit) ended] ∧
      Untouched w w₁ ∧
      ((exec (addOnce c repo path commit) host w = (.ok (), w₁) ∧ CheckedOut host path commit w₁) ∨
      ∃ e, exec (addOnce c repo path commit) host w = (.error e, w₁) ∧
        (isLocked e → FailedLocked ended)) := by
  obtain ⟨reply, w₁, rfl, hafter, ⟨out, err, hgit, hended⟩ | ⟨e, hgit, houtcome⟩⟩ :=
    git_cases repo (.addWorktree path commit) c.limits.worktreeAdd host w
  · have hsucceeded : Succeeded (replyIn host w repo
        ((GitCommand.addWorktree path commit).invocation host.root)
        c.limits.worktreeAdd).ended := by
      rw [hended]
      trivial
    have hstarted := replyIn_of_exited hended
    refine ⟨_, w₁, hafter.events, hafter.untouched, .inl ⟨?_, _, _, _, w.trees,
      hstarted ▸ hsucceeded, hstarted ▸ hafter.trees⟩⟩
    rw [addOnce, exec_bind_ok hgit, exec_pure]
  · refine ⟨_, w₁, hafter.events, hafter.untouched, .inr ⟨e, ?_, ?_⟩⟩
    · rw [addOnce, exec_bind_error hgit]
    · exact failedLocked_of_isLocked houtcome

/-- Checking out a commit, again while a lock is in the way: what one attempt does, and by induction
on the attempts that are left what all do. -/
theorem add_cases (c : Config) (repo path : Path) (commit : String) (host : Host) (more : Nat)
    (w : World) :
    ∃ result, ∃ adds : List Ended, ∃ w', exec (add c repo path commit more) host w = (result, w') ∧
      w'.events = w.events ++ adds.map (.git repo (.addWorktree path commit)) ∧
      adds.length ≤ more + 1 ∧ (∀ ended ∈ adds.dropLast, FailedLocked ended) ∧ Untouched w w' ∧
      (result = .ok () → CheckedOut host path commit w') := by
  induction more generalizing w with
  | zero =>
    obtain ⟨ended, w₁, hevents, hsame, ⟨hadd, hout⟩ | ⟨e, hadd, -⟩⟩ :=
      addOnce_cases c repo path commit host w
    · exact ⟨.ok (), [ended], w₁, hadd, hevents, Nat.le_refl _, by simp, hsame, fun _ => hout⟩
    · exact ⟨.error e, [ended], w₁, hadd, hevents, Nat.le_refl _, by simp, hsame, by simp⟩
  | succ more ih =>
    obtain ⟨ended, w₁, hevents, hsame, ⟨hadd, hout⟩ | ⟨e, hadd, hlocked⟩⟩ :=
      addOnce_cases c repo path commit host w
    · refine ⟨.ok (), [ended], w₁, ?_, hevents, by simp, by simp, hsame, fun _ => hout⟩
      rw [add, exec_tryCatch_ok hadd]
    · by_cases hagain : isLocked e
      · obtain ⟨result, adds, w', hmore, hevents', hlen, hall, hsame', hout⟩ := ih w₁
        refine ⟨result, ended :: adds, w', ?_, ?_, by simpa using hlen, ?_,
          hsame.trans hsame', hout⟩
        · rw [add, exec_tryCatch_error hadd, if_pos hagain, hmore]
        · rw [hevents', hevents]
          simp
        · intro x hx
          cases adds with
          | nil => simp at hx
          | cons y ys =>
            rcases List.mem_cons.mp (List.dropLast_cons_cons ▸ hx) with rfl | hx
            · exact hlocked hagain
            · exact hall x hx
      · refine ⟨.error e, [ended], w₁, ?_, hevents, by simp, by simp, hsame, by simp⟩
        rw [add, exec_tryCatch_error hadd, if_neg hagain, exec_throw]

/-- Fetching dependencies checks out nothing and leaves the working trees alone. -/
theorem fetchDeps_cases (c : Config) (path : Path) (host : Host) (w : World) :
    ∃ result events w', exec (fetchDeps c path) host w = (result, w') ∧
      w'.events = w.events ++ events ∧ addsIn events = [] ∧ w'.trees = w.trees ∧
      Untouched w w' := by
  rw [fetchDeps, exec_bind_ok exec_get]
  dsimp only
  split
  · rename_i program args dir _ _ _
    obtain ⟨ended, hafter⟩ := run_cases (path ++ dir) ⟨program, args⟩ c.limits.deps host w
    rcases hrun : exec (run (path ++ dir) ⟨program, args⟩ c.limits.deps) host w with ⟨e | out, w₁⟩
    · rw [hrun] at hafter
      rw [exec_bind_error hrun]
      exact ⟨_, _, w₁, rfl, hafter.events, rfl, hafter.trees, hafter.untouched⟩
    · rw [hrun] at hafter
      rw [exec_bind_ok hrun, exec_pure]
      exact ⟨_, _, w₁, rfl, hafter.events, rfl, hafter.trees, hafter.untouched⟩
  · exact ⟨_, [], w, rfl, by simp, rfl, rfl, .refl w⟩

/-- The attempts among attempts are all of them. -/
theorem addsIn_map (repo path : Path) (commit : String) (adds : List Ended) :
    addsIn (adds.map (.git repo (.addWorktree path commit))) =
      adds.map fun ended => (path, ended) := by
  unfold addsIn
  rw [List.filterMap_map, ← List.filterMap_eq_map]
  rfl

/-- Preparing a working copy makes a few attempts to check out the commit, and leaves the store
alone. -/
theorem prepare_cases (c : Config) (repo path : Path) (commit : String) (host : Host) (w : World) :
    ∃ result events w', exec (prepare c repo path commit) host w = (result, w') ∧
      w'.events = w.events ++ events ∧ Tried path events ∧ Untouched w w' ∧
      (result = .ok () → CheckedOut host path commit w') := by
  obtain ⟨result, adds, w₁, hadd, hevents, hlen, hlocked, hsame, hout⟩ :=
    add_cases c repo path commit host (addAttempts - 1) w
  -- what comes after the attempts adds none
  have htried : ∀ more : List Event, addsIn more = [] →
      Tried path (adds.map (.git repo (.addWorktree path commit)) ++ more) := by
    intro more hmore
    have heq : addsIn (adds.map (.git repo (.addWorktree path commit)) ++ more) =
        adds.map fun ended => (path, ended) := by
      rw [addsIn_append, hmore, List.append_nil, addsIn_map]
    refine ⟨?_, ?_, ?_⟩
    · rw [heq]
      intro x hx
      obtain ⟨ended, -, rfl⟩ := List.mem_map.mp hx
      rfl
    · rw [heq, List.length_map]
      exact hlen
    · rw [heq, ← List.map_dropLast]
      intro x hx
      obtain ⟨ended, hended, rfl⟩ := List.mem_map.mp hx
      exact hlocked ended hended
  have hprepare : prepare c repo path commit = add c repo path commit (addAttempts - 1) >>= fun _ =>
    if c.settings.materializeDeps then fetchDeps c path else pure () := rfl
  rw [hprepare]
  cases result with
  | error e =>
    refine ⟨.error e, _, w₁, exec_bind_error hadd, hevents, ?_, hsame, by simp⟩
    simpa using htried [] rfl
  | ok a =>
    rw [exec_bind_ok hadd]
    split
    · obtain ⟨result, events, w', hdeps, hevents', hnone, htrees, hsame'⟩ :=
        fetchDeps_cases c path host w₁
      refine ⟨result, _, w', hdeps, ?_, htried events hnone, hsame.trans hsame', fun _ => ?_⟩
      · rw [hevents', hevents, List.append_assoc]
      · obtain ⟨turn, before, limit, trees, hended, htree⟩ := hout rfl
        exact ⟨turn, before, limit, trees, hended, htrees.trans htree⟩
    · exact ⟨.ok (), _, w₁, rfl, hevents, by simpa using htried [] rfl, hsame, fun _ => hout rfl⟩

/-- What creating a working copy does: it fails before anything is checked out, it fails later and
the working copy is torn down, or the working copy is there. -/
theorem create_cases (c : Config) (repo : Path) (reference : String) (host : Host) (w : World) :
    ∃ events w', w'.events = w.events ++ events ∧ Untouched w w' ∧
      ((∃ e, exec (create c repo reference) host w = (.error e, w') ∧ addsIn events = [] ∧
          w'.trees = w.trees) ∨
        (∃ e path tried torn, exec (create c repo reference) host w = (.error e, w') ∧
          events = tried ++ torn ∧ Tried path tried ∧ Torn repo path torn ∧
          w'.trees.at? path = none) ∨
        ∃ handle out err tried, exec (create c repo reference) host w = (.ok handle, w') ∧
          events = .git repo (.resolve reference) (.exited 0 out err) :: tried ∧
          Writes host (.resolve reference) out ∧ handle.commit = Text.trim out ∧
          Tried handle.path tried ∧ handle.path ≠ [] ∧
          CheckedOut host handle.path handle.commit w') := by
  obtain ⟨ended, w₁, hafter, ⟨out, err, rfl, hwrites, hcommit⟩ | ⟨e, hcommit⟩⟩ :=
    commitOf_cases c.limits repo reference host w
  · obtain ⟨suffix, w₂, hsuffix, hevents₂, htrees₂, hsame₂⟩ := freshSuffix_after host w₁
    have hsame : Untouched w w₂ := hafter.untouched.trans hsame₂
    have hevents : w₂.events = w.events ++ [.git repo (.resolve reference) (.exited 0 out err)] :=
      hevents₂.trans hafter.events
    rw [create, exec_bind_ok hcommit, exec_bind_ok hsuffix]
    split
    · exact ⟨_, w₂, hevents, hsame, .inl ⟨.aborted, rfl, rfl, htrees₂.trans hafter.trees⟩⟩
    · rename_i name _
      have hpath : host.tempDir ++ [name] ≠ [] := by simp
      rw [exec_bind_ok exec_read]
      dsimp only
      obtain ⟨result, tried, w₃, hprepare, hevents₃, htried, hsame₃, hout⟩ :=
        prepare_cases c repo (host.tempDir ++ [name]) (Text.trim out) host w₂
      rw [exec_bind_ok (by rw [exec_attempt, hprepare])]
      cases result with
      | ok a =>
        refine ⟨_, w₃, ?_, hsame.trans hsame₃,
          .inr (.inr ⟨⟨host.tempDir ++ [name], Text.trim out⟩, out, err, tried, rfl, rfl, hwrites,
            rfl, htried, hpath, hout rfl⟩)⟩
        rw [hevents₃, hevents, List.append_assoc]
        rfl
      | error e =>
        obtain ⟨torn, w', hdiscard, htorn, hevents', hgone, hsame'⟩ :=
          exec_discard c repo host w₃ hpath
        have hlift :
            exec (monadLift (discard c repo (host.tempDir ++ [name])) : Action Unit) host w₃ =
              (.ok (), w') := by rw [exec_lift, hdiscard]
        dsimp only
        rw [exec_bind_ok hlift, exec_throw]
        refine ⟨_, w', ?_, (hsame.trans hsame₃).trans hsame',
          .inr (.inl ⟨.vcs e, _, _, torn, rfl, rfl,
            htried.resolved repo reference (.exited 0 out err), htorn, hgone⟩)⟩
        rw [hevents', hevents₃, hevents]
        simp
  · refine ⟨_, w₁, hafter.events, hafter.untouched, .inl ⟨e, ?_, rfl, hafter.trees⟩⟩
    rw [create, exec_bind_error hcommit]

/-- What is done in a working copy ends in its teardown, and gives its own result. -/
theorem exec_within_ok {α : Type} {f : Handle → Action α} {handle : Handle} {w₁ : World}
    (h : exec (create c repo reference) host w = (.ok handle, w₁)) (hpath : handle.path ≠ []) :
    ∃ torn w', exec (within c repo reference f) host w = ((exec (f handle) host w₁).1, w') ∧
      Torn repo handle.path torn ∧ w'.events = (exec (f handle) host w₁).2.events ++ torn ∧
      w'.trees.at? handle.path = none ∧ Untouched (exec (f handle) host w₁).2 w' := by
  obtain ⟨torn, w', hdiscard, htorn, hevents, hgone, hsame⟩ :=
    exec_discard c repo host (exec (f handle) host w₁).2 hpath
  have hlift : exec (monadLift (discard c repo handle.path) : Action Unit) host
      (exec (f handle) host w₁).2 = (.ok (), w') := by rw [exec_lift, hdiscard]
  refine ⟨torn, w', ?_, htorn, hevents, hgone, hsame⟩
  rw [within, exec_bind_ok h, exec_bind_ok (exec_attempt _), exec_bind_ok hlift, exec_ofExcept]

/-- What is done in a working copy of a commit spares what the program keeps for itself when the
operation there does. -/
theorem spares_within {α : Type} (c : Config) (repo : Path) (reference : String)
    {f : Handle → Action α} (hf : ∀ handle, Spares (f handle)) :
    Spares (within c repo reference f) := by
  intro host w
  obtain ⟨events, w₁, -, hsame, ⟨e, hcreate, -⟩ | ⟨e, path, tried, torn, hcreate, -⟩ |
    ⟨handle, out, err, tried, hcreate, -, -, -, -, hpath, -⟩⟩ :=
      create_cases c repo reference host w
  · rw [within, exec_bind_error hcreate]
    exact hsame
  · rw [within, exec_bind_error hcreate]
    exact hsame
  · obtain ⟨torn, w', hwithin, -, -, -, hsame'⟩ := exec_within_ok (f := f) hcreate hpath
    rw [hwithin]
    exact (hsame.trans (hf handle host w₁)).trans hsame'

/-! ## What is checked out -/

/-- Asking for the commit of a reference leaves the stored data alone. -/
theorem spares_commitOf (limits : TimeoutSettings) (dir : Path) (reference : String) :
    Spares (Vcs.commitOf limits dir reference) := by
  intro host w
  obtain ⟨ended, w', hafter, ⟨out, err, -, -, hcommit⟩ | ⟨e, hcommit⟩⟩ :=
    commitOf_cases limits dir reference host w
  · rw [hcommit]
    exact hafter.untouched
  · rw [hcommit]
    exact hafter.untouched

/-- Comparing a reference with the current commit leaves the stored data alone. -/
theorem spares_isHead (c : Config) (repo : Path) (reference : String) :
    Spares (isHead c repo reference) := by
  unfold isHead
  dsimp only
  split
  · exact (looks_pure _).spares
  · exact (spares_commitOf _ _ _).bind fun _ => (spares_commitOf _ _ _).bind fun _ =>
      (looks_pure _).spares

/-- Whether a reference stands for the commit that is checked out is found out by resolving both. -/
theorem isHead_ok {same : Bool} {w' : World} (hne : reference ≠ "") (hne' : reference ≠ "HEAD")
    (htrim : Text.trim reference = reference)
    (h : exec (isHead c repo reference) host w = (.ok same, w')) :
    ∃ out out' err err', w'.events = w.events ++
        [.git repo (.resolve "HEAD") (.exited 0 out err),
          .git repo (.resolve reference) (.exited 0 out' err')] ∧
      w'.trees = w.trees ∧ same = (Text.trim out == Text.trim out') := by
  rw [isHead, htrim, if_neg (by simp [hne, hne'])] at h
  obtain ⟨head, w₁, hhead, h₁⟩ := of_exec_bind h
  obtain ⟨target, w₂, htarget, h₂⟩ := of_exec_bind h₁
  cases h₂
  obtain ⟨ended, w₃, hafter, ⟨out, err, rfl, -, hcommit⟩ | ⟨e, hcommit⟩⟩ :=
    commitOf_cases c.limits repo "HEAD" host w
  · cases hcommit.symm.trans hhead
    obtain ⟨ended', w₄, hafter', ⟨out', err', rfl, -, hcommit'⟩ | ⟨e, hcommit'⟩⟩ :=
      commitOf_cases c.limits repo reference host w₁
    · cases hcommit'.symm.trans htarget
      refine ⟨out, out', err, err', ?_, hafter'.trees.trans hafter.trees, rfl⟩
      rw [hafter'.events, hafter.events, List.append_assoc]
      rfl
    · cases hcommit'.symm.trans htarget
  · cases hcommit.symm.trans hhead

end

/-! ## The result -/

/-- Whatever comes of the commands and whatever is done in a working copy: a commit is checked out
three times at most, again only after a failure with a message about a lock. When a working copy
cannot be created, the operation for it is not run, and what was checked out is torn down and gone.
When it is created, the operation gives its own result, and afterwards the working copy is torn down
and gone. -/
theorem nothing_left_behind {α : Type} (c : Config) (repo : Path) (reference : String)
    (f : Handle → Action α) (host : Host) (w : World) :
    ∃ events, (exec (create c repo reference) host w).2.events = w.events ++ events ∧
      (addsIn events).length ≤ 3 ∧ (∀ x ∈ (addsIn events).dropLast, FailedLocked x.2) ∧
      match exec (create c repo reference) host w with
      | (.error e, created) =>
        exec (within c repo reference f) host w = (.error e, created) ∧
        ∀ x ∈ addsIn events, created.trees.at? x.1 = none ∧
          ∃ before torn, events = before ++ torn ∧ Torn repo x.1 torn
      | (.ok handle, created) =>
        (∀ x ∈ addsIn events, x.1 = handle.path) ∧
        ∃ torn left, exec (within c repo reference f) host w =
            ((exec (f handle) host created).1, left) ∧
          left.trees.at? handle.path = none ∧
          left.events = (exec (f handle) host created).2.events ++ torn ∧
          Torn repo handle.path torn := by
  obtain ⟨events, w', hevents, -, ⟨e, hcreate, hnone, -⟩ |
      ⟨e, path, tried, torn, hcreate, rfl, htried, htorn, hgone⟩ |
      ⟨handle, out, err, tried, hcreate, rfl, -, -, htried, hpath, -⟩⟩ :=
    create_cases c repo reference host w
  · refine ⟨events, by rw [hcreate, hevents], by simp [hnone], by simp [hnone], ?_⟩
    rw [hcreate]
    exact ⟨exec_bind_error hcreate, by simp [hnone]⟩
  · have hadds : addsIn (tried ++ torn) = addsIn tried := by
      rw [addsIn_append, htorn.addsIn_eq, List.append_nil]
    refine ⟨tried ++ torn, by rw [hcreate, hevents], ?_, ?_, ?_⟩
    · rw [hadds]
      exact htried.length_le
    · rw [hadds]
      exact htried.locked
    · rw [hcreate]
      refine ⟨exec_bind_error hcreate, fun x hx => ?_⟩
      rw [hadds] at hx
      rw [htried.path x hx]
      exact ⟨hgone, tried, torn, rfl, htorn⟩
  · have htried := htried.resolved repo reference (.exited 0 out err)
    refine ⟨_, by rw [hcreate, hevents], htried.length_le, htried.locked, ?_⟩
    rw [hcreate]
    obtain ⟨torn, left, hwithin, htorn, hleft, hgone, -⟩ := exec_within_ok (f := f) hcreate hpath
    exact ⟨htried.path, torn, left, hwithin, hgone, hleft, htorn⟩

end CallImpact.Worktree
