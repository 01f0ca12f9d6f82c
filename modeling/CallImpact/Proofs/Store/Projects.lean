import CallImpact.Proofs.Store.Runs
import Mathlib.Data.List.Pairwise

/-!
# Several projects in one data directory

An operation on a project writes files of the project only, and makes the directories for them
(`TouchesOnly`). So projects of which none has a file in the way of another (`Apart`) do not disturb
each other, and after any run of operations on such projects each of them is sound, with what was
saved for it (`Runs.sound_after_start`).
-/

namespace CallImpact.Store

/-! ## Places that are apart -/

/-- Whether no file of one project is where the other needs a directory or writes files. -/
def Apart (id other : String) : Prop :=
  ∀ p, (Near id p → ¬ IsFileOf other p) ∧ (Near other p → ¬ IsFileOf id p)

instance : Std.Symm Apart where
  symm _ _ h p := ⟨(h p).2, (h p).1⟩

section
variable {id other : String} {p : Path}

/-- An identifier that is a name is the name of the directory. -/
theorem projectDir_of_isName (h : IsName id) : projectDir id = [id] := by
  have hpath := pathOf_text (List.cons_ne_nil id []) (by simpa using h)
  rwa [Path.text, String.intercalate_singleton] at hpath

/-- The files of a project stand below a directory of its name. -/
theorem head?_of_isFileOf (hid : IsName id) (h : IsFileOf id p) : p.head? = some id := by
  have hdir := projectDir_of_isName hid
  rcases h with rfl | rfl | ⟨entry, rfl⟩
  · rw [recordPath, hdir]
    rfl
  · rw [temporaryRecordPath, hdir]
    rfl
  · rw [commitPath, hdir]
    rfl

/-- What operations on a project need or write stands below a directory of its name. -/
theorem head?_of_near (hid : IsName id) (h : Near id p) (hp : p ≠ []) : p.head? = some id := by
  rcases h with h | h
  · rw [projectDir_of_isName hid] at h
    cases p with
    | nil => exact absurd rfl hp
    | cons name rest =>
      rw [List.singleton_append, List.cons_prefix_cons] at h
      rw [h.1, List.head?_cons]
  · exact head?_of_isFileOf hid h

/-- Projects whose identifiers are different names are apart. -/
theorem apart_of_ne (hid : IsName id) (hother : IsName other) (hne : id ≠ other) :
    Apart id other := by
  have hdisjoint : ∀ {a b : String} {p : Path}, IsName a → IsName b → a ≠ b → Near a p →
      ¬ IsFileOf b p := by
    intro a b p ha hb hab hnear hfile
    have hhead := head?_of_isFileOf hb hfile
    have hp : p ≠ [] := by
      rintro rfl
      cases hhead
    exact hab (Option.some.inj ((head?_of_near ha hnear hp).symm.trans hhead))
  exact fun p => ⟨hdisjoint hid hother hne, hdisjoint hother hid hne.symm⟩

end

/-- A change of a tree that writes files of a project only, and makes the directories for them. -/
def TouchesOnly (id : String) (t t' : FileTree Stored) : Prop :=
  ∀ p, ¬ IsFileOf id p → t'.at? p = t.at? p ∨
    (p <+: projectDir id ++ [commitsDir] ∧ t'.at? p = some .directory)

/-- Leaving the files as they are touches no other project. -/
theorem TouchesOnly.refl (id : String) (t : FileTree Stored) : TouchesOnly id t t :=
  fun _ _ => .inl rfl

/-- Two changes that touch one project only do so in a row. -/
theorem TouchesOnly.trans {id : String} {t t₁ t₂ : FileTree Stored} (h : TouchesOnly id t t₁)
    (h' : TouchesOnly id t₁ t₂) : TouchesOnly id t t₂ := by
  intro p hp
  rcases h' p hp with heq | hdir
  · rw [heq]
    exact h p hp
  · exact .inr hdir

/-- The data file of an entry is a file of the project. -/
theorem isFileOf_dataPath {id commit file : String} (h : NamedFor commit file) :
    IsFileOf id (dataPath id file) := by
  obtain ⟨name, hname, rfl⟩ := h.exists_plain
  exact .inr (.inr ⟨_, dataPath_dataFileNamed id hname⟩)

/-- What may be left of a data file are files of the project. -/
theorem isFileOf_of_mem_partialPaths {id name : String} {p : Path} (h : p ∈ partialPaths id name) :
    IsFileOf id p := by
  obtain ⟨ending, -, rfl⟩ := List.mem_map.mp h
  exact .inr (.inr ⟨_, rfl⟩)

/-- Rewriting a record touches its own project only. -/
theorem Rewritten.touchesOnly {id : String} {r : ProjectRecord} {gone : List HistoryEntry}
    {t t' : FileTree Stored} (h : Rewritten r gone t t') (hid : r.id = id)
    (hgone : ∀ e ∈ gone, NamedFor e.commit e.dataFile) : TouchesOnly id t t' := by
  subst hid
  intro p hp
  have hdata : p ∉ gone.map (fun e => dataPath r.id e.dataFile) := by
    intro hmem
    obtain ⟨e, he, rfl⟩ := List.mem_map.mp hmem
    exact hp (isFileOf_dataPath (hgone e he))
  rw [h, if_neg fun he => hp (.inl he), if_neg hdata]
  by_cases habove : p <+: projectDir r.id
  · exact .inr ⟨habove.trans (List.prefix_append _ _), if_pos habove⟩
  · exact .inl (if_neg habove)

/-- To prepare a tree makes directories above the snapshots, and takes away files of the project. -/
theorem preparedAt_of_not_isFileOf {id name : String} {p : Path} (t : FileTree Stored)
    (hp : ¬ IsFileOf id p) : preparedAt id name t p = t.at? p ∨
      (p <+: projectDir id ++ [commitsDir] ∧ preparedAt id name t p = some .directory) := by
  rw [preparedAt_of_not_mem fun hmem => hp (isFileOf_of_mem_partialPaths hmem)]
  by_cases habove : p <+: projectDir id ++ [commitsDir]
  · exact .inr ⟨habove, if_pos habove⟩
  · exact .inl (if_neg habove)

/-- Preparing a data file touches its own project only. -/
theorem Prepared.touchesOnly {id name : String} {t t' : FileTree Stored}
    (h : Prepared id name t t') : TouchesOnly id t t' := by
  intro p hp
  rw [h]
  exact preparedAt_of_not_isFileOf t hp

/-- Placing a data file touches its own project only. -/
theorem Placed.touchesOnly {id name commit : String} {snapshot : Snapshot}
    {t t' : FileTree Stored} (h : Placed id name snapshot t t')
    (hnf : NamedFor commit (dataFileNamed name)) : TouchesOnly id t t' := by
  intro p hp
  have hdata : p ≠ dataPath id (dataFileNamed name) := fun he => hp (he ▸ isFileOf_dataPath hnf)
  rw [h, if_neg hdata]
  exact preparedAt_of_not_isFileOf t hp

/-! ## Steps on several projects -/

/-- The store after one more step on a project. -/
def stepOn (s : Store) (x : String × Step) : Store :=
  (Run.step x.1 { store := s } x.2).store

/-- What was saved before does not matter to what a step does to the store. -/
theorem store_step (id : String) (run : Run) (step : Step) :
    (run.step id step).store = stepOn run.store (id, step) := by
  obtain ⟨change, now⟩ := step
  cases change with
  | save name remote new =>
    simp only [stepOn, Run.step]
    rcases run.store.save ⟨id, name, remote⟩ new now with ⟨store, progress, error | g⟩
    · rfl
    · rfl
  | setLatest reference => rfl
  | delete reference => rfl
  | clean maxCount maxAgeDays => rfl

section
variable {policy : RetentionPolicy} {id : String} {run : Run} {now : Instant}
  {record : Option ProjectRecord}

/-- Every step on a project that is sound writes files of the project only. -/
theorem Sound.touchesOnly (h : Sound policy id run now record) {step : Step}
    (hstep : step.IsAdmissible policy) :
    ∃ t, stepOn run.store (id, step) = { run.store with tree := t } ∧
      TouchesOnly id run.store.tree t := by
  obtain ⟨change, now⟩ := step
  cases change with
  | save name remote new =>
    rcases hsnap : snapshotOf new now with ⟨progress, error | snapshot⟩
    · obtain ⟨file, t, steps, -, hp, hsave⟩ :=
        save_error ⟨id, name, remote⟩ h.holds hstep.1 hsnap
      refine ⟨t, ?_, hp.touchesOnly⟩
      simp only [stepOn, Run.step, hsave]
    · obtain ⟨file, bound, placed, t, steps, hname, hnf, hother, -, hp, hw, hsave⟩ :=
        save_ok ⟨id, name, remote⟩ h.holds hstep.1 (h.retention ▸ hstep.2) hsnap
      refine ⟨t, ?_, (hp.touchesOnly hnf).trans ?_⟩
      · simp only [stepOn, Run.step, hsave]
      · refine hw.touchesOnly ?_ fun e he => ?_
        · rw [entered, id_repairLatest]
          exact id_nextRecord h.holds.owner
        · rcases List.mem_cons.mp ((History.newestFirst_perm _).mem_iff.mp
            (History.mem_of_mem_removed he)) with rfl | he
          · exact hnf
          · exact h.backed.named e (List.mem_filter.mp he).1
  | setLatest reference =>
    rcases setLatest_cases h.holds reference with ⟨error, heq⟩ | ⟨r, e, t, rfl, he, heq, hw⟩
    · refine ⟨run.store.tree, ?_, .refl id _⟩
      simp only [stepOn, Run.step, heq]
    · refine ⟨t, ?_, hw.touchesOnly (h.holds.owner r rfl) (by simp)⟩
      simp only [stepOn, Run.step, heq]
  | delete reference =>
    rcases delete_cases h.holds reference with ⟨error, heq⟩ | ⟨r, e, t, rfl, he, heq, hw⟩
    · refine ⟨run.store.tree, ?_, .refl id _⟩
      simp only [stepOn, Run.step, heq]
    · refine ⟨t, ?_, hw.touchesOnly ?_ fun x hx => ?_⟩
      · simp only [stepOn, Run.step, heq]
      · rw [id_repairLatest]
        exact h.holds.owner r rfl
      · rw [List.mem_singleton.mp hx]
        exact h.backed.named e he
  | clean maxCount maxAgeDays =>
    rcases clean_cases h.holds maxCount hstep with ⟨-, heq⟩ | ⟨r, bound, t, rfl, heq, hw⟩
    · refine ⟨run.store.tree, ?_, .refl id _⟩
      simp only [stepOn, Run.step, heq]
    · refine ⟨t, ?_, hw.touchesOnly ?_ fun e he => ?_⟩
      · simp only [stepOn, Run.step, heq]
      · rw [id_repairLatest]
        exact h.holds.owner r rfl
      · exact h.backed.named e (History.mem_of_mem_removed he)

/-- A change to another project leaves a project as it was. -/
theorem Sound.spared (h : Sound policy id run now record) {other : String} (hapart : Apart other id)
    {t : FileTree Stored} (ht : TouchesOnly other run.store.tree t) :
    Sound policy id { run with store := { run.store with tree := t } } now record := by
  have hfile : ∀ p, IsFileOf id p → t.at? p = run.store.tree.at? p := by
    intro p hp
    rcases ht p ((hapart p).2 (.inr hp)) with heq | ⟨habove, -⟩
    · exact heq
    · exact absurd hp ((hapart p).1 (.inl habove))
  refine { h with holds := { h.holds with layout := ?_, read := ?_ }, backed := ?_ }
  · intro p x hnear hx
    rcases hnear with habove | hp
    · rcases ht p ((hapart p).2 (.inl habove)) with heq | ⟨-, hdir⟩
      · exact h.holds.layout p x (.inl habove) (heq ▸ hx)
      · rw [hdir] at hx
        cases hx
        exact habove
    · exact h.holds.layout p x (.inr hp) (hfile p hp ▸ hx)
  · exact (record?_congr (hfile _ (.inl rfl))).trans h.holds.read
  · exact h.backed.of_sublist (List.Sublist.refl _) fun e he =>
      hfile _ (isFileOf_dataPath (h.backed.named e he))

/-- A step on a sound project keeps another one sound that is apart from it. -/
theorem Sound.step_other (h : Sound policy id run now record) {other : String}
    {saved : List (NewGraph × Instant)} {record' : Option ProjectRecord}
    (h' : Sound policy other ⟨run.store, saved⟩ now record') (hapart : Apart id other) {step : Step}
    (hstep : step.IsAdmissible policy) (hnow : now.le step.now) :
    Sound policy other ⟨stepOn run.store (id, step), saved⟩ step.now record' := by
  obtain ⟨t, ht, htouches⟩ := h.touchesOnly hstep
  rw [ht]
  exact (h'.spared hapart htouches).later hnow

end

/-! ## What was saved for each project -/

/-- A store, and for each project the graphs that were saved successfully, the last one first. -/
structure Runs where
  store : Store
  saved : String → List (NewGraph × Instant) := fun _ => []

namespace Runs

/-- Runs that have not begun: the data directory is empty. -/
def start (dataDir : String) (policy : RetentionPolicy) : Runs :=
  { store := { dataDir, retention := policy } }

/-- The run of one of the projects. -/
def run (runs : Runs) (id : String) : Run :=
  ⟨runs.store, runs.saved id⟩

/-- The runs after one more step on a project, which may fail. -/
def step (runs : Runs) (x : String × Step) : Runs :=
  let run := (runs.run x.1).step x.1 x.2
  { store := run.store, saved := Function.update runs.saved x.1 run.saved }

/-- The runs after more steps. -/
def after (runs : Runs) (steps : List (String × Step)) : Runs :=
  steps.foldl step runs

variable {runs : Runs}

/-- A step of several runs at once takes their common store one step on. -/
theorem store_step (runs : Runs) (x : String × Step) : (runs.step x).store = stepOn runs.store x :=
  Store.store_step x.1 (runs.run x.1) x.2

/-- Of runs on several projects the store takes one step after the other. -/
theorem store_after (runs : Runs) (steps : List (String × Step)) :
    (runs.after steps).store = steps.foldl stepOn runs.store := by
  induction steps generalizing runs with
  | nil => rfl
  | cons x steps ih =>
    rw [List.foldl_cons, ← store_step]
    exact ih (runs.step x)

/-- A step on a project is a step of its own run. -/
theorem run_step (runs : Runs) (x : String × Step) :
    (runs.step x).run x.1 = (runs.run x.1).step x.1 x.2 := by
  simp [run, step]

/-- A step on another project changes nothing but the store of a run. -/
theorem run_step_of_ne (runs : Runs) (x : String × Step) {id : String} (hne : id ≠ x.1) :
    (runs.step x).run id = ⟨stepOn runs.store x, runs.saved id⟩ := by
  simp [run, step, hne, Store.store_step]

/-- What a step saves is the graph that it was to save. -/
theorem mem_saved_step {x : String × Step} {id : String} {entry : NewGraph × Instant}
    (h : entry ∈ (runs.step x).saved id) :
    entry ∈ runs.saved id ∨
      x.1 = id ∧ ∃ name remote, x.2 = ⟨.save name remote entry.1, entry.2⟩ := by
  by_cases hid : id = x.1
  · subst hid
    obtain ⟨id, change, now⟩ := x
    have hsaved : entry ∈ ((runs.run id).step id ⟨change, now⟩).saved := by simpa [step] using h
    cases change with
    | save name remote new =>
      simp only [Run.step] at hsaved
      split at hsaved
      · rcases List.mem_cons.mp hsaved with rfl | hmem
        · exact .inr ⟨rfl, name, remote, rfl⟩
        · exact .inl hmem
      · exact .inl hsaved
    | setLatest reference => exact .inl hsaved
    | delete reference => exact .inl hsaved
    | clean maxCount maxAgeDays => exact .inl hsaved
  · exact .inl (by simpa [step, hid] using h)

/-- What was saved for a project was to be saved by a step on it. -/
theorem mem_saved_after {steps : List (String × Step)} {id : String} {entry : NewGraph × Instant}
    (h : entry ∈ (runs.after steps).saved id) :
    entry ∈ runs.saved id ∨ ∃ name remote, (id, ⟨.save name remote entry.1, entry.2⟩) ∈ steps := by
  induction steps generalizing runs with
  | nil => exact .inl h
  | cons x steps ih =>
    rcases ih h with h | ⟨name, remote, hmem⟩
    · rcases mem_saved_step h with h | ⟨rfl, name, remote, heq⟩
      · exact .inl h
      · exact .inr ⟨name, remote, by simp [← heq]⟩
    · exact .inr ⟨name, remote, List.mem_cons_of_mem x hmem⟩

section
variable {policy : RetentionPolicy} {ids : List String} {now : Instant}

/-- Every step on one of several sound projects keeps all of them sound. -/
theorem sound_step (h : ∀ id ∈ ids, ∃ record, Sound policy id (runs.run id) now record)
    (hapart : ids.Pairwise Apart) {x : String × Step} (hid : x.1 ∈ ids)
    (hstep : x.2.IsAdmissible policy) (hnow : now.le x.2.now) :
    ∀ id ∈ ids, ∃ record, Sound policy id ((runs.step x).run id) x.2.now record := by
  intro id hmem
  obtain ⟨record, hsound⟩ := h x.1 hid
  by_cases heq : id = x.1
  · subst heq
    rw [run_step]
    exact hsound.step hnow hstep
  · obtain ⟨record', hsound'⟩ := h id hmem
    rw [run_step_of_ne runs x heq]
    exact ⟨record', hsound.step_other hsound' (hapart.forall hid hmem (Ne.symm heq)) hstep hnow⟩

/-- Projects that are apart stay sound while the clock does not go back. -/
theorem sound_after {steps : List (String × Step)}
    (h : ∀ id ∈ ids, ∃ record, Sound policy id (runs.run id) now record)
    (hapart : ids.Pairwise Apart) (hids : ∀ x ∈ steps, x.1 ∈ ids)
    (hadmissible : ∀ x ∈ steps, x.2.IsAdmissible policy)
    (hclock : steps.Pairwise fun a b => a.2.now.le b.2.now) (hnow : ∀ x ∈ steps, now.le x.2.now) :
    ∃ later, ∀ id ∈ ids, ∃ record, Sound policy id ((runs.after steps).run id) later record := by
  induction steps generalizing runs now with
  | nil => exact ⟨now, h⟩
  | cons x steps ih =>
    obtain ⟨hlater, hclock⟩ := List.pairwise_cons.mp hclock
    have h' := sound_step h hapart (hids x List.mem_cons_self) (hadmissible x List.mem_cons_self)
      (hnow x List.mem_cons_self)
    exact ih h' (fun y hy => hids y (List.mem_cons_of_mem x hy))
      (fun y hy => hadmissible y (List.mem_cons_of_mem x hy)) hclock hlater

/-- Projects that are apart are sound after any run from an empty data directory. -/
theorem sound_after_start (dataDir : String) {steps : List (String × Step)}
    (hapart : ids.Pairwise Apart) (hids : ∀ x ∈ steps, x.1 ∈ ids)
    (hadmissible : ∀ x ∈ steps, x.2.IsAdmissible policy)
    (hclock : steps.Pairwise fun a b => a.2.now.le b.2.now) :
    ∃ later, ∀ id ∈ ids, ∃ record,
      Sound policy id (((start dataDir policy).after steps).run id) later record := by
  have hstart (now : Instant) : ∀ id ∈ ids, ∃ record,
      Sound policy id ((start dataDir policy).run id) now record := fun id _ =>
    ⟨none, sound_start dataDir policy id now⟩
  cases steps with
  | nil => exact ⟨default, hstart default⟩
  | cons x steps =>
    refine sound_after (hstart x.2.now) hapart hids hadmissible hclock fun y hy => ?_
    rcases List.mem_cons.mp hy with rfl | hy
    · exact Instant.le_refl _
    · exact (List.pairwise_cons.mp hclock).1 y hy

end

end Runs

end CallImpact.Store
