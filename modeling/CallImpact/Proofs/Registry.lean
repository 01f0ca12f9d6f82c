import CallImpact.Proofs.FileTree
import CallImpact.Registry

/-!
# Changes of the registry

A change is made to the registered projects in memory, and then all of them are written
(`Change.make_of_isWritten`). They can be written exactly when all their paths are text and the
data directory has room for the registry (`write_ok_iff`), and are then read back
(`load_of_write_ok`). Where they cannot be written, the file stays as it is, but the change stays
in memory too (`failed_change_stays`): the answers from then on are those after the change, and
the next change that is written writes it along.
-/

namespace CallImpact.Registry

/-! ## Reading and writing -/

/-- What is read depends only on what stands in the place of the registry. -/
theorem load_congr (shown : String) {t t' : FileTree Stored} (h : t'.at? file = t.at? file) :
    load shown t' = load shown t := by
  unfold FileTree.at? at h
  unfold load
  rcases hold : t.get? file with _ | ⟨content | entries⟩
  · rw [hold, Option.map_none, Option.map_eq_none_iff] at h
    rw [h]
  · rw [hold] at h
    obtain ⟨found, hfound, heq⟩ := Option.map_eq_some_iff.mp h
    cases found with
    | file content' =>
      cases heq
      rw [hfound]
    | dir entries => cases heq
  · rw [hold] at h
    obtain ⟨found, hfound, heq⟩ := Option.map_eq_some_iff.mp h
    cases found with
    | file content' => cases heq
    | dir entries => rw [hfound]

/-- Whether a directory tree has room for the registry: its root is a directory, and no directory
is in the place of the registry or of its temporary file. -/
structure HasRoom (t : FileTree Stored) : Prop where
  root : t.at? [] = some .directory
  temporary : t.at? temporaryFile ≠ some .directory
  place : t.at? file ≠ some .directory

/-- A missing registry is read as an empty one. -/
theorem load_of_missing (shown : String) {t : FileTree Stored} (h : t.get? file = none) :
    load shown t = .ok {} := by
  rw [load, h]

/-- Whether every local path of the registered projects is text. -/
def IsText (r : Registry) : Prop :=
  ∀ p ∈ r.projects, ∀ path ∈ p.localPaths, path.text?.isSome

section
variable {r : Registry} {t made : FileTree Stored}

/-- Where the data directory is a directory, it need not be made. -/
theorem makeDirs_of_root (h : t.at? [] = some .directory) : t.makeDirs file.dropLast = .ok t := by
  cases t with
  | file content => cases h
  | dir entries => rfl

/-- Making the data directory changes nothing in it. -/
theorem eq_of_makeDirs (h : t.makeDirs file.dropLast = .ok made) : made = t := by
  cases t with
  | file content => cases h
  | dir entries =>
    cases h
    rfl

/-- A document of the projects can be made exactly when all their paths are text. -/
theorem document_eq_ok_iff {document : Stored} :
    r.document = .ok document ↔ r.IsText ∧ document = .projects r.projects := by
  have hall : (r.projects.all fun p => p.localPaths.all (·.text?.isSome)) ↔ r.IsText := by
    simp only [IsText, List.all_eq_true]
  unfold Registry.document
  split
  · rename_i h
    rw [Except.ok.injEq, eq_comm]
    exact (and_iff_right (hall.mp h)).symm
  · rename_i h
    exact iff_of_false nofun fun hdocument => h (hall.mpr hdocument.1)

/-- The registry is written where there is room for it. It then stands in its place, nothing is
left of the temporary file, and all else is as it was. -/
theorem write_of_hasRoom (htext : r.IsText) (h : HasRoom t) :
    ∃ t', r.write t = (t', .ok ()) ∧ ∀ p, t'.at? p =
      if p = temporaryFile then none
      else if p = file then some (.file (.projects r.projects)) else t.at? p := by
  have hne : temporaryFile ≠ file := by decide
  have hnonempty : temporaryFile ≠ [] := List.cons_ne_nil _ _
  have htarget : file ≠ [] := List.cons_ne_nil _ _
  have hfull := FileTree.at?_write hnonempty h.root h.temporary (Stored.projects r.projects)
  have hcontent := (hfull temporaryFile).trans (if_pos rfl)
  have hplace : (t.write temporaryFile (.projects r.projects)).at? file ≠ some .directory := by
    rw [hfull, if_neg hne.symm]
    exact h.place
  have hroot :
      (t.write temporaryFile (.projects r.projects)).at? file.dropLast = some .directory := by
    rw [hfull, if_neg (by decide)]
    exact h.root
  obtain ⟨t', hmoved, hat⟩ := FileTree.rename_ok hcontent hnonempty htarget hroot hplace hne
  have hdocument : r.document = .ok (.projects r.projects) := document_eq_ok_iff.mpr ⟨htext, rfl⟩
  refine ⟨t', ?_, fun p => ?_⟩
  · simp only [write, makeDirs_of_root h.root, hdocument,
      FileTree.writeFile_ok hnonempty h.root h.temporary, hmoved]
  · rw [hat, hfull]
    split
    · rfl
    · rfl

/-- The registry can be written exactly when all paths are text and where there is room for it. -/
theorem write_ok_iff : (r.write t).2 = .ok () ↔ r.IsText ∧ HasRoom t := by
  constructor
  · intro h
    unfold write at h
    split at h
    · cases h
    · rename_i made hmade
      obtain rfl := eq_of_makeDirs hmade
      split at h
      · cases h
      · rename_i document hdocument
        obtain ⟨htext, rfl⟩ := document_eq_ok_iff.mp hdocument
        split at h
        · cases h
        · rename_i full hfull
          have hat := FileTree.at?_of_writeFile hfull (q := file) (by decide)
          obtain ⟨⟨-, hroot, htemporary⟩, -⟩ := FileTree.writeFile_eq_ok_iff.mp hfull
          split at h
          · cases h
          · rename_i moved hmoved
            obtain ⟨content, written, -, hwritten, -⟩ := FileTree.rename_eq_ok_iff.mp hmoved
            obtain ⟨⟨-, -, hplace⟩, -⟩ := FileTree.writeFile_eq_ok_iff.mp hwritten
            exact ⟨htext, hroot, htemporary, hat ▸ hplace⟩
  · rintro ⟨htext, h⟩
    obtain ⟨t', hwrite, -⟩ := write_of_hasRoom htext h
    rw [hwrite]

/-- A path that is no text stops the registry from being written, whatever room there is. -/
example : (write { projects := [{ (default : Project) with localPaths := [.text "/a", .binary] }] }
    (.dir [])).2 = .error (.invalid "path contains invalid UTF-8 characters") := rfl

/-- Where the registry cannot be written, nothing changes but its temporary file. -/
theorem at?_of_write_error {cause : ConfigError} {p : Path} (h : (r.write t).2 = .error cause)
    (hp : p ≠ temporaryFile) : (r.write t).1.at? p = t.at? p := by
  unfold write at h ⊢
  split
  · rfl
  · rename_i made hmade
    obtain rfl := eq_of_makeDirs hmade
    simp only [hmade] at h
    split
    · rfl
    · rename_i document hdocument
      simp only [hdocument] at h
      split
      · rfl
      · rename_i full hfull
        simp only [hfull] at h
        split
        · exact FileTree.at?_of_writeFile hfull hp
        · rename_i hmoved
          rw [hmoved] at h
          cases h

/-- A registry that was written is read back, and there is room for another. -/
theorem load_of_write_ok (shown : String) (h : (r.write t).2 = .ok ()) :
    load shown (r.write t).1 = .ok r ∧ HasRoom (r.write t).1 := by
  obtain ⟨htext, hroom⟩ := write_ok_iff.mp h
  obtain ⟨t', hwrite, hat⟩ := write_of_hasRoom htext hroom
  have hfile : t'.at? file = some (.file (.projects r.projects)) := hat file
  rw [hwrite]
  refine ⟨?_, ⟨(hat []).trans hroom.root, ?_, ?_⟩⟩
  · rw [load, FileTree.get?_of_at?_file hfile]
  · rw [hat, if_pos rfl]
    exact nofun
  · rw [hfile]
    exact nofun

end

/-! ## Putting and removing projects -/

section
variable {p q : Project} {ps : List Project} {id : String}

/-- A project with a new identifier is put last. -/
theorem put_of_not_mem (h : p.id ∉ ps.map (·.id)) : put p ps = ps ++ [p] := by
  induction ps with
  | nil => rfl
  | cons q ps ih =>
    obtain ⟨hq, hps⟩ := not_or.mp (List.mem_cons.not.mp h)
    rw [put, if_neg (Ne.symm hq), ih hps, List.cons_append]

/-- A project that takes the place of another has its identifier. -/
theorem map_id_put_of_mem (h : p.id ∈ ps.map (·.id)) : (put p ps).map (·.id) = ps.map (·.id) := by
  induction ps with
  | nil => exact absurd h List.not_mem_nil
  | cons q ps ih =>
    rw [put]
    split
    · rename_i hq
      rw [List.map_cons, List.map_cons, hq]
    · rename_i hq
      have hps := (List.mem_cons.mp h).resolve_left (Ne.symm hq)
      rw [List.map_cons, List.map_cons, ih hps]

/-- Where identifiers are distinct, putting a project changes the one with its identifier and no
other. -/
theorem mem_put_iff (h : (ps.map (·.id)).Nodup) : q ∈ put p ps ↔ q = p ∨ q ∈ ps ∧ q.id ≠ p.id := by
  induction ps with
  | nil => simp [put]
  | cons x ps ih =>
    obtain ⟨hx, hps⟩ := List.nodup_cons.mp h
    rw [put]
    split
    · rename_i hxp
      have hother : ∀ q ∈ ps, q.id ≠ p.id := fun q hq he =>
        hx (List.mem_map.mpr ⟨q, hq, he.trans hxp.symm⟩)
      rw [List.mem_cons, List.mem_cons]
      constructor
      · rintro (rfl | hq)
        · exact .inl rfl
        · exact .inr ⟨.inr hq, hother q hq⟩
      · rintro (rfl | ⟨rfl | hq, hne⟩)
        · exact .inl rfl
        · exact absurd hxp hne
        · exact .inr hq
    · rename_i hxp
      rw [List.mem_cons, List.mem_cons, ih hps]
      constructor
      · rintro (rfl | rfl | ⟨hq, hne⟩)
        · exact .inr ⟨.inl rfl, hxp⟩
        · exact .inl rfl
        · exact .inr ⟨.inr hq, hne⟩
      · rintro (rfl | ⟨rfl | hq, hne⟩)
        · exact .inr (.inl rfl)
        · exact .inl rfl
        · exact .inr (.inr ⟨hq, hne⟩)

/-- Putting a project leaves a list as it is when the project already stands for its identifier. -/
theorem put_eq_self_iff : put p ps = ps ↔ ps.find? (fun q => q.id == p.id) = some p := by
  induction ps with
  | nil => simp [put]
  | cons q ps ih =>
    rw [put, List.find?_cons]
    split
    · rename_i hq
      rw [beq_iff_eq.mpr hq, List.cons.injEq, and_iff_left rfl]
      exact ⟨fun h => congrArg some h.symm, fun h => (Option.some.inj h).symm⟩
    · rename_i hq
      rw [beq_eq_false_iff_ne.mpr hq, List.cons.injEq, and_iff_right rfl]
      exact ih

/-- Removing an identifier leaves a list as it is when no project has it. -/
theorem filter_eq_self_iff :
    (ps.filter fun p => p.id != id) = ps ↔ id ∉ ps.map (·.id) := by
  rw [List.filter_eq_self, List.mem_map, not_exists]
  refine forall_congr' fun p => ?_
  rw [not_and, bne_iff_ne]

end

/-! ## Changes -/

/-- A change of the registry. -/
inductive Change where
  | upsert (p : Project) (now : Instant)
  | remove (id : String)

/-- What a change answers when it was made. -/
inductive Answer where
  | entered (p : Project)
  | removed (any : Bool)

section
variable {α β : Type} {r : Registry} {t : FileTree Stored}

/-- A write that succeeds gives the answer. -/
theorem written_of_ok (a : α) (h : (r.write t).2 = .ok ()) :
    written r t a = (r, (r.write t).1, .ok a) := by
  unfold written
  rcases hwrite : r.write t with ⟨t', result⟩
  rw [hwrite] at h
  subst h
  rfl

/-- A write that fails gives its cause and keeps the change in memory. -/
theorem written_of_error (a : α) {cause : ConfigError} (h : (r.write t).2 = .error cause) :
    written r t a = (r, (r.write t).1, .error (.config cause)) := by
  unfold written
  rcases hwrite : r.write t with ⟨t', result⟩
  rw [hwrite] at h
  subst h
  rfl

/-- What is made of an answer can be made before the write. -/
theorem map_written (f : α → β) (a : α) :
    ((written r t a).1, (written r t a).2.1, (written r t a).2.2.map f) = written r t (f a) := by
  unfold written
  rcases r.write t with ⟨t', e | -⟩
  · rfl
  · rfl

end

/-- A project as it is entered: one with its identifier keeps the time of its creation. -/
def entering (r : Registry) (p : Project) (now : Instant) : Project :=
  { p with updated := now, created := ((r.find? p.id).map (·.created)).getD p.created }

namespace Change

/-- Makes a change. -/
def make (c : Change) (r : Registry) (t : FileTree Stored) :
    Registry × FileTree Stored × Except Error Answer :=
  match c with
  | .upsert p now =>
    let (r, t, answer) := r.upsert t p now
    (r, t, answer.map .entered)
  | .remove id =>
    let (r, t, answer) := r.remove t id
    (r, t, answer.map .removed)

/-- The registry after a change in memory. -/
def result (c : Change) (r : Registry) : Registry :=
  match c with
  | .upsert p now => { projects := put (r.entering p now) r.projects }
  | .remove id => { projects := r.projects.filter fun p => p.id != id }

/-- Whether a change is written: one that removes nothing is not. -/
def IsWritten (c : Change) (r : Registry) : Prop :=
  match c with
  | .upsert _ _ => True
  | .remove id => id ∈ r.projects.map (·.id)

/-- What a change answers. -/
def answer (c : Change) (r : Registry) : Answer :=
  match c with
  | .upsert p now => .entered (r.entering p now)
  | .remove id => .removed (id ∈ r.projects.map (·.id))

section
variable {c : Change} {r : Registry} {t : FileTree Stored}

/-- A change that is not written changes nothing. -/
theorem result_of_not_isWritten (h : ¬ c.IsWritten r) : c.result r = r := by
  cases c with
  | upsert p now => exact absurd trivial h
  | remove id => exact congrArg Registry.mk (filter_eq_self_iff.mpr h)

/-- A change that removes nothing leaves everything as it is. -/
theorem make_of_not_isWritten (h : ¬ c.IsWritten r) : c.make r t = (r, t, .ok (c.answer r)) := by
  cases c with
  | upsert p now => exact absurd trivial h
  | remove id =>
    have hsame : (r.projects.filter fun p => p.id != id) = r.projects := filter_eq_self_iff.mpr h
    have hanswer : answer (.remove id) r = .removed false :=
      congrArg Answer.removed (decide_eq_false h)
    rw [hanswer]
    simp only [make, Registry.remove, hsame, if_pos]
    rfl

/-- A change that is written is made in memory first. -/
theorem make_of_isWritten (h : c.IsWritten r) :
    c.make r t = written (c.result r) t (c.answer r) := by
  cases c with
  | upsert p now => exact map_written Answer.entered (r.entering p now)
  | remove id =>
    have hfewer : (r.projects.filter fun p => p.id != id).length ≠ r.projects.length := fun hlen =>
      filter_eq_self_iff.mp (List.filter_sublist.eq_of_length hlen) h
    have hremove : r.remove t id = written (result (.remove id) r) t true := if_neg hfewer
    have hanswer : answer (.remove id) r = .removed true :=
      congrArg Answer.removed (decide_eq_true h)
    rw [make, hremove, hanswer, ← map_written]

/-- A change that is written changes something, unless it enters a project that stands there with
that very time. -/
theorem result_eq_self_iff (h : c.IsWritten r) :
    c.result r = r ↔ ∃ p now, c = .upsert p now ∧ r.find? p.id = some (r.entering p now) := by
  cases c with
  | upsert p now =>
    have hput : result (.upsert p now) r = r ↔ r.find? p.id = some (r.entering p now) := by
      rw [result, Registry.mk.injEq]
      exact put_eq_self_iff
    rw [hput]
    constructor
    · exact fun hfind => ⟨p, now, rfl, hfind⟩
    · rintro ⟨_, _, ⟨⟩, hfind⟩
      exact hfind
  | remove id =>
    refine iff_of_false (fun hsame => ?_) nofun
    exact filter_eq_self_iff.mp (congrArg Registry.projects hsame) h

end

end Change

/-! ## Changes that cannot be written -/

/-- A change that cannot be written fails, and leaves the file as it is. In memory it stays all
the same, so unless it changed nothing there, the registry no longer answers as before; and the
next change that is written writes it along. -/
theorem failed_change_stays {c : Change} {r : Registry} {t : FileTree Stored} {cause : ConfigError}
    (hwritten : c.IsWritten r) (hfail : ((c.result r).write t).2 = .error cause) (shown : String) :
    (c.make r t).2.2 = .error (.config cause) ∧
    (load shown (c.make r t).2.1 = load shown t ∧
      ∀ p, p ≠ temporaryFile → (c.make r t).2.1.at? p = t.at? p) ∧
    (c.make r t).1 = c.result r ∧
    (c.result r = r ↔ ∃ p now, c = .upsert p now ∧ r.find? p.id = some (r.entering p now)) ∧
    ∀ later t', Change.IsWritten later (c.result r) →
      ((later.result (c.result r)).write t').2 = .ok () →
      ∃ t'', later.make (c.make r t).1 t' =
          (later.result (c.result r), t'', .ok (later.answer (c.result r))) ∧
        load shown t'' = .ok (later.result (c.result r)) := by
  have hmake := (Change.make_of_isWritten (t := t) hwritten).trans (written_of_error _ hfail)
  have hat := fun p => at?_of_write_error (p := p) hfail
  rw [hmake]
  refine ⟨rfl, ⟨load_congr shown (hat file (by decide)), hat⟩, rfl,
    Change.result_eq_self_iff hwritten, fun later t' hlater hwrite => ?_⟩
  exact ⟨_, (Change.make_of_isWritten hlater).trans (written_of_ok _ hwrite),
    (load_of_write_ok shown hwrite).1⟩

/-- A project. -/
def sampleProject : Project :=
  { id := "app", name := "app", remote := some "https://github.com/acme/app", created := ⟨0, 0⟩,
    updated := ⟨0, 0⟩ }

/-- A data directory with a directory in the place of the temporary file. -/
def blockedTree : FileTree Stored :=
  .dir [("projects.toml.tmp", .dir [])]

/-- The case of a directory that stands where the document is first written. -/
theorem failed_change_stays_sampleProject :
    (Change.upsert sampleProject ⟨1, 0⟩).IsWritten {} ∧
    (((Change.upsert sampleProject ⟨1, 0⟩).result {}).write blockedTree).2 =
      .error (.io "Is a directory (os error 21)") ∧
    ((Change.upsert sampleProject ⟨1, 0⟩).make {} blockedTree).1 =
      (Change.upsert sampleProject ⟨1, 0⟩).result {} := by
  have hwritten : (Change.upsert sampleProject ⟨1, 0⟩).IsWritten {} := trivial
  have hfail : (((Change.upsert sampleProject ⟨1, 0⟩).result {}).write blockedTree).2 =
    .error (.io "Is a directory (os error 21)") := rfl
  exact ⟨hwritten, hfail, (failed_change_stays hwritten hfail "projects.toml").2.2.1⟩

/-- A project whose entering failed is listed and found, and is written by the next change; the file
had no projects and has none after the failure. -/
theorem failed_upsert_answers :
    load "projects.toml" blockedTree = .ok {} ∧
    ∃ r t, ({} : Registry).upsert blockedTree sampleProject ⟨1, 0⟩ =
        (r, t, .error (.config (.io "Is a directory (os error 21)"))) ∧
      load "projects.toml" t = .ok {} ∧
      r.projects.map (·.id) = ["app"] ∧
      (r.findByRemote? "git@github.com:acme/app.git").isSome ∧
      ∃ r' t', r.upsert (.dir []) { sampleProject with id := "other" } ⟨2, 0⟩ = (r', t', .ok
          { sampleProject with id := "other", updated := ⟨2, 0⟩ }) ∧
        (load "projects.toml" t').map (·.projects.map (·.id)) = .ok ["app", "other"] :=
  ⟨rfl, _, _, rfl, rfl, rfl, by decide +kernel, _, _, rfl, rfl⟩

end CallImpact.Registry
