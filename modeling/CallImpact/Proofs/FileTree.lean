import CallImpact.FileTree
import Mathlib.Data.List.Basic

/-!
# What stands where in a tree

`FileTree.at?` looks at a tree path by path: a path leads to a file with its content, to a
directory, or to nothing. Every operation on trees is determined by what it does to this view, and
the lemmas here give one equation for each: writing (`at?_write`), making directories
(`makeDirs_ok`), removing (`at?_removeFile`) and moving a file (`rename_ok`). All of them also say
when the operation succeeds. Of an operation that did succeed it is known without more which files
there are afterwards (`content?_of_writeFile`, `content?_removeFile`, `content?_of_rename`,
`content?_of_makeDirs`).
-/

namespace CallImpact.FileTree

variable {α : Type}

/-- What can stand at a path. -/
inductive Standing (α : Type) where
  | file (content : α)
  | directory

/-- A tree without what is below its root. -/
def standing : FileTree α → Standing α
  | .file content => .file content
  | .dir _ => .directory

/-- What stands at a path. -/
def at? (t : FileTree α) (p : Path) : Option (Standing α) :=
  (t.get? p).map standing

/-! ## Looking -/

@[simp] theorem at?_nil (t : FileTree α) : t.at? [] = some t.standing := by
  cases t <;> rfl

@[simp] theorem at?_file_cons (content : α) (name : String) (rest : Path) :
    (file content).at? (name :: rest) = none := rfl

/-- Below a directory, what stands at a path is what stands at its rest below the entry of its first
name. -/
theorem at?_dir_cons (entries : List (String × FileTree α)) (name : String) (rest : Path) :
    (dir entries).at? (name :: rest) = (entries.lookup name).bind fun sub => sub.at? rest := by
  simp only [at?, get?, FileTree.entries]
  cases entries.lookup name <;> rfl

@[simp] theorem at?_empty_cons (name : String) (rest : Path) :
    (dir [] : FileTree α).at? (name :: rest) = none := rfl

/-- A file that stands at a path is the subtree of that path. -/
theorem get?_of_at?_file {t : FileTree α} {p : Path} {content : α}
    (h : t.at? p = some (.file content)) : t.get? p = some (.file content) := by
  obtain ⟨x, hx, heq⟩ := Option.map_eq_some_iff.mp h
  cases x with
  | file c =>
    cases heq
    exact hx
  | dir _ => cases heq

/-- A directory stands where the view has one. -/
theorem hasDir_iff {t : FileTree α} {p : Path} : t.hasDir p ↔ t.at? p = some .directory := by
  unfold hasDir at?
  cases t.get? p with
  | none => simp
  | some sub => cases sub <;> simp [standing, isDir]

/-- A file is read where the view has it. -/
theorem content?_eq_some_iff {t : FileTree α} {p : Path} {content : α} :
    t.content? p = some content ↔ t.at? p = some (.file content) := by
  unfold content? at?
  cases t.get? p with
  | none => simp
  | some sub => cases sub <;> simp [standing]

/-- A file stands where the view has one. -/
theorem hasFile_iff {t : FileTree α} {p : Path} :
    t.hasFile p ↔ ∃ content, t.at? p = some (.file content) := by
  rw [hasFile, Option.isSome_iff_exists]
  exact exists_congr fun _ => content?_eq_some_iff

/-- What is above something is a directory. -/
theorem at?_eq_directory_of_above {t : FileTree α} {p q : Path} {x : Standing α}
    (hpq : p <+: q) (hne : p ≠ q) (hq : t.at? q = some x) : t.at? p = some .directory := by
  induction p generalizing t q with
  | nil =>
    cases q with
    | nil => exact absurd rfl hne
    | cons name rest =>
      cases t with
      | file content => simp at hq
      | dir entries => rfl
  | cons name p ih =>
    obtain ⟨rest, rfl⟩ := hpq
    cases t with
    | file content => simp at hq
    | dir entries =>
      rw [List.cons_append, at?_dir_cons] at hq
      rw [at?_dir_cons]
      cases hl : entries.lookup name with
      | none => simp [hl] at hq
      | some sub =>
        rw [hl] at hq
        exact ih (List.prefix_append p rest) (fun h => hne (by rw [List.cons_append, ← h])) hq

/-- Nothing is below a file or below nothing. -/
theorem at?_eq_none_of_below {t : FileTree α} {p q : Path} (hpq : p <+: q) (hne : p ≠ q)
    (hp : t.at? p ≠ some .directory) : t.at? q = none := by
  cases hq : t.at? q with
  | none => rfl
  | some x => exact absurd (at?_eq_directory_of_above hpq hne hq) hp

/-! ## Entries of a directory -/

/-- The first entry is found by its name, the others as before. -/
theorem lookup_cons_ite (n other : String) (t : FileTree α) (rest : List (String × FileTree α)) :
    ((n, t) :: rest).lookup other = if other = n then some t else rest.lookup other := by
  by_cases h : other = n
  · simp [h]
  · have hb : (other == n) = false := by simpa using h
    simp [List.lookup_cons, hb, h]

/-- Putting an entry changes what its name leads to and nothing else. -/
theorem lookup_putEntry (name other : String) (sub : FileTree α)
    (entries : List (String × FileTree α)) :
    (putEntry name sub entries).lookup other =
      if other = name then some sub else entries.lookup other := by
  induction entries with
  | nil => rw [putEntry, lookup_cons_ite]
  | cons entry rest ih =>
    obtain ⟨n, t⟩ := entry
    unfold putEntry
    split
    · rw [lookup_cons_ite]
    · split
      · rename_i hlt
        have hn : n ≠ name := fun h => absurd (h ▸ hlt) (String.lt_irrefl _)
        rw [lookup_cons_ite, lookup_cons_ite, ih]
        by_cases h : other = n
        · simp [h, hn]
        · simp [h]
      · rename_i h1 h2
        have hn : n = name := String.le_antisymm (String.not_lt.mp h1) (String.not_lt.mp h2)
        subst hn
        rw [lookup_cons_ite, lookup_cons_ite]
        by_cases h : other = n <;> simp [h]

/-- Removing a name from the entries of a directory leaves what the other names lead to. -/
theorem lookup_filter_ne (name other : String) (entries : List (String × FileTree α)) :
    (entries.filter fun e => e.1 != name).lookup other =
      if other = name then none else entries.lookup other := by
  induction entries with
  | nil => simp
  | cons entry rest ih =>
    obtain ⟨n, t⟩ := entry
    rw [lookup_cons_ite]
    by_cases hn : n = name
    · rw [List.filter_cons_of_neg (by simp [hn]), ih]
      by_cases h : other = name <;> simp [h, hn]
    · rw [List.filter_cons_of_pos (by simpa using hn), lookup_cons_ite, ih]
      by_cases h : other = n
      · simp [h, hn]
      · simp [h]

/-! ## Putting -/

/-- Putting a tree at a path: it stands there whole, directories lead to it, and the rest is as it
was. -/
theorem at?_put? {sub t t' : FileTree α} {p : Path} (h : put? sub p t = some t') (q : Path) :
    t'.at? q = if p <+: q then sub.at? (q.drop p.length)
      else if q <+: p then some .directory else t.at? q := by
  induction p generalizing t t' q with
  | nil =>
    cases h
    simp
  | cons name p ih =>
    cases t with
    | file content => simp [put?] at h
    | dir entries =>
      simp only [put?, Option.map_eq_some_iff] at h
      obtain ⟨inner, hin, rfl⟩ := h
      cases q with
      | nil => simp [standing]
      | cons n q =>
        rw [at?_dir_cons, at?_dir_cons, lookup_putEntry]
        by_cases hn : n = name
        · subst hn
          simp only [if_true, Option.bind_some, ih hin, List.cons_prefix_cons, true_and,
            List.length_cons, List.drop_succ_cons]
          -- a directory that was missing is made empty, so nothing is found below it
          cases hl : entries.lookup n with
          | none =>
            cases q with
            | nil => simp
            | cons m q => simp
          | some old => simp
        · have hne : ¬ name = n := fun h => hn h.symm
          simp [hn, hne, List.cons_prefix_cons]

/-- A tree can be put at a path when no file is above it. -/
theorem put?_isSome {sub t : FileTree α} {p : Path}
    (h : ∀ q content, q <+: p → q ≠ p → t.at? q ≠ some (.file content)) :
    (put? sub p t).isSome := by
  induction p generalizing t with
  | nil => rfl
  | cons name p ih =>
    cases t with
    | file content => exact absurd (at?_nil _) (h [] content (List.nil_prefix) (by simp))
    | dir entries =>
      simp only [put?, Option.isSome_map]
      refine ih fun q content hq hne => ?_
      have hc := h (name :: q) content (by simpa [List.cons_prefix_cons] using hq)
        (by simpa using hne)
      rw [at?_dir_cons] at hc
      cases hl : entries.lookup name with
      | none => cases q <;> simp [standing]
      | some old => simpa [hl] using hc

/-- A tree that was put at a path is there. -/
theorem get?_put? {sub t t' : FileTree α} {p : Path} (h : put? sub p t = some t') :
    t'.get? p = some sub := by
  induction p generalizing t t' with
  | nil =>
    cases h
    rfl
  | cons name p ih =>
    cases t with
    | file content => simp [put?] at h
    | dir entries =>
      simp only [put?, Option.map_eq_some_iff] at h
      obtain ⟨inner, hin, rfl⟩ := h
      rw [get?, FileTree.entries, lookup_putEntry, if_pos rfl]
      exact ih hin

/-- Where a tree cannot be put, there is nothing. -/
theorem get?_of_put?_none {sub t : FileTree α} {p : Path} (h : put? sub p t = none) :
    t.get? p = none := by
  induction p generalizing t with
  | nil => cases h
  | cons name p ih =>
    cases t with
    | file content => rfl
    | dir entries =>
      rw [get?, FileTree.entries]
      cases hl : entries.lookup name with
      | none => rfl
      | some old =>
        simp only [put?, hl, Option.getD_some, Option.map_eq_none_iff] at h
        exact ih h

/-! ## Writing -/

/-- Above a path that leads into a directory, all are directories. -/
theorem at?_eq_directory_of_dropLast {t : FileTree α} {p q : Path} (hp : p ≠ [])
    (hd : t.at? p.dropLast = some .directory) (hq : q <+: p) (hne : q ≠ p) :
    t.at? q = some .directory := by
  have hlast := List.dropLast_append_getLast hp
  rw [← hlast] at hq
  rcases List.prefix_concat_iff.mp hq with h | h
  · exact absurd (h.trans hlast) hne
  · by_cases he : q = p.dropLast
    · rw [he, hd]
    · exact at?_eq_directory_of_above h he hd

/-- A file can be written into a directory where no directory is in its place; then it is there, and
all else is as it was. -/
theorem at?_write {t : FileTree α} {p : Path} (hp : p ≠ [])
    (hd : t.at? p.dropLast = some .directory) (hn : t.at? p ≠ some .directory) (content : α)
    (q : Path) : (t.write p content).at? q = if q = p then some (.file content) else t.at? q := by
  have habove := fun q => at?_eq_directory_of_dropLast (q := q) hp hd
  have hsome : (put? (.file content) p t).isSome :=
    put?_isSome fun q c hq hne => by simp [habove q hq hne]
  obtain ⟨t', ht'⟩ := Option.isSome_iff_exists.mp hsome
  have hdir : t.hasDir p = false := by
    rw [← Bool.not_eq_true, hasDir_iff]
    exact hn
  have hw : t.write p content = t' := by simp [write, hdir, ht']
  rw [hw, at?_put? ht']
  by_cases hq : q = p
  · simp [hq, standing]
  · by_cases hpq : p <+: q
    · -- below the file there was nothing before, and there is nothing now
      obtain ⟨rest, rfl⟩ := hpq
      cases rest with
      | nil => simp at hq
      | cons name rest =>
        rw [at?_eq_none_of_below (List.prefix_append _ _) (Ne.symm hq) hn]
        simp
    · by_cases hqp : q <+: p
      · simp [hq, hpq, hqp, habove q hqp hq]
      · simp [hq, hpq, hqp]

/-- No file is on the way into a directory. -/
theorem not_blocked_of_dropLast {t : FileTree α} {p : Path} (hp : p ≠ [])
    (hd : t.at? p.dropLast = some .directory) : t.blocked p = false := by
  induction p generalizing t with
  | nil => exact absurd rfl hp
  | cons name rest ih =>
    cases t with
    | file content => cases rest <;> simp [standing] at hd
    | dir entries =>
      cases rest with
      | nil => rfl
      | cons next rest =>
        rw [List.dropLast_cons_cons, at?_dir_cons] at hd
        simp only [blocked, isDir, Bool.not_true, Bool.false_or, FileTree.entries]
        cases hl : entries.lookup name with
        | none => rfl
        | some sub =>
          rw [hl] at hd
          exact ih (by simp) hd

/-- Writing into a directory succeeds where no directory is in the file's place. -/
theorem writeFile_ok {t : FileTree α} {p : Path} (hp : p ≠ [])
    (hd : t.at? p.dropLast = some .directory) (hn : t.at? p ≠ some .directory) (content : α) :
    t.writeFile p content = .ok (t.write p content) := by
  have hdir : t.hasDir p = false := by
    rw [← Bool.not_eq_true, hasDir_iff]
    exact hn
  simp [writeFile, hdir, not_blocked_of_dropLast hp hd, hasDir_iff.mpr hd]

/-! ## Making directories -/

/-- A directory can be made when no file is at it or above it; then it and those above it are there,
and all else is as it was. -/
theorem makeDirs_ok {t : FileTree α} {p : Path}
    (h : ∀ q content, q <+: p → t.at? q ≠ some (.file content)) :
    ∃ t', t.makeDirs p = .ok t' ∧
      ∀ q, t'.at? q = if q <+: p then some .directory else t.at? q := by
  have hfile : t.hasFile p = false := by
    rw [← Bool.not_eq_true, hasFile_iff]
    exact fun ⟨c, hc⟩ => h p c (List.prefix_refl p) hc
  cases hp : t.get? p with
  | some sub =>
    have hdir : t.at? p = some .directory := by
      cases sub with
      | file c => exact absurd (by simp [at?, hp, standing]) (h p c (List.prefix_refl p))
      | dir entries => simp [at?, hp, standing]
    refine ⟨t, ?_, fun q => ?_⟩
    · cases sub with
      | file c => exact absurd (by simp [at?, hp, standing]) (h p c (List.prefix_refl p))
      | dir entries => simp [makeDirs, hfile, makeDir?, hp]
    · split
      · rename_i hq
        by_cases he : q = p
        · rw [he, hdir]
        · exact at?_eq_directory_of_above hq he hdir
      · rfl
  | none =>
    have hnone : t.at? p = none := by simp [at?, hp]
    have hsome : (put? (.dir []) p t).isSome := put?_isSome fun q c hq _ => h q c hq
    obtain ⟨t', ht'⟩ := Option.isSome_iff_exists.mp hsome
    refine ⟨t', by simp [makeDirs, hfile, makeDir?, hp, ht'], fun q => ?_⟩
    rw [at?_put? ht']
    by_cases hpq : p <+: q
    · obtain ⟨rest, rfl⟩ := hpq
      cases rest with
      | nil => simp [standing]
      | cons name rest =>
        have hbelow : t.at? (p ++ name :: rest) = none :=
          at?_eq_none_of_below (List.prefix_append _ _) (by simp) (by simp [hnone])
        have hlong : ¬ p ++ name :: rest <+: p := fun hh => by
          have := hh.length_le
          simp only [List.length_append, List.length_cons] at this
          omega
        simp [hbelow, hlong]
    · simp [hpq]

/-! ## Removing and moving -/

/-- Removing what is at a path removes also what is below it, and nothing else. -/
theorem at?_remove {t : FileTree α} {p : Path} (hp : p ≠ []) (q : Path) :
    (remove p t).at? q = if p <+: q then none else t.at? q := by
  induction p generalizing t q with
  | nil => exact absurd rfl hp
  | cons name rest ih =>
    cases t with
    | file content =>
      cases q with
      | nil => simp [remove]
      | cons n q => simp [remove]
    | dir entries =>
      cases q with
      | nil => cases rest with
        | nil => simp [remove, standing]
        | cons next rest =>
          simp only [remove]
          split <;> simp [standing]
      | cons n q =>
        cases rest with
        | nil =>
          simp only [remove, at?_dir_cons]
          rw [lookup_filter_ne]
          by_cases hn : n = name
          · simp [hn]
          · simp [hn, List.cons_prefix_cons, Ne.symm hn]
        | cons next rest =>
          simp only [remove]
          split
          · rename_i sub hl
            rw [at?_dir_cons, lookup_putEntry, at?_dir_cons]
            by_cases hn : n = name
            · subst hn
              simp [hl, ih, List.cons_prefix_cons]
            · simp [hn, List.cons_prefix_cons, Ne.symm hn]
          · rename_i hl
            rw [at?_dir_cons]
            by_cases hn : n = name
            · subst hn
              simp [hl]
            · simp [List.cons_prefix_cons, Ne.symm hn]

/-- Removing a file removes it and nothing else. -/
theorem at?_removeFile {t : FileTree α} {p : Path} (hp : p ≠ [])
    (hn : t.at? p ≠ some .directory) (q : Path) :
    (t.removeFile p).at? q = if q = p then none else t.at? q := by
  unfold removeFile
  split
  · rename_i hf
    rw [at?_remove hp]
    by_cases hq : q = p
    · simp [hq]
    · by_cases hpq : p <+: q
      · simp [hpq, hq, at?_eq_none_of_below hpq (Ne.symm hq) hn]
      · simp [hpq, hq]
  · rename_i hf
    by_cases hq : q = p
    · subst hq
      rw [hasFile_iff, not_exists] at hf
      cases hx : t.at? q with
      | none => simp
      | some x =>
        cases x with
        | file c => exact absurd hx (hf c)
        | directory => exact absurd hx hn
    · simp [hq]

/-- What is there after files were removed was there before. -/
theorem at?_of_removeFiles {t : FileTree α} {ps : List Path} {q : Path} {x : Standing α}
    (h : (ps.foldl removeFile t).at? q = some x) : t.at? q = some x := by
  induction ps generalizing t with
  | nil => exact h
  | cons p ps ih =>
    have hone := ih h
    unfold removeFile at hone
    split at hone
    · by_cases hp : p = []
      · subst hp
        cases t <;> exact hone
      · rw [at?_remove hp] at hone
        split at hone
        · cases hone
        · exact hone
    · exact hone

/-- Removing files one after the other removes them and nothing else. -/
theorem at?_removeFiles {t : FileTree α} {ps : List Path}
    (h : ∀ p ∈ ps, p ≠ [] ∧ t.at? p ≠ some .directory) (q : Path) :
    (ps.foldl removeFile t).at? q = if q ∈ ps then none else t.at? q := by
  induction ps generalizing t with
  | nil => simp
  | cons p ps ih =>
    obtain ⟨hp, hd⟩ := h p List.mem_cons_self
    have hat := at?_removeFile hp hd
    rw [List.foldl_cons, ih fun x hx => ?_, hat]
    · by_cases hq : q = p <;> simp [hq]
    · obtain ⟨hx0, hxd⟩ := h x (List.mem_cons_of_mem p hx)
      refine ⟨hx0, ?_⟩
      rw [hat]
      split
      · simp
      · exact hxd

/-- A file can be moved into a directory where no directory is in its place; then it is there, no
longer where it was, and all else is as before. -/
theorem rename_ok {t : FileTree α} {source target : Path} {content : α}
    (hs : t.at? source = some (.file content)) (hsource : source ≠ []) (htarget : target ≠ [])
    (hd : t.at? target.dropLast = some .directory) (hn : t.at? target ≠ some .directory)
    (hne : source ≠ target) :
    ∃ t', t.rename source target = .ok t' ∧ ∀ q, t'.at? q =
      if q = source then none else if q = target then some (.file content) else t.at? q := by
  have hw := at?_write htarget hd hn content
  have hsw : (t.write target content).at? source ≠ some .directory := by
    rw [hw, if_neg hne, hs]
    simp
  refine ⟨(t.write target content).removeFile source, ?_, fun q => ?_⟩
  · simp [rename, content?_eq_some_iff.mpr hs, writeFile_ok htarget hd hn, Except.map]
  · rw [at?_removeFile hsource hsw, hw]

/-! ## Files after an operation that succeeded -/

/-- A file is written exactly into a directory where no directory is in its place. -/
theorem writeFile_eq_ok_iff {t t' : FileTree α} {p : Path} {content : α} :
    t.writeFile p content = .ok t' ↔
      (p ≠ [] ∧ t.at? p.dropLast = some .directory ∧ t.at? p ≠ some .directory) ∧
        t' = t.write p content := by
  constructor
  · intro h
    unfold writeFile at h
    split at h
    · cases h
    · rename_i hp
      split at h
      · cases h
      · split at h
        · cases h
        · rename_i hd
          rw [Bool.not_eq_true', Bool.not_eq_false, hasDir_iff] at hd
          rw [hasDir_iff] at hp
          refine ⟨⟨fun hnil => ?_, hd, hp⟩, (Except.ok.inj h).symm⟩
          subst hnil
          exact hp hd
  · rintro ⟨⟨hp, hd, hn⟩, rfl⟩
    exact writeFile_ok hp hd hn content

/-- Trees in which the same stands at a path have the same file there. -/
theorem content?_congr {t t' : FileTree α} {p q : Path} (h : t'.at? q = t.at? p) :
    t'.content? q = t.content? p := by
  ext content
  rw [content?_eq_some_iff, content?_eq_some_iff, h]

/-- There is no file where the view has none. -/
theorem content?_eq_none_iff {t : FileTree α} {p : Path} :
    t.content? p = none ↔ ∀ content, t.at? p ≠ some (.file content) := by
  rw [Option.eq_none_iff_forall_ne_some]
  exact forall_congr' fun _ => not_congr content?_eq_some_iff

/-- Where nothing stands, there is no content to read. -/
theorem content?_of_at?_eq_none {t : FileTree α} {p : Path} (h : t.at? p = none) :
    t.content? p = none :=
  content?_eq_none_iff.mpr fun content hx => by
    rw [h] at hx
    cases hx

/-- The same stands at a path in trees that have the same file there and no directory. -/
theorem at?_congr {t t' : FileTree α} {p : Path} (h : t'.content? p = t.content? p)
    (hd : t.at? p ≠ some .directory) (hd' : t'.at? p ≠ some .directory) : t'.at? p = t.at? p := by
  have hnone : ∀ {u : FileTree α}, u.at? p ≠ some .directory → u.content? p = none →
      u.at? p = none := by
    intro u hu hc
    cases hx : u.at? p with
    | none => rfl
    | some x =>
      cases x with
      | file content => exact absurd hx (content?_eq_none_iff.mp hc content)
      | directory => exact absurd hx hu
  cases hc : t.content? p with
  | none => rw [hnone hd hc, hnone hd' (h.trans hc)]
  | some content =>
    rw [content?_eq_some_iff.mp hc, content?_eq_some_iff.mp (h.trans hc)]

/-- A file that was written reads back at its path, and every other path reads as before. -/
theorem content?_of_writeFile {t t' : FileTree α} {p : Path} {content : α}
    (h : t.writeFile p content = .ok t') (q : Path) :
    t'.content? q = if q = p then some content else t.content? q := by
  obtain ⟨⟨hp, hd, hn⟩, rfl⟩ := writeFile_eq_ok_iff.mp h
  have hat := at?_write hp hd hn content q
  split
  · rename_i hq
    rw [if_pos hq] at hat
    exact content?_eq_some_iff.mpr hat
  · rename_i hq
    rw [if_neg hq] at hat
    exact content?_congr hat

/-- A file that was written can be written again. -/
theorem writeFile_of_writeFile {t t' : FileTree α} {p : Path} {content : α}
    (h : t.writeFile p content = .ok t') (other : α) :
    t'.writeFile p other = .ok (t'.write p other) := by
  obtain ⟨⟨hp, hd, hn⟩, rfl⟩ := writeFile_eq_ok_iff.mp h
  have hat := at?_write hp hd hn content
  have hlast : p.dropLast ≠ p := fun he => by
    have := congrArg List.length he
    rw [List.length_dropLast] at this
    have := List.length_pos_iff.mpr hp
    omega
  refine writeFile_ok hp ?_ ?_ other
  · rw [hat, if_neg hlast, hd]
  · rw [hat, if_pos rfl]
    simp

/-- Removing a file takes that file away and no other. -/
theorem content?_removeFile (t : FileTree α) {p q : Path} (hq : q ≠ []) :
    (t.removeFile p).content? q = if q = p then none else t.content? q := by
  by_cases hp : t.hasFile p
  · obtain ⟨content, hc⟩ := hasFile_iff.mp hp
    by_cases hnil : p = []
    · -- the root is a file, which cannot be removed, and there is nothing else
      subst hnil
      rw [if_neg hq]
      cases t with
      | file c => rw [removeFile, if_pos hp, remove]
      | dir entries => simp [standing] at hc
    · have hat := at?_removeFile (t := t) hnil (by simp [hc]) q
      split
      · rename_i he
        rw [if_pos he] at hat
        rw [Option.eq_none_iff_forall_ne_some]
        intro c hc'
        rw [content?_eq_some_iff, hat] at hc'
        cases hc'
      · rename_i he
        rw [if_neg he] at hat
        exact content?_congr hat
  · rw [removeFile, if_neg hp]
    split
    · rename_i he
      subst he
      simpa [hasFile] using hp
    · rfl

/-- Removing files one after the other takes those files away and no other. -/
theorem content?_removeFiles (t : FileTree α) (ps : List Path) {q : Path} (hq : q ≠ []) :
    (ps.foldl removeFile t).content? q = if q ∈ ps then none else t.content? q := by
  induction ps generalizing t with
  | nil => simp
  | cons p ps ih =>
    rw [List.foldl_cons, ih, content?_removeFile t hq]
    by_cases he : q = p <;> simp [he]

/-- Where the root is a directory, this holds of every path. -/
theorem content?_removeFiles_of_root {t : FileTree α} (hroot : t.content? [] = none)
    (ps : List Path) (q : Path) :
    (ps.foldl removeFile t).content? q = if q ∈ ps then none else t.content? q := by
  by_cases hq : q = []
  · subst hq
    have hnone : (ps.foldl removeFile t).content? [] = none := by
      rw [Option.eq_none_iff_forall_ne_some]
      intro c hc
      have hbefore := content?_eq_some_iff.mpr (at?_of_removeFiles (content?_eq_some_iff.mp hc))
      rw [hroot] at hbefore
      cases hbefore
    rw [hnone, hroot, ite_self]
  · exact content?_removeFiles t ps hq

/-- A file that is moved is written in its new place and removed from the old one. -/
theorem rename_eq_ok_iff {t t' : FileTree α} {source target : Path} :
    t.rename source target = .ok t' ↔ ∃ content written, t.content? source = some content ∧
      t.writeFile target content = .ok written ∧ t' = written.removeFile source := by
  unfold rename
  cases t.content? source with
  | none => exact iff_of_false nofun (by simp)
  | some content =>
    dsimp only
    cases hw : t.writeFile target content with
    | error e => exact iff_of_false nofun (by simp [hw])
    | ok written => simp [Except.map, hw, eq_comm]

/-- A file that was moved is in its new place and no longer in the old one. -/
theorem content?_of_rename {t t' : FileTree α} {source target q : Path}
    (h : t.rename source target = .ok t') (hq : q ≠ []) :
    t'.content? q = if q = source then none else if q = target then t.content? source
      else t.content? q := by
  obtain ⟨content, written, hc, hw, rfl⟩ := rename_eq_ok_iff.mp h
  rw [content?_removeFile _ hq, content?_of_writeFile hw, hc]

/-- Where a tree was put, no file was above it. -/
theorem ne_file_of_put? {sub t t' : FileTree α} {p q : Path} (h : put? sub p t = some t')
    (hq : q <+: p) (hne : q ≠ p) (content : α) : t.at? q ≠ some (.file content) := by
  induction p generalizing t t' q with
  | nil => exact absurd (List.prefix_nil.mp hq) hne
  | cons name p ih =>
    cases t with
    | file c => cases h
    | dir entries =>
      simp only [put?, Option.map_eq_some_iff] at h
      obtain ⟨inner, hinner, -⟩ := h
      cases q with
      | nil => simp [standing]
      | cons n q =>
        obtain ⟨rfl, hrest⟩ := List.cons_prefix_cons.mp hq
        have hsub := ih hinner hrest fun he => hne (by rw [he])
        rw [at?_dir_cons]
        cases hl : entries.lookup n with
        | none => simp
        | some old => simpa [hl] using hsub

/-- Where directories were made, no file is in the way. -/
theorem ne_file_of_makeDirs {t t' : FileTree α} {p q : Path} (h : t.makeDirs p = .ok t')
    (hq : q <+: p) (content : α) : t.at? q ≠ some (.file content) := by
  unfold makeDirs at h
  split at h
  · cases h
  · rename_i hfile
    rw [hasFile_iff, not_exists] at hfile
    by_cases he : q = p
    · exact he ▸ hfile content
    · cases hget : t.get? p with
      | none =>
        cases hput : put? (.dir []) p t with
        | none => simp [makeDir?, hget, hput] at h
        | some made => exact ne_file_of_put? hput hq he content
      | some sub =>
        have hat := at?_eq_directory_of_above hq he (t := t) (x := sub.standing)
          (by simp [at?, hget])
        simp [hat]

/-- Putting directories where no file is takes no file away and adds none. -/
theorem content?_of_at?_above {t t' : FileTree α} {dir p : Path}
    (habove : ∀ content, p <+: dir → t.at? p ≠ some (.file content))
    (hat : t'.at? p = if p <+: dir then some .directory else t.at? p) :
    t'.content? p = t.content? p := by
  by_cases hp : p <+: dir
  · rw [if_pos hp] at hat
    rw [content?_eq_none_iff.mpr fun content => habove content hp, content?_eq_none_iff, hat]
    simp
  · rw [if_neg hp] at hat
    exact content?_congr hat

/-- Making directories takes no file away and adds none. -/
theorem content?_of_makeDirs {t t' : FileTree α} {p : Path} (h : t.makeDirs p = .ok t')
    (q : Path) : t'.content? q = t.content? q := by
  obtain ⟨made, hmade, hat⟩ := makeDirs_ok fun q content hq => ne_file_of_makeDirs h hq content
  obtain rfl : made = t' := Except.ok.inj (hmade.symm.trans h)
  exact content?_of_at?_above (fun content hq => ne_file_of_makeDirs h hq content) (hat q)

/-! ## What stands elsewhere after an operation -/

section
variable {t t' : FileTree α} {p q : Path}

/-- Removing a file changes nothing at other paths, even where a directory is in its place. -/
theorem at?_removeFile_of_ne (t : FileTree α) (hq : q ≠ p) : (t.removeFile p).at? q = t.at? q := by
  by_cases hd : t.at? p = some .directory
  · have hfile : ¬ t.hasFile p := by
      rw [hasFile_iff, hd]
      rintro ⟨content, ⟨⟩⟩
    rw [removeFile, if_neg hfile]
  · by_cases hp : p = []
    · -- a root that is a file stays
      subst hp
      cases t with
      | file content => rw [removeFile, remove, ite_self]
      | dir entries => exact absurd (at?_nil _) hd
    · rw [at?_removeFile hp hd, if_neg hq]

/-- Removing files leaves what stands at every other path. -/
theorem at?_removeFiles_of_not_mem (t : FileTree α) {ps : List Path} (hq : q ∉ ps) :
    (ps.foldl removeFile t).at? q = t.at? q := by
  induction ps generalizing t with
  | nil => rfl
  | cons p ps ih =>
    obtain ⟨hne, hps⟩ := not_or.mp (List.mem_cons.not.mp hq)
    rw [List.foldl_cons, ih _ hps, at?_removeFile_of_ne t hne]

/-- Writing a file changes what stands at its own path only. -/
theorem at?_of_writeFile {content : α} (h : t.writeFile p content = .ok t') (hq : q ≠ p) :
    t'.at? q = t.at? q := by
  obtain ⟨⟨hp, hd, hn⟩, rfl⟩ := writeFile_eq_ok_iff.mp h
  rw [at?_write hp hd hn content, if_neg hq]

/-- A rename changes what stands at its source and its target only. -/
theorem at?_of_rename {source target : Path} (h : t.rename source target = .ok t')
    (hsource : q ≠ source) (htarget : q ≠ target) : t'.at? q = t.at? q := by
  obtain ⟨content, written, -, hw, rfl⟩ := rename_eq_ok_iff.mp h
  rw [at?_removeFile_of_ne written hsource, at?_of_writeFile hw htarget]

/-- Making directories changes only what stands along the path that is made. -/
theorem at?_of_makeDirs (h : t.makeDirs p = .ok t') (hq : ¬ q <+: p) : t'.at? q = t.at? q := by
  obtain ⟨made, hmade, hat⟩ := makeDirs_ok fun q content hq => ne_file_of_makeDirs h hq content
  obtain rfl : made = t' := Except.ok.inj (hmade.symm.trans h)
  rw [hat, if_neg hq]

end

/-! ## What holds of all files -/

/-- Whether every file of a tree has a property, which may depend on where it is. -/
def AllFiles (P : Path → α → Prop) (t : FileTree α) : Prop :=
  ∀ p content, t.content? p = some content → P p content

namespace AllFiles

variable {P : Path → α → Prop} {t t' : FileTree α} {p : Path}

/-- Making directories adds no file. -/
theorem makeDirs (h : AllFiles P t) (hmade : t.makeDirs p = .ok t') : AllFiles P t' :=
  fun q content hq => h q content (content?_of_makeDirs hmade q ▸ hq)

/-- A file that is written is the only new one. -/
theorem writeFile (h : AllFiles P t) {content : α} (hp : P p content)
    (hwritten : t.writeFile p content = .ok t') : AllFiles P t' := by
  intro q other hq
  rw [content?_of_writeFile hwritten] at hq
  split at hq
  · rename_i heq
    cases hq
    exact heq ▸ hp
  · exact h q other hq

/-- Removing files adds none. -/
theorem removeFiles (h : AllFiles P t) (ps : List Path) : AllFiles P (ps.foldl removeFile t) :=
  fun q content hq =>
    h q content (content?_eq_some_iff.mpr (at?_of_removeFiles (content?_eq_some_iff.mp hq)))

/-- A file that is moved has the property in its new place when it has it there. -/
theorem rename (h : AllFiles P t) {source target : Path}
    (hmoves : ∀ content, t.content? source = some content → P target content)
    (hmoved : t.rename source target = .ok t') : AllFiles P t' := by
  obtain ⟨content, written, hcontent, hwritten, rfl⟩ := rename_eq_ok_iff.mp hmoved
  exact (h.writeFile (hmoves content hcontent) hwritten).removeFiles [source]

end AllFiles

end CallImpact.FileTree
