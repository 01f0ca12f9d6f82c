import CallImpact.Proofs.Sources

/-!
# The root of the module

The search for a module goes down level by level. A level holds the directories of one depth that
are not behind a skipped name, in the order of their paths (`IsLevel`), and so does the level
below it: the directories below an earlier one come before those below a later one
(`IsLevel.next`). So the first directory with a module file is the shallowest, and the first in
the order of paths among those of its depth (`moduleRoot_exact`).
-/

namespace CallImpact

/-! ## Module directories -/

/-- Whether a directory holds a module file and has no skipped name on the way to it. -/
structure HoldsModule (root : FileTree Content) (p : Path) : Prop where
  file : root.hasFile (p ++ ["go.mod"])
  searched : ∀ name ∈ p, ¬ IsSkippedName name

/-- Whether a path is shorter than another one, or as long and before it in the order of paths. -/
def IsShallower (p q : Path) : Prop :=
  p.length < q.length ∨ p.length = q.length ∧ p < q

/-- Of two paths at most one is the shallower. -/
theorem IsShallower.asymm {p q : Path} (h : IsShallower p q) : ¬ IsShallower q p := by
  rcases h with hlt | ⟨heq, hlt⟩
  · rintro (hlt' | ⟨heq', -⟩) <;> omega
  · rintro (hlt' | ⟨-, hlt'⟩)
    · omega
    · exact lt_asymm hlt hlt'

/-- Only a directory has entries. -/
theorem isDir_of_get?_singleton {t sub : FileTree Content} {name : String}
    (h : t.get? [name] = some sub) : t.isDir := by
  cases t with
  | file content => cases h
  | dir entries => rfl

/-- There is a directory where a module file is held. -/
theorem HoldsModule.exists_dir {root : FileTree Content} {p : Path} (h : HoldsModule root p) :
    ∃ sub, root.get? p = some sub ∧ sub.isDir ∧ sub.hasFile [moduleFile] := by
  obtain ⟨content, hcontent⟩ := Option.isSome_iff_exists.mp h.file
  have hget := FileTree.get?_eq_file_iff.mpr hcontent
  rw [FileTree.get?_append] at hget
  obtain ⟨sub, hsub, hfile⟩ := Option.bind_eq_some_iff.mp hget
  have hheld := h.file
  rw [FileTree.hasFile_append hsub] at hheld
  exact ⟨sub, hsub, isDir_of_get?_singleton hfile, hheld⟩

/-! ## Levels -/

/-- What differs first among paths of one length decides also what lies below them. -/
theorem append_lt_append_of_lt {p q : Path} (hlen : p.length = q.length) (h : p < q) (r s : Path) :
    p ++ r < q ++ s := by
  induction p generalizing q with
  | nil =>
    obtain rfl := List.length_eq_zero_iff.mp hlen.symm
    exact absurd h (lt_irrefl _)
  | cons a p ih =>
    cases q with
    | nil => cases hlen
    | cons b q =>
      rw [List.cons_append, List.cons_append, List.cons_lt_cons_iff]
      rcases List.cons_lt_cons_iff.mp h with hlt | ⟨heq, hlt⟩
      · exact .inl hlt
      · exact .inr ⟨heq, ih (Nat.succ.inj hlen) hlt⟩

/-- Below a directory, its directories are searched whose names are not skipped. -/
theorem mem_searchedBelow_iff {d below : Located} : below ∈ searchedBelow d ↔
    ∃ name, (name, below.2) ∈ d.2.entries ∧ below.2.isDir ∧ ¬ IsSkippedName name ∧
      below.1 = d.1 ++ [name] := by
  simp only [searchedBelow, List.mem_map, List.mem_filter, Bool.and_eq_true, Bool.not_eq_true',
    ← isSkippedDir_iff, Bool.not_eq_true]
  constructor
  · rintro ⟨⟨name, sub⟩, ⟨hmem, hdir, hskipped⟩, rfl⟩
    exact ⟨name, hmem, hdir, hskipped, rfl⟩
  · rintro ⟨name, hmem, hdir, hskipped, heq⟩
    exact ⟨(name, below.2), ⟨hmem, hdir, hskipped⟩, Prod.ext heq.symm rfl⟩

/-- Whether directories are those of one depth behind no skipped name, in the order of their
paths. -/
structure IsLevel (root : FileTree Content) (depth : Nat) (dirs : List Located) : Prop where
  mem : ∀ d, d ∈ dirs ↔ root.get? d.1 = some d.2 ∧ d.2.isDir ∧ d.1.length = depth ∧
    ∀ name ∈ d.1, ¬ IsSkippedName name
  order : (dirs.map (·.1)).Pairwise (· < ·)

section
variable {root : FileTree Content} {depth levels : Nat} {dirs : List Located} {d : Located}

/-- The first level is the root alone. -/
theorem isLevel_root (hroot : root.isDir) : IsLevel root 0 [([], root)] where
  mem d := by
    rw [List.mem_singleton]
    constructor
    · rintro rfl
      exact ⟨rfl, hroot, rfl, by simp⟩
    · rintro ⟨hget, -, hlen, -⟩
      have hnil := List.length_eq_zero_iff.mp hlen
      rw [hnil] at hget
      exact Prod.ext hnil (Option.some.inj hget).symm
  order := List.pairwise_singleton _ _

/-- The directories below those of a level that are searched are the next level. -/
theorem IsLevel.next (h : root.IsOrdered) (hlevel : IsLevel root depth dirs) :
    IsLevel root (depth + 1) (dirs.flatMap searchedBelow) where
  mem below := by
    rw [List.mem_flatMap]
    constructor
    · rintro ⟨d, hd, hbelow⟩
      obtain ⟨hget, -, hlen, hnames⟩ := (hlevel.mem d).mp hd
      have hget' := get?_of_mem_searchedBelow h.hasDistinctNames hget hbelow
      obtain ⟨name, -, hdir, hskipped, heq⟩ := mem_searchedBelow_iff.mp hbelow
      refine ⟨hget', hdir, by rw [heq, List.length_append, hlen]; rfl, ?_⟩
      rw [heq]
      exact List.forall_mem_append.mpr ⟨hnames, by simpa using hskipped⟩
    · rintro ⟨hget, hdir, hlen, hnames⟩
      -- the directory lies below the one that its path without the last name leads to
      obtain ⟨p, name, hpath⟩ : ∃ p name, below.1 = p ++ [name] :=
        ⟨_, _, (List.dropLast_append_getLast (List.ne_nil_of_length_eq_add_one hlen)).symm⟩
      rw [hpath, FileTree.get?_append] at hget
      obtain ⟨above, habove, hget⟩ := Option.bind_eq_some_iff.mp hget
      rw [hpath, List.length_append] at hlen
      rw [hpath] at hnames
      obtain ⟨hnames, hname⟩ := List.forall_mem_append.mp hnames
      refine ⟨(p, above), (hlevel.mem _).mpr ?_, mem_searchedBelow_iff.mpr ?_⟩
      · exact ⟨habove, isDir_of_get?_singleton hget, Nat.succ.inj hlen, hnames⟩
      · have hentry := (h.get? habove).hasDistinctNames.get?_singleton.mp hget
        exact ⟨name, hentry, hdir, by simpa using hname, hpath⟩
  order := by
    rw [List.map_flatMap, List.pairwise_flatMap]
    constructor
    · intro d hd
      obtain ⟨hget, -⟩ := (hlevel.mem d).mp hd
      have hentries : FileTree.Increase d.2.entries := by
        cases htree : d.2 with
        | file content => exact .nil
        | dir entries => exact h d.1 entries (hget.trans (by rw [htree]))
      rw [searchedBelow, List.map_map, List.pairwise_map]
      refine (List.Pairwise.filter _ hentries).imp fun hlt => ?_
      exact List.append_left_lt (List.cons_lt_cons_iff.mpr (.inl hlt))
    · have hlengths : ∀ d ∈ dirs, d.1.length = depth := fun d hd => ((hlevel.mem d).mp hd).2.2.1
      refine (List.pairwise_map.mp hlevel.order).imp_of_mem fun {a b} ha hb hlt => ?_
      intro p hp q hq
      obtain ⟨below, hbelow, rfl⟩ := List.mem_map.mp hp
      obtain ⟨below', hbelow', rfl⟩ := List.mem_map.mp hq
      obtain ⟨name, -, -, -, heq⟩ := mem_searchedBelow_iff.mp hbelow
      obtain ⟨name', -, -, -, heq'⟩ := mem_searchedBelow_iff.mp hbelow'
      rw [heq, heq']
      exact append_lt_append_of_lt ((hlengths a ha).trans (hlengths b hb).symm) hlt _ _

/-- What holds a module at the depth of a level is in it. -/
theorem IsLevel.exists_mem (hlevel : IsLevel root depth dirs) {q : Path} (hq : HoldsModule root q)
    (hlen : q.length = depth) : ∃ sub, (q, sub) ∈ dirs ∧ sub.hasFile [moduleFile] := by
  obtain ⟨sub, hget, hdir, hfile⟩ := hq.exists_dir
  exact ⟨sub, (hlevel.mem (q, sub)).mpr ⟨hget, hdir, hlen, hq.searched⟩, hfile⟩

/-! ## The search -/

/-- The first directory of a level with a module file comes before all others that are as deep or
deeper. -/
theorem IsLevel.first (hlevel : IsLevel root depth dirs)
    (hfind : dirs.find? (fun d => d.2.hasFile [moduleFile]) = some d) :
    root.get? d.1 = some d.2 ∧ HoldsModule root d.1 ∧ d.1.length = depth ∧
      ∀ q, HoldsModule root q → depth ≤ q.length → q ≠ d.1 → IsShallower d.1 q := by
  obtain ⟨hfile, before, after, rfl, hbefore⟩ := List.find?_eq_some_iff_append.mp hfind
  obtain ⟨hget, -, hlen, hnames⟩ := (hlevel.mem d).mp (by simp)
  have hheld : root.hasFile (d.1 ++ ["go.mod"]) := (FileTree.hasFile_append hget _).trans hfile
  refine ⟨hget, ⟨hheld, hnames⟩, hlen, fun q hq hle hne => ?_⟩
  rcases Nat.lt_or_eq_of_le hle with hlt | heq
  · exact .inl (by omega)
  · obtain ⟨sub, hmem, hsub⟩ := hlevel.exists_mem hq heq.symm
    rcases List.mem_append.mp hmem with hmem | hmem
    · have hnone := hbefore _ hmem
      rw [hsub] at hnone
      cases hnone
    · rcases List.mem_cons.mp hmem with rfl | hmem
      · exact absurd rfl hne
      · have horder := hlevel.order
        rw [List.map_append, List.map_cons, List.pairwise_append, List.pairwise_cons] at horder
        exact .inr ⟨hlen.trans heq, horder.2.1.1 q (List.mem_map.mpr ⟨_, hmem, rfl⟩)⟩

/-- A level without a module file is of no depth at which a module is held. -/
theorem IsLevel.length_ne (hlevel : IsLevel root depth dirs)
    (hfind : dirs.find? (fun d => d.2.hasFile [moduleFile]) = none) {q : Path}
    (hq : HoldsModule root q) : q.length ≠ depth := by
  intro hlen
  obtain ⟨sub, hmem, hsub⟩ := hlevel.exists_mem hq hlen
  exact List.find?_eq_none.mp hfind _ hmem hsub

/-- What the search finds from a level on comes before all others from there on. -/
theorem IsLevel.moduleAmong?_eq_some (h : root.IsOrdered) (hlevel : IsLevel root depth dirs)
    (hfound : moduleAmong? levels dirs = some d) :
    root.get? d.1 = some d.2 ∧ HoldsModule root d.1 ∧ d.1.length ≤ depth + levels ∧
      ∀ q, HoldsModule root q → depth ≤ q.length → q ≠ d.1 → IsShallower d.1 q := by
  fun_induction moduleAmong? levels dirs generalizing depth with
  | case1 levels dirs found hfind =>
    cases hfound
    obtain ⟨hget, hholds, hlen, hfirst⟩ := hlevel.first hfind
    exact ⟨hget, hholds, by omega, hfirst⟩
  | case2 => cases hfound
  | case3 dirs hfind levels ih =>
    obtain ⟨hget, hholds, hlen, hfirst⟩ := ih (hlevel.next h) hfound
    refine ⟨hget, hholds, by omega, fun q hq hle hne => hfirst q hq ?_ hne⟩
    have hdepth := hlevel.length_ne hfind hq
    omega

/-- Where the search finds nothing from a level on, modules are held only above or below the
levels that it goes through. -/
theorem IsLevel.moduleAmong?_eq_none (h : root.IsOrdered) (hlevel : IsLevel root depth dirs)
    (hfound : moduleAmong? levels dirs = none) {q : Path} (hq : HoldsModule root q)
    (hle : depth ≤ q.length) : depth + levels < q.length := by
  fun_induction moduleAmong? levels dirs generalizing depth with
  | case1 => cases hfound
  | case2 dirs hfind =>
    have hdepth := hlevel.length_ne hfind hq
    omega
  | case3 dirs hfind levels ih =>
    have hdepth := hlevel.length_ne hfind hq
    have hfurther := ih (hlevel.next h) hfound (by omega)
    omega

end

/-- No module root is found exactly when no directory down to two levels holds a module. -/
theorem moduleRoot?_eq_none_iff {root : FileTree Content} (h : root.IsOrdered)
    (hroot : root.isDir) :
    moduleRoot? root = none ↔ ∀ q, q.length ≤ 2 → ¬ HoldsModule root q := by
  constructor
  · intro hnone q hlen hq
    have hdeep := (isLevel_root hroot).moduleAmong?_eq_none h hnone hq (Nat.zero_le _)
    rw [moduleSearchDepth] at hdeep
    omega
  · intro hnone
    cases hfound : moduleRoot? root with
    | none => rfl
    | some d =>
      obtain ⟨-, hholds, hlen, -⟩ := (isLevel_root hroot).moduleAmong?_eq_some h hfound
      rw [moduleSearchDepth] at hlen
      exact absurd hholds (hnone d.1 (by omega))

/-- A module that the search finds is not missing when it is opened, whatever else is wrong with
it. -/
theorem openModule_ne_missing {shown missing : String} {root : FileTree Content} {d : Located}
    (hfound : moduleRoot? root = some d) :
    openModule shown (some root) ≠ .error (.missingModule missing) := by
  intro h
  unfold openModule at h
  split at h
  · rename_i hroot
    cases hroot
    rw [hfound] at h
    dsimp only at h
    split at h
    · split at h
      · cases h
      · cases h
    · cases h
  · cases h

/-- Loading fails for want of a module just where the search finds none. -/
theorem loadProgram_missing_iff {shown : String} {root : FileTree Content} (hroot : root.isDir)
    (exclude : List String) :
    loadProgram shown (some root) exclude = .error (.missingModule shown) ↔
      moduleRoot? root = none := by
  cases root with
  | file content => cases hroot
  | dir entries =>
    cases hfound : moduleRoot? (.dir entries) with
    | none =>
      have hopen : openModule shown (some (.dir entries)) = .error (.missingModule shown) := by
        unfold openModule
        dsimp only
        rw [hfound]
        rfl
      refine iff_of_true ?_ rfl
      unfold loadProgram
      rw [hopen]
      rfl
    | some d =>
      refine iff_of_false (fun h => ?_) (Option.some_ne_none d)
      unfold loadProgram at h
      cases hopen : openModule shown (some (.dir entries)) with
      | error e =>
        rw [hopen] at h
        cases h
        exact openModule_ne_missing hfound hopen
      | ok opened =>
        rw [hopen] at h
        cases h

/-- Among the root of a tree and the directories one and two levels below it that no skipped name
leads to, the root of the module is the shallowest with a module file, and of those as shallow the
first in the order of paths. Loading fails for want of a module exactly when none of them has a
module file. -/
theorem moduleRoot_exact {root : FileTree Content} (h : root.IsOrdered) (hroot : root.isDir) :
    (∀ p sub, moduleRoot? root = some (p, sub) ↔
      root.get? p = some sub ∧ p.length ≤ 2 ∧ HoldsModule root p ∧
        ∀ q, q.length ≤ 2 → HoldsModule root q → q ≠ p → IsShallower p q) ∧
    (moduleRoot? root = none ↔ ∀ q, q.length ≤ 2 → ¬ HoldsModule root q) ∧
    ∀ shown exclude, loadProgram shown (some root) exclude = .error (.missingModule shown) ↔
      ∀ q, q.length ≤ 2 → ¬ HoldsModule root q := by
  have hsome : ∀ p sub, moduleRoot? root = some (p, sub) → root.get? p = some sub ∧ p.length ≤ 2 ∧
      HoldsModule root p ∧ ∀ q, HoldsModule root q → q ≠ p → IsShallower p q := by
    intro p sub hfound
    obtain ⟨hget, hholds, hlen, hfirst⟩ := (isLevel_root hroot).moduleAmong?_eq_some h hfound
    rw [moduleSearchDepth, Nat.zero_add] at hlen
    exact ⟨hget, hlen, hholds, fun q hq => hfirst q hq (Nat.zero_le _)⟩
  refine ⟨fun p sub => ⟨fun hfound => ?_, ?_⟩, moduleRoot?_eq_none_iff h hroot,
    fun shown exclude =>
      (loadProgram_missing_iff hroot exclude).trans (moduleRoot?_eq_none_iff h hroot)⟩
  · obtain ⟨hget, hlen, hholds, hfirst⟩ := hsome p sub hfound
    exact ⟨hget, hlen, hholds, fun q _ => hfirst q⟩
  · rintro ⟨hget, hlen, hholds, hfirst⟩
    cases hfound : moduleRoot? root with
    | none => exact absurd hholds ((moduleRoot?_eq_none_iff h hroot).mp hfound p hlen)
    | some d =>
      obtain ⟨hget', hlen', hholds', hfirst'⟩ := hsome d.1 d.2 hfound
      -- each of the two comes before all others, so they are the same
      have heq : d.1 = p := by
        by_contra hne
        exact (hfirst d.1 hlen' hholds' hne).asymm (hfirst' p hholds (Ne.symm hne))
      rw [heq, hget] at hget'
      exact congrArg some (Prod.ext heq (Option.some.inj hget').symm)

/-- Modules on one level and the next one, one that is never searched and one that lies too deep. -/
def scatteredModules : FileTree Content :=
  [(["_old", "go.mod"], .text "module old\n"), (["a", "lib", "go.mod"], .text "module lib\n"),
    (["b", "go.mod"], .text "module b\n"), (["c", "go.mod"], .text "module c\n"),
    (["a", "x", "y", "go.mod"], .text "module y\n")].foldl
    (fun t file => t.write file.1 file.2) (.dir [])

/-- The case of a tree with modules on two levels, two of them on the first. -/
theorem moduleRoot_exact_scattered :
    scatteredModules.IsOrdered ∧ scatteredModules.isDir ∧
    HoldsModule scatteredModules ["a", "lib"] ∧ HoldsModule scatteredModules ["c"] ∧
    ∃ sub, moduleRoot? scatteredModules = some (["b"], sub) ∧
      scatteredModules.get? ["b"] = some sub ∧ HoldsModule scatteredModules ["b"] ∧
      (∀ q, q.length ≤ 2 → HoldsModule scatteredModules q → q ≠ ["b"] → IsShallower ["b"] q) ∧
      loadProgram "." (some scatteredModules) [] ≠ .error (.missingModule ".") := by
  have hordered : scatteredModules.IsOrdered := FileTree.isOrdered_written _
  have hdir : scatteredModules.isDir := rfl
  obtain ⟨hroot, -, hmissing⟩ := moduleRoot_exact hordered hdir
  obtain ⟨sub, hfound⟩ : ∃ sub, moduleRoot? scatteredModules = some (["b"], sub) := ⟨_, rfl⟩
  obtain ⟨hget, hlen, hholds, hfirst⟩ := (hroot ["b"] sub).mp hfound
  refine ⟨hordered, hdir, ⟨rfl, ?_⟩, ⟨rfl, ?_⟩, sub, hfound, hget, hholds, hfirst, fun herror => ?_⟩
  · simp only [← isSkippedDir_iff]
    decide
  · simp only [← isSkippedDir_iff]
    decide
  · exact (hmissing "." []).mp herror ["b"] hlen hholds

end CallImpact
