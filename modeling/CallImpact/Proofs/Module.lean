import CallImpact.Module
import CallImpact.Proofs.FileTree.Order
import CallImpact.Proofs.Path

/-!
# Sources of a module

In a tree as a file system has it (`FileTree.IsProper`), the root of the module and the sources
that are collected below it are at their paths (`get?_of_moduleRoot?`,
`exists_of_mem_moduleSources`). What the walk through the directories collects is just what lies
below directories that are searched: no directory between the root of the module and a source has
a module file or a name that is skipped (`mem_sourcesOf_iff`).
-/

namespace CallImpact

/-! ## Proper trees -/

namespace FileTree

variable {α : Type}

/-- Whether the entries of all directories have different names, and names without backslashes. -/
def IsProper (t : FileTree α) : Prop :=
  ∀ p entries, t.get? p = some (.dir entries) →
    (entries.map (·.1)).Nodup ∧ ∀ e ∈ entries, IsName e.1 ∧ '\\' ∉ e.1.toList

/-- A subtree of a proper tree is proper. -/
theorem IsProper.get? {t sub : FileTree α} {p : Path} (h : t.IsProper) (hp : t.get? p = some sub) :
    sub.IsProper :=
  EachDir.get? h hp

/-- The names within each directory of a proper tree are distinct. -/
theorem IsProper.hasDistinctNames {t : FileTree α} (h : t.IsProper) : t.HasDistinctNames :=
  fun p entries hp => (h p entries hp).1

/-- A file alone is a proper tree. -/
theorem IsProper.file (content : α) : (FileTree.file content).IsProper :=
  eachDir_file content

/-- A directory of proper trees under distinct names that can stand in a path is proper. -/
theorem IsProper.dir {entries : List (String × FileTree α)} (hnodup : (entries.map (·.1)).Nodup)
    (hnames : ∀ e ∈ entries, IsName e.1 ∧ '\\' ∉ e.1.toList) (hsub : ∀ e ∈ entries, e.2.IsProper) :
    (FileTree.dir entries).IsProper :=
  eachDir_dir ⟨hnodup, hnames⟩ hsub

/-- The components of a path to something in a proper tree are names. -/
theorem IsProper.isName {t sub : FileTree α} {p : Path} (h : t.IsProper)
    (hp : t.get? p = some sub) :
    ∀ c ∈ p, IsName c ∧ '\\' ∉ c.toList := by
  induction p generalizing t with
  | nil => simp
  | cons name p ih =>
    obtain ⟨next, hnext, hp⟩ := Option.bind_eq_some_iff.mp hp
    have hfirst : t.get? [name] = some next := by simp [FileTree.get?, hnext]
    intro c hc
    rcases List.mem_cons.mp hc with rfl | hc
    · cases t with
      | file content => simp [FileTree.entries] at hnext
      | dir entries => exact (h [] entries rfl).2 _ (mem_of_lookup hnext)
    · exact ih (h.get? hfirst) hp c hc

end FileTree

/-! ## The root of the module -/

open FileTree (IsProper)

/-- Directories that are searched are at their paths. -/
theorem get?_of_mem_searchedBelow {root : FileTree Content} (h : root.HasDistinctNames)
    {d below : Located} (hd : root.get? d.1 = some d.2) (hbelow : below ∈ searchedBelow d) :
    root.get? below.1 = some below.2 := by
  obtain ⟨⟨name, sub⟩, hmem, rfl⟩ := List.mem_map.mp hbelow
  have hentry := (h.get? hd).get?_singleton.mpr (List.mem_filter.mp hmem).1
  rw [FileTree.get?_append, hd]
  exact hentry

/-- The root of the module is a directory at its path, with a module file. -/
theorem get?_of_moduleAmong? {root : FileTree Content} (h : root.HasDistinctNames) {levels : Nat}
    {dirs : List Located} {found : Located} (hdirs : ∀ d ∈ dirs, root.get? d.1 = some d.2)
    (hfound : moduleAmong? levels dirs = some found) : root.get? found.1 = some found.2 := by
  induction levels generalizing dirs with
  | zero =>
    unfold moduleAmong? at hfound
    split at hfound
    · rename_i d hd
      cases hfound
      exact hdirs _ (List.mem_of_find?_eq_some hd)
    · cases hfound
  | succ levels ih =>
    unfold moduleAmong? at hfound
    split at hfound
    · rename_i d hd
      cases hfound
      exact hdirs _ (List.mem_of_find?_eq_some hd)
    · refine ih (fun below hbelow => ?_) hfound
      obtain ⟨d, hd, hbelow⟩ := List.mem_flatMap.mp hbelow
      exact get?_of_mem_searchedBelow h (hdirs d hd) hbelow

/-- The module root is a subtree, found with its path. -/
theorem get?_of_moduleRoot? {root : FileTree Content} (h : root.HasDistinctNames) {found : Located}
    (hfound : moduleRoot? root = some found) : root.get? found.1 = some found.2 :=
  get?_of_moduleAmong? h (by simp [FileTree.get?]) hfound

/-! ## Sources -/

/-- A file below a directory, with no module file in the directories on the way. -/
def IsSource (t : FileTree Content) (p : Path) (content : Content) : Prop :=
  t.get? p = some (.file content) ∧
    ∀ q, q <+: p → q ≠ p → t.hasFile (q ++ [moduleFile]) = false

/-- A file below a directory is a source when the directory has no module file and the file is a
source of the entry that leads to it. -/
theorem isSource_cons_iff {t : FileTree Content} {name : String} {p : Path} {content : Content} :
    IsSource t (name :: p) content ↔
      t.hasFile [moduleFile] = false ∧ ∃ sub, t.get? [name] = some sub ∧
      IsSource sub p content := by
  have hget : ∀ q, t.get? (name :: q) = (t.get? [name]).bind fun sub => sub.get? q :=
    FileTree.get?_append t [name]
  have hfile : ∀ sub, t.get? [name] = some sub → ∀ q, t.hasFile (name :: q) = sub.hasFile q :=
    fun _ hsub q => FileTree.hasFile_append hsub q
  constructor
  · rintro ⟨hp, hway⟩
    obtain ⟨sub, hsub, hp⟩ := Option.bind_eq_some_iff.mp ((hget p).symm.trans hp)
    refine ⟨hway [] (List.nil_prefix) nofun, sub, hsub, hp, fun q hq hne => ?_⟩
    rw [← hfile sub hsub]
    exact hway (name :: q) (List.cons_prefix_cons.mpr ⟨rfl, hq⟩) fun he => hne (List.cons.inj he).2
  · rintro ⟨hroot, sub, hsub, hp, hway⟩
    refine ⟨by rw [hget, hsub]; exact hp, fun q hq hne => ?_⟩
    cases q with
    | nil => exact hroot
    | cons n q =>
      obtain ⟨rfl, hrest⟩ := List.cons_prefix_cons.mp hq
      rw [List.cons_append, hfile sub hsub]
      exact hway q hrest fun he => hne (he ▸ rfl)

mutual

/-- What is collected below the entries of a directory are the sources of those entries to which
directories lead that are not skipped. -/
theorem mem_sourcesOf_iff {here : Path} {entries : List (String × FileTree Content)}
    (h : ∀ e ∈ entries, e.2.HasDistinctNames) {file : Path × Content} :
    file ∈ sourcesOf here entries ↔ ∃ name sub p, (name, sub) ∈ entries ∧
      file.1 = here ++ name :: p ∧ IsSource sub p file.2 ∧
        ∀ d ∈ (name :: p).dropLast, isSkippedDir d = false := by
  match entries with
  | [] => simp [sourcesOf]
  | (name, sub) :: rest =>
    rw [sourcesOf, List.mem_append, mem_sourcesAt_iff (h _ List.mem_cons_self),
      mem_sourcesOf_iff fun e he => h e (List.mem_cons_of_mem _ he)]
    constructor
    · rintro (⟨p, hp, hsource⟩ | ⟨name', sub', p, hmem, hsource⟩)
      · exact ⟨name, sub, p, List.mem_cons_self, by simpa using hp, hsource⟩
      · exact ⟨name', sub', p, List.mem_cons_of_mem _ hmem, hsource⟩
    · rintro ⟨name', sub', p, hmem, hp, hsource⟩
      rcases List.mem_cons.mp hmem with heq | hmem
      · cases heq
        exact .inl ⟨p, by simpa using hp, hsource⟩
      · exact .inr ⟨name', sub', p, hmem, hp, hsource⟩

/-- The sources below a place are the source files that no skipped directory hides. -/
theorem mem_sourcesAt_iff {here : Path} {name : String} {t : FileTree Content}
    (h : t.HasDistinctNames) {file : Path × Content} :
    file ∈ sourcesAt here name t ↔ ∃ p, file.1 = here ++ p ∧ IsSource t p file.2 ∧
      ∀ d ∈ (name :: p).dropLast, isSkippedDir d = false := by
  match t with
  | .file content =>
    rw [sourcesAt, List.mem_singleton]
    constructor
    · rintro rfl
      exact ⟨[], by simp, ⟨rfl, fun q hq hne => absurd (List.prefix_nil.mp hq) hne⟩, by simp⟩
    · rintro ⟨_ | ⟨n, p⟩, hp, ⟨hget, -⟩, -⟩
      · cases hget
        exact Prod.ext (by simpa using hp) rfl
      · cases hget
  | .dir entries =>
    have hentry : ∀ {n sub}, (FileTree.dir entries).get? [n] = some sub ↔ (n, sub) ∈ entries :=
      h.get?_singleton
    have hbelow : ∀ e ∈ entries, e.2.HasDistinctNames := fun e he => h.get? (hentry.mpr he)
    rw [sourcesAt]
    split
    · rename_i hskip
      refine iff_of_false nofun ?_
      -- a file below starts with a step through this directory, which is not searched
      rintro ⟨_ | ⟨n, p⟩, -, hsource, hnames⟩
      · cases hsource.1
      · have hname := hnames name List.mem_cons_self
        simp [hname, (isSource_cons_iff.mp hsource).1] at hskip
    · rename_i hskip
      simp only [Bool.or_eq_true, not_or, Bool.not_eq_true] at hskip
      rw [mem_sourcesOf_iff hbelow]
      constructor
      · rintro ⟨n, sub, p, hmem, hp, hsource, hnames⟩
        refine ⟨n :: p, hp, isSource_cons_iff.mpr ⟨hskip.2, sub, hentry.mpr hmem, hsource⟩, ?_⟩
        exact List.forall_mem_cons.mpr ⟨hskip.1, hnames⟩
      · rintro ⟨_ | ⟨n, p⟩, hp, hsource, hnames⟩
        · cases hsource.1
        · obtain ⟨-, sub, hsub, hsource⟩ := isSource_cons_iff.mp hsource
          exact ⟨n, sub, p, hentry.mp hsub, hp, hsource, (List.forall_mem_cons.mp hnames).2⟩

end

/-- The sources of a module are below the entries of its root, where directories lead to them that
are not skipped, and they are analyzable and not excluded. -/
theorem mem_moduleSources_iff {module : Located} (h : module.2.HasDistinctNames)
    {exclusions : Exclusions} {file : Path × Content} :
    file ∈ moduleSources module exclusions ↔
      (∃ name sub p, module.2.get? [name] = some sub ∧ file.1 = module.1 ++ name :: p ∧
        IsSource sub p file.2 ∧ ∀ d ∈ (name :: p).dropLast, isSkippedDir d = false) ∧
      isAnalyzable file.1.text ∧ exclusions.excludes (withSlashes file.1.text) = false := by
  have hbelow : ∀ e ∈ module.2.entries, e.2.HasDistinctNames := fun e he =>
    h.get? (h.get?_singleton.mpr he)
  simp only [moduleSources, List.mem_filter, mem_sourcesOf_iff hbelow, h.get?_singleton,
    Bool.and_eq_true, Bool.not_eq_true']

/-- A source of a module is below an entry of its root, with no module file on the way. -/
theorem exists_of_mem_moduleSources {module : Located} (h : module.2.IsProper)
    {exclusions : Exclusions} {file : Path × Content}
    (hfile : file ∈ moduleSources module exclusions) :
    ∃ name sub p, module.2.get? [name] = some sub ∧ file.1 = module.1 ++ name :: p ∧
      IsSource sub p file.2 := by
  obtain ⟨⟨name, sub, p, hsub, hp, hsource, -⟩, -⟩ :=
    (mem_moduleSources_iff h.hasDistinctNames).mp hfile
  exact ⟨name, sub, p, hsub, hp, hsource⟩

/-- A text without a backslash is left as it is. -/
theorem withSlashes_of_not_mem {s : String} (h : '\\' ∉ s.toList) : withSlashes s = s := by
  have hmap : s.toList.map (fun c => if c = '\\' then '/' else c) = s.toList.map id := by
    refine List.map_congr_left fun c hc => if_neg ?_
    rintro rfl
    exact h hc
  rw [withSlashes, hmap, List.map_id, String.ofList_toList]

/-- A module that was opened is the first in its directory, and its module file gives its path. -/
theorem openModule_ok {shown : String} {root : FileTree Content} {module : Located}
    {modulePath : String} (h : openModule shown (some root) = .ok (module, modulePath)) :
    ∃ text, moduleRoot? root = some module ∧ module.2.content? [moduleFile] = some (.text text) ∧
      modulePath? text = some modulePath := by
  cases root with
  | file content => cases h
  | dir entries =>
    unfold openModule at h
    dsimp only at h
    split at h
    · cases h
    · rename_i dir tree hroot
      split at h
      · rename_i text htext
        split at h
        · rename_i path hpath
          cases h
          exact ⟨text, hroot, htext, hpath⟩
        · cases h
      · cases h

end CallImpact
