import CallImpact.Proofs.Diff.Change
import CallImpact.Proofs.Names
import CallImpact.Proofs.Ordered
import Mathlib

/-!
# All changes of a diff

Hunks are grouped by their files, whatever hunks of other files stand between them: each analyzable
file comes up once, with all its hunks in order (`groupByFile_eq`). A file that is gone gives a
placeholder for each of its hunks, one that cannot be read gives nothing, and any other gives the
functions that its hunks touch (`changedInFile_cases`). Of functions with one key the first is kept
(`mem_dedup_iff`). Since a placeholder has a key that no function with a name has, a file that is
gone is left with a single one (`changes_exact`).
-/

namespace CallImpact.Diff

/-! ## Groups -/

section
variable {files : List String} {h : Hunk}

/-- A hunk of a file that has its place is put at the end of that place. -/
theorem addHunk_of_mem (hunksOf : String → List Hunk) (hnodup : files.Nodup)
    (hmem : h.file ∈ files) :
    addHunk h (files.map fun file => (file, hunksOf file)) =
      files.map fun file =>
        (file, if file = h.file then hunksOf file ++ [h] else hunksOf file) := by
  induction files with
  | nil => cases hmem
  | cons file files ih =>
    obtain ⟨hnot, hnodup⟩ := List.nodup_cons.mp hnodup
    rw [List.map_cons, List.map_cons, addHunk]
    split
    · rename_i heq
      rw [List.cons.injEq]
      refine ⟨rfl, List.map_congr_left fun other hother => ?_⟩
      have hne : other ≠ h.file := by
        rintro rfl
        exact hnot (heq ▸ hother)
      rw [if_neg hne]
    · rename_i hne
      rw [ih hnodup ((List.mem_cons.mp hmem).resolve_left (Ne.symm hne))]

/-- A hunk of a new file gets a place of its own at the end. -/
theorem addHunk_of_not_mem (hunksOf : String → List Hunk) (hmem : h.file ∉ files) :
    addHunk h (files.map fun file => (file, hunksOf file)) =
      files.map (fun file => (file, hunksOf file)) ++ [(h.file, [h])] := by
  induction files with
  | nil => rfl
  | cons file files ih =>
    obtain ⟨hne, hnot⟩ := List.ne_and_not_mem_of_not_mem_cons hmem
    rw [List.map_cons, addHunk, if_neg (Ne.symm hne), ih hnot]
    rfl

end

/-- Grouping keeps the hunks of each file together, in order. -/
theorem foldl_addHunk (hunks : List Hunk) :
    hunks.foldl (fun groups h => addHunk h groups) [] =
      (firstOccurrences (hunks.map (·.file))).map fun file =>
        (file, hunks.filter (·.file == file)) := by
  induction hunks using List.reverseRecOn with
  | nil => rfl
  | append_singleton hunks h ih =>
    rw [List.foldl_concat, ih, List.map_append, List.map_singleton, firstOccurrences_concat]
    split
    · rename_i hmem
      rw [addHunk_of_mem _ (nodup_firstOccurrences _) hmem]
      refine List.map_congr_left fun file _ => ?_
      by_cases heq : file = h.file
      · simp [heq]
      · simp [heq, Ne.symm heq]
    · rename_i hmem
      rw [addHunk_of_not_mem _ hmem, List.map_append]
      have hnone : ∀ x ∈ hunks, x.file ≠ h.file := fun x hx he =>
        hmem (mem_firstOccurrences.mpr (List.mem_map.mpr ⟨x, hx, he⟩))
      congr 1
      · refine List.map_congr_left fun file hfile => ?_
        have hne : h.file ≠ file := fun he => hmem (he ▸ hfile)
        simp [hne]
      · simpa [List.filter_eq_nil_iff] using hnone

/-- The analyzable files of hunks, in the order in which they occur first. -/
def changedFiles (hunks : List Hunk) : List String :=
  firstOccurrences ((hunks.map (·.file)).filter isAnalyzable)

/-- The changed files are those of hunks that can be analyzed. -/
theorem mem_changedFiles_iff {hunks : List Hunk} {file : String} :
    file ∈ changedFiles hunks ↔ isAnalyzable file ∧ ∃ h ∈ hunks, h.file = file := by
  rw [changedFiles, mem_firstOccurrences, List.mem_filter, List.mem_map, and_comm]

/-- Each analyzable file has all of its hunks, in order. -/
theorem groupByFile_eq (hunks : List Hunk) :
    groupByFile hunks =
      (changedFiles hunks).map fun file => (file, hunks.filter (·.file == file)) := by
  have hfiles : (hunks.filter fun h => isAnalyzable h.file).map (·.file) =
      (hunks.map (·.file)).filter isAnalyzable := by
    rw [List.filter_map, Function.comp_def]
  rw [groupByFile, foldl_addHunk, hfiles, ← changedFiles]
  refine List.map_congr_left fun file hfile => ?_
  have hanalyzable := (mem_changedFiles_iff.mp hfile).1
  rw [List.filter_filter, Prod.mk.injEq]
  refine ⟨rfl, List.filter_congr fun h _ => ?_⟩
  by_cases heq : h.file = file
  · simp [heq, hanalyzable]
  · simp [heq]

/-! ## First occurrences by key -/

section
variable {fs : List ChangedFunction} {f : ChangedFunction}

/-- A function is kept when its key was not seen and it is the first with the key. -/
theorem mem_firstByKey_iff {seen : List String} :
    f ∈ firstByKey seen fs ↔ key f ∉ seen ∧ fs.find? (key · == key f) = some f := by
  induction fs generalizing seen with
  | nil => simp [firstByKey]
  | cons g fs ih =>
    rw [firstByKey, List.find?_cons]
    by_cases hkey : key g = key f
    · have hbeq : (key g == key f) = true := beq_iff_eq.mpr hkey
      rw [hbeq]
      split
      · rename_i hseen
        have hseen : key f ∈ seen := hkey ▸ List.contains_iff_mem.mp hseen
        simp [ih, hseen]
      · rename_i hseen
        have hseen : key f ∉ seen := fun hmem => hseen (List.contains_iff_mem.mpr (hkey ▸ hmem))
        simp [ih, hkey, hseen, eq_comm]
    · have hbeq : (key g == key f) = false := beq_eq_false_iff_ne.mpr hkey
      rw [hbeq]
      split
      · exact ih
      · have hne : f ≠ g := fun he => hkey (congrArg key he.symm)
        simp [ih, hne, Ne.symm hkey]

/-- A function is kept when it is the first one with its key. -/
theorem mem_dedup_iff : f ∈ dedup fs ↔ fs.find? (key · == key f) = some f := by
  simp [dedup, mem_firstByKey_iff]

/-- Those kept stand in the order in which they stood. -/
theorem firstByKey_sublist (seen : List String) (fs : List ChangedFunction) :
    (firstByKey seen fs).Sublist fs := by
  induction fs generalizing seen with
  | nil => exact .slnil
  | cons g fs ih =>
    rw [firstByKey]
    split
    · exact (ih seen).cons g
    · exact (ih _).cons_cons g

/-- No key is kept twice. -/
theorem nodup_keys_firstByKey (seen : List String) (fs : List ChangedFunction) :
    ((firstByKey seen fs).map key).Nodup := by
  induction fs generalizing seen with
  | nil => exact .nil
  | cons g fs ih =>
    rw [firstByKey]
    split
    · exact ih seen
    · refine List.nodup_cons.mpr ⟨fun hmem => ?_, ih _⟩
      obtain ⟨f, hf, heq⟩ := List.mem_map.mp hmem
      exact (mem_firstByKey_iff.mp hf).1 (heq ▸ List.mem_cons_self)

end

/-! ## One file -/

/-- Whether a file is gone: a hunk deletes it, or there is no such file. -/
def IsGone (repo : FileTree Content) (file : String) (hunks : List Hunk) : Prop :=
  (∃ h ∈ hunks, h.deleted) ∨ repo.content? (pathOf file) = none

/-- Whether a file is there, but is not text or cannot be parsed. -/
def IsUnreadable (repo : FileTree Content) (file : String) : Prop :=
  repo.content? (pathOf file) = some .binary ∨
    ∃ source, repo.content? (pathOf file) = some (.text source) ∧
      (Go.parseSource source).firstErrorLine?.isSome

/-- A file that is gone gives placeholders, one that cannot be read gives an error, and any other
gives the functions that its hunks touch. -/
theorem changedInFile_cases (repo : FileTree Content) (file : String) (hunks : List Hunk) :
    (IsGone repo file hunks ∧
        changedInFile repo file hunks = .ok (hunks.map (placeholder file))) ∨
      (¬ IsGone repo file hunks ∧ IsUnreadable repo file ∧
        ∃ e, changedInFile repo file hunks = .error e) ∨
      (¬ IsGone repo file hunks ∧ ¬ IsUnreadable repo file ∧
        ∃ source package, repo.content? (pathOf file) = some (.text source) ∧
          package = (packageOf? repo file).getD "" ∧
          changedInFile repo file hunks =
            .ok (touchedFunctions file package (functionSpans (Go.parseSource source) package)
              hunks)) := by
  unfold changedInFile IsGone IsUnreadable
  cases hdeleted : hunks.any (·.deleted) with
  | true =>
    have hsome : ∃ h ∈ hunks, h.deleted := by simpa using hdeleted
    simp [hsome]
  | false =>
    have hnone : ¬ ∃ h ∈ hunks, h.deleted := by simpa using hdeleted
    cases hcontent : repo.content? (pathOf file) with
    | none => simp
    | some content =>
      cases content with
      | binary => simp [hnone]
      | text source =>
        cases herror : (Go.parseSource source).firstErrorLine? with
        | some line => simp [hnone, herror]
        | none => simp [hnone, herror]

/-- What is found in a file with all of its hunks, nothing when it cannot be read. -/
def found (repo : FileTree Content) (hunks : List Hunk) (file : String) : List ChangedFunction :=
  (changedInFile repo file (hunks.filter (·.file == file))).toOption.getD []

section
variable {repo : FileTree Content} {hunks : List Hunk} {file : String} {c : ChangedFunction}

/-- Of a file that is gone, a placeholder for each hunk is found. -/
theorem found_of_isGone (h : IsGone repo file (hunks.filter (·.file == file))) :
    found repo hunks file = (hunks.filter (·.file == file)).map (placeholder file) := by
  rcases changedInFile_cases repo file (hunks.filter (·.file == file)) with
    ⟨-, heq⟩ | ⟨hgone, -⟩ | ⟨hgone, -⟩
  · rw [found, heq]
    rfl
  · exact absurd h hgone
  · exact absurd h hgone

/-- Of a file that is there and cannot be read, nothing is found. -/
theorem found_of_isUnreadable (hgone : ¬ IsGone repo file (hunks.filter (·.file == file)))
    (h : IsUnreadable repo file) : found repo hunks file = [] := by
  rcases changedInFile_cases repo file (hunks.filter (·.file == file)) with
    ⟨hgone', -⟩ | ⟨-, -, e, heq⟩ | ⟨-, hreadable, -⟩
  · exact absurd hgone' hgone
  · rw [found, heq]
    rfl
  · exact absurd h hreadable

/-- What is found is a placeholder, or has the name of a function that the file declares. -/
theorem mem_found_cases (hc : c ∈ found repo hunks file) :
    c.file = file ∧ ((∃ h, c = placeholder file h) ∨
      ∃ source package decl span, repo.content? (pathOf file) = some (.text source) ∧
        decl ∈ (Go.parseSource source).named ∧ spanOf? package decl = some span ∧
        c.fullName = span.qualifiedName) := by
  unfold found at hc
  rcases changedInFile_cases repo file (hunks.filter (·.file == file)) with
    ⟨-, heq⟩ | ⟨-, -, e, heq⟩ | ⟨-, -, source, package, hsource, -, heq⟩
  · rw [heq] at hc
    obtain ⟨h, -, rfl⟩ := List.mem_map.mp hc
    exact ⟨rfl, .inl ⟨h, rfl⟩⟩
  · rw [heq] at hc
    cases hc
  · rw [heq] at hc
    obtain ⟨span, hspan, hchange⟩ := List.mem_filterMap.mp hc
    obtain ⟨decl, hdecl, hspan⟩ := List.mem_filterMap.mp hspan
    refine ⟨?_, .inr ⟨source, package, decl, span, hsource, hdecl, hspan,
      (change?_eq_some hchange).1⟩⟩
    unfold change? at hchange
    split at hchange
    · cases hchange
    · cases hchange
      rfl

end

/-! ## Keys -/

/-- Whether the functions that a file declares have names of one word. -/
def HasPlainNames (repo : FileTree Content) (file : String) : Prop :=
  ∀ source package, repo.content? (pathOf file) = some (.text source) →
    ∀ span ∈ functionSpans (Go.parseSource source) package, IsWord span.name

/-- The key of a placeholder tells the file alone. -/
theorem key_placeholder (file : String) (h : Hunk) :
    key (placeholder file h) = file ++ ":unknown" := by
  have hunnamed : (placeholder file h).fullName = "" := rfl
  rw [key, if_pos hunnamed]
  exact String.append_assoc

/-- The name of a function ends in a point and its own name. -/
theorem exists_qualifiedName {package : String} {decl : Go.Node} {span : FunctionSpan}
    (h : spanOf? package decl = some span) :
    ∃ base, span.qualifiedName = base ++ "." ++ span.name := by
  unfold spanOf? at h
  split at h
  all_goals
    obtain ⟨receiver, -, h⟩ := Option.bind_eq_some_iff.mp h
    obtain ⟨name, -, hspan⟩ := Option.bind_eq_some_iff.mp h
    cases hspan
    cases receiver with
    | none => exact ⟨package, rfl⟩
    | some type => exact ⟨package ++ "." ++ type, rfl⟩

/-- A name that ends in a point and a word has no colon after its last point. -/
theorem ne_placeholder_key {base name : String} (h : IsWord name) (file : String) :
    base ++ "." ++ name ≠ file ++ ":unknown" := by
  intro heq
  have hname : ':' ∉ name.toList := fun hmem =>
    absurd (List.all_eq_true.mp h ':' hmem) (by decide)
  have hcs : base.toList ++ '.' :: name.toList = file.toList ++ ":unknown".toList := by
    simpa using congrArg String.toList heq
  rcases List.append_eq_append_iff.mp hcs with ⟨rest, -, hrest⟩ | ⟨rest, -, hrest⟩
  · -- the name would have the colon
    cases rest with
    | nil => simp at hrest
    | cons c rest =>
      obtain ⟨-, htail⟩ := List.cons.inj hrest
      exact hname (by simp [htail])
  · -- the point would be in the key of the placeholder
    have hpoint : '.' ∈ ":unknown".toList := by simp [hrest]
    revert hpoint
    decide

/-- What is found in another file has not the key of a placeholder. -/
theorem key_ne_of_mem_found {repo : FileTree Content} {hunks : List Hunk} {other file : String}
    {c : ChangedFunction} (hnames : HasPlainNames repo other) (hne : other ≠ file)
    (hc : c ∈ found repo hunks other) : key c ≠ file ++ ":unknown" := by
  obtain ⟨-, ⟨h, rfl⟩ | ⟨source, package, decl, span, hsource, hdecl, hspan, hname⟩⟩ :=
    mem_found_cases hc
  · rw [key_placeholder]
    intro heq
    exact hne ((String.append_left_inj ":unknown").mp heq)
  · obtain ⟨base, hbase⟩ := exists_qualifiedName hspan
    have hword : IsWord span.name :=
      hnames source package hsource span (List.mem_filterMap.mpr ⟨decl, hdecl, hspan⟩)
    have hfull : c.fullName ≠ "" := by
      rw [hname, hbase]
      simp
    rw [key, if_neg hfull, hname, hbase]
    exact ne_placeholder_key hword file

/-! ## All files -/

section
variable (repo : FileTree Content) (range : String) (hunks : List Hunk)

/-- The files of changes are the changed ones. -/
theorem files_changesOf : (changesOf repo range hunks).files = changedFiles hunks := by
  simp [changesOf, groupByFile_eq, Function.comp_def]

/-- The functions of changes are what is found in one file after another, each key once. -/
theorem functions_changesOf : (changesOf repo range hunks).functions =
    dedup ((changedFiles hunks).flatMap (found repo hunks)) := by
  simp only [changesOf, groupByFile_eq, List.flatMap_map]
  refine congrArg dedup (List.flatMap_congr fun file _ => ?_)
  unfold found
  cases changedInFile repo file (hunks.filter (·.file == file)) <;> rfl

end

section
variable {repo : FileTree Content} {range : String} {hunks : List Hunk} {file : String}

/-- Leaving out a file in which nothing is found leaves the functions as they are. -/
theorem functions_without (range : String) (h : found repo hunks file = []) :
    (changesOf repo range (hunks.filter (·.file != file))).functions =
      (changesOf repo range hunks).functions := by
  have hmap : (hunks.filter (·.file != file)).map (·.file) =
      (hunks.map (·.file)).filter (· != file) := by
    rw [List.filter_map]
    rfl
  have hfiles : changedFiles (hunks.filter (·.file != file)) =
      (changedFiles hunks).filter (· != file) := by
    rw [changedFiles, hmap, changedFiles, ← firstOccurrences_filter, List.filter_filter,
      List.filter_filter]
    exact congrArg firstOccurrences (List.filter_congr fun _ _ => Bool.and_comm _ _)
  have hothers : ∀ other ∈ (changedFiles hunks).filter (· != file),
      found repo (hunks.filter (·.file != file)) other = found repo hunks other := by
    intro other hother
    have hne : other ≠ file := by simpa using (List.mem_filter.mp hother).2
    have hhunks : (hunks.filter (·.file != file)).filter (·.file == other) =
        hunks.filter (·.file == other) := by
      rw [List.filter_filter]
      refine List.filter_congr fun x _ => ?_
      by_cases heq : x.file = other
      · simp [heq, hne]
      · simp [heq]
    rw [found, found, hhunks]
  have hskip : ∀ files : List String, (files.filter (· != file)).flatMap (found repo hunks) =
      files.flatMap (found repo hunks) := by
    intro files
    induction files with
    | nil => rfl
    | cons other files ih =>
      by_cases heq : other = file
      · simp [heq, h, ih]
      · simp [heq, ih]
  rw [functions_changesOf, functions_changesOf, hfiles, List.flatMap_congr hothers, hskip]

/-- A file that is gone is left with the placeholder of its first hunk. -/
theorem functions_of_isGone (hnames : ∀ other ∈ changedFiles hunks, HasPlainNames repo other)
    (hfile : file ∈ changedFiles hunks) (hgone : IsGone repo file (hunks.filter (·.file == file))) :
    ∃ h, hunks.find? (·.file == file) = some h ∧
      (changesOf repo range hunks).functions.filter (·.file == file) = [placeholder file h] := by
  obtain ⟨h, rest, hhunks⟩ : ∃ h rest, hunks.filter (·.file == file) = h :: rest := by
    obtain ⟨-, x, hx, heq⟩ := mem_changedFiles_iff.mp hfile
    have hmem : x ∈ hunks.filter (·.file == file) := List.mem_filter.mpr ⟨hx, by simp [heq]⟩
    exact List.exists_cons_of_ne_nil (List.ne_nil_of_mem hmem)
  refine ⟨h, by rw [← List.head?_filter, hhunks, List.head?_cons], ?_⟩
  have hfound := found_of_isGone hgone
  rw [hhunks, List.map_cons] at hfound
  -- no function before has the key of the placeholder
  have hfirst : ((changedFiles hunks).flatMap (found repo hunks)).find?
      (key · == key (placeholder file h)) = some (placeholder file h) := by
    obtain ⟨before, after, hsplit⟩ := List.append_of_mem hfile
    have hnotin : file ∉ before := by
      have hnodup : (changedFiles hunks).Nodup := nodup_firstOccurrences _
      rw [hsplit] at hnodup
      exact fun hmem => (List.nodup_append.mp hnodup).2.2 file hmem file List.mem_cons_self rfl
    have hbefore : (before.flatMap (found repo hunks)).find?
        (key · == key (placeholder file h)) = none := by
      rw [List.find?_eq_none]
      intro c hc
      obtain ⟨other, hother, hc⟩ := List.mem_flatMap.mp hc
      have hne : other ≠ file := fun he => hnotin (he ▸ hother)
      have hmem : other ∈ changedFiles hunks := by simp [hsplit, hother]
      rw [key_placeholder, beq_iff_eq]
      exact key_ne_of_mem_found (hnames other hmem) hne hc
    rw [hsplit, List.flatMap_append, List.find?_append, hbefore, List.flatMap_cons, hfound]
    simp
  have hmem : placeholder file h ∈ (changesOf repo range hunks).functions := by
    rw [functions_changesOf, mem_dedup_iff]
    exact hfirst
  have hkeys : ((changesOf repo range hunks).functions.map key).Nodup := by
    rw [functions_changesOf]
    exact nodup_keys_firstByKey [] _
  -- whatever is reported for the file has the same key
  have hall : ∀ c ∈ (changesOf repo range hunks).functions.filter (·.file == file),
      c = placeholder file h := by
    intro c hc
    obtain ⟨hc, heq⟩ := List.mem_filter.mp hc
    refine List.inj_on_of_nodup_map hkeys hc hmem ?_
    rw [functions_changesOf] at hc
    obtain ⟨other, -, hother⟩ := List.mem_flatMap.mp ((firstByKey_sublist [] _).subset hc)
    obtain rfl : file = other := by
      rw [← (mem_found_cases hother).1]
      exact (beq_iff_eq.mp heq).symm
    rw [found_of_isGone hgone] at hother
    obtain ⟨x, -, rfl⟩ := List.mem_map.mp hother
    rw [key_placeholder, key_placeholder]
  have hnodup := hkeys.of_map.filter (·.file == file)
  refine List.perm_singleton.mp ((List.perm_ext_iff_of_nodup hnodup (List.nodup_singleton _)).mpr
    fun c => ⟨fun hc => List.mem_singleton.mpr (hall c hc), fun hc => ?_⟩)
  rw [List.mem_singleton.mp hc]
  exact List.mem_filter.mpr ⟨hmem, beq_self_eq_true file⟩

end

/-- Every change is an addition, a modification or a deletion. -/
theorem countP_changes (fs : List ChangedFunction) :
    fs.countP (·.change == .added) + fs.countP (·.change == .modified) +
      fs.countP (·.change == .deleted) = fs.length := by
  have hbeq : ∀ a b : ChangeType, (a == b) = decide (a = b) := by
    intro a b
    cases a <;> cases b <;> rfl
  induction fs with
  | nil => rfl
  | cons f fs ih =>
    cases hchange : f.change
    all_goals
      simp only [hbeq] at ih
      simp [hbeq, hchange]
      omega

/-- However the hunks of a diff are mixed: its files are the analyzable ones among those of the
hunks, in the order in which they come up, and what is reported are the functions of these files,
each file with all of its hunks in order, of which only the first with a key is kept. A file that
cannot be read gives no function, and the others are reported as if it had no hunks; a file that
is gone is reported by the placeholder of its first hunk alone; and the counts by kind of change
add up. -/
theorem changes_exact {repo : FileTree Content} {hunks : List Hunk}
    (hnames : ∀ h ∈ hunks, HasPlainNames repo h.file) (range : String) :
    let changes := changesOf repo range hunks
    let results := changes.files.flatMap (found repo hunks)
    changes.files.Pairwise
      (fun a b => (hunks.map (·.file)).idxOf a < (hunks.map (·.file)).idxOf b) ∧
    (∀ file, file ∈ changes.files ↔ isAnalyzable file ∧ ∃ h ∈ hunks, h.file = file) ∧
    (changes.functions.map key).Nodup ∧ changes.functions.Sublist results ∧
    (∀ f, f ∈ changes.functions ↔ results.find? (key · == key f) = some f) ∧
    (∀ file, IsUnreadable repo file → (∀ h ∈ hunks, h.file = file → h.deleted = false) →
      (∀ f ∈ changes.functions, f.file ≠ file) ∧
        (changesOf repo range (hunks.filter (·.file != file))).functions = changes.functions) ∧
    (∀ file ∈ changes.files, IsGone repo file (hunks.filter (·.file == file)) →
      ∃ h, hunks.find? (·.file == file) = some h ∧
        changes.functions.filter (·.file == file) = [placeholder file h]) ∧
    changes.summary.functionsAdded + changes.summary.functionsModified +
      changes.summary.functionsDeleted = changes.summary.functionsChanged ∧
    changes.summary.functionsChanged = changes.functions.length := by
  intro changes results
  have hfiles : changes.files = changedFiles hunks := files_changesOf repo range hunks
  have hfunctions : changes.functions = dedup results := by
    rw [functions_changesOf, ← hfiles]
  refine ⟨?_, ?_, ?_, ?_, ?_, ?_, ?_, countP_changes changes.functions, rfl⟩
  · rw [hfiles, changedFiles, firstOccurrences_filter]
    exact (pairwise_firstOccurrences _).filter _
  · rw [hfiles]
    exact fun file => mem_changedFiles_iff
  · rw [hfunctions]
    exact nodup_keys_firstByKey [] results
  · rw [hfunctions]
    exact firstByKey_sublist [] results
  · rw [hfunctions]
    exact fun f => mem_dedup_iff
  · intro file hunreadable hkept
    have hgone : ¬ IsGone repo file (hunks.filter (·.file == file)) := by
      rintro (⟨h, hh, hdeleted⟩ | hnone)
      · obtain ⟨hmem, heq⟩ := List.mem_filter.mp hh
        rw [hkept h hmem (beq_iff_eq.mp heq)] at hdeleted
        cases hdeleted
      · rcases hunreadable with hbinary | ⟨source, hsource, -⟩
        · rw [hbinary] at hnone
          cases hnone
        · rw [hsource] at hnone
          cases hnone
    have hfound := found_of_isUnreadable hgone hunreadable
    refine ⟨fun f hf => ?_, functions_without range hfound⟩
    rw [hfunctions] at hf
    obtain ⟨other, -, hother⟩ := List.mem_flatMap.mp ((firstByKey_sublist [] results).subset hf)
    rintro rfl
    obtain rfl : f.file = other := (mem_found_cases hother).1
    rw [hfound] at hother
    cases hother
  · rw [hfiles]
    refine fun file hfile hgone => functions_of_isGone (fun other hother => ?_) hfile hgone
    obtain ⟨-, h, hh, rfl⟩ := mem_changedFiles_iff.mp hother
    exact hnames h hh

/-- A file with one function beside one that is not text. -/
def mixedTree : FileTree Content :=
  .dir [("bad.go", .file .binary), ("x.go", .file (.text "package a\nfunc F(){}"))]

/-- Hunks of these files, of one that is gone and of one that is not analyzed, in turns. -/
def mixedHunks : List Hunk :=
  [⟨"gone.go", 4, 1, 3, 0, true, false⟩, ⟨"x.go", 2, 1, 2, 1, false, false⟩,
    ⟨"bad.go", 1, 1, 1, 1, false, false⟩, ⟨"gone.go", 9, 1, 8, 0, true, false⟩,
    ⟨"notes.md", 1, 0, 1, 1, false, true⟩, ⟨"x.go", 2, 0, 2, 3, false, false⟩]

/-- The names in these files are plain. -/
theorem hasPlainNames_mixedTree : ∀ h ∈ mixedHunks, HasPlainNames mixedTree h.file := by
  have hspans (package : String) : functionSpans (Go.parseSource "package a\nfunc F(){}") package =
      [⟨package ++ "." ++ "F", "F", none, 2, 2⟩] := by cbv
  have hx : mixedTree.content? (pathOf "x.go") = some (.text "package a\nfunc F(){}") := by
    decide +kernel
  have hother : ∀ h ∈ mixedHunks, h.file ≠ "x.go" →
      mixedTree.content? (pathOf h.file) = none ∨
        mixedTree.content? (pathOf h.file) = some .binary := by decide +kernel
  intro h hh source package hsource span hspan
  by_cases hfile : h.file = "x.go"
  · rw [hfile, hx] at hsource
    cases hsource
    rw [hspans, List.mem_singleton] at hspan
    rw [hspan]
    exact (by decide : IsWord "F")
  · rcases hother h hh hfile with hnone | hbinary
    · rw [hnone] at hsource
      cases hsource
    · rw [hbinary] at hsource
      cases hsource

/-- The case of these files and hunks. -/
theorem changes_exact_mixed :
    let changes := changesOf mixedTree "" mixedHunks
    (∀ h ∈ mixedHunks, HasPlainNames mixedTree h.file) ∧
    changes.files = ["gone.go", "x.go", "bad.go"] ∧ IsUnreadable mixedTree "bad.go" ∧
    (∀ f ∈ changes.functions, f.file ≠ "bad.go") ∧
    changes.functions.filter (·.file == "gone.go") =
      [placeholder "gone.go" ⟨"gone.go", 4, 1, 3, 0, true, false⟩] ∧
    (changes.functions.map key).Nodup ∧ ∀ f, f ∈ changes.functions ↔
      (changes.files.flatMap (found mixedTree mixedHunks)).find? (key · == key f) = some f := by
  have hbad : IsUnreadable mixedTree "bad.go" := .inl (by decide +kernel)
  have hfiles : (changesOf mixedTree "" mixedHunks).files = ["gone.go", "x.go", "bad.go"] := by
    rw [files_changesOf]
    decide +kernel
  obtain ⟨-, -, hkeys, -, hfirst, hunreadable, hgone, -⟩ := changes_exact hasPlainNames_mixedTree ""
  obtain ⟨h, hfind, hplaceholder⟩ := hgone "gone.go" (by simp [hfiles]) (.inl (by decide +kernel))
  cases hfind
  exact ⟨hasPlainNames_mixedTree, hfiles, hbad, (hunreadable "bad.go" hbad (by decide +kernel)).1,
    hplaceholder, hkeys, hfirst⟩

end CallImpact.Diff
