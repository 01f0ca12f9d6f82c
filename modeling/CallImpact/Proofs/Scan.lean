import CallImpact.Proofs.Snapshot.Search
import CallImpact.Proofs.Sources
import CallImpact.Scan

/-!
# Entry points by name

A scan has one candidate for each function that starts the program (`entryCandidates_perm`). A
name and a path stand for the first function of that name in a file whose path agrees with the
given one: it is equal to it, or one of the two ends in a slash and the other
(`exists_resolvesTo`). Functions come in the order of their files. So a function is what its own
file and name stand for only as far as no earlier file agrees with its path and has a function of
that name, and this holds of candidates as of all others (`scanned_entries`).
-/

namespace CallImpact

open Snapshot (IsAt)

/-! ## Agreement of paths -/

/-- A path is at a stored one when it is the whole of it or follows a slash at its end. -/
theorem isAt_iff {path stored : String} :
    IsAt path stored ↔ stored = path ∨ Text.endsWith stored ("/" ++ path) := by
  refine or_congr_right ?_
  rw [Text.endsWith_iff]
  constructor
  · rintro ⟨base, rfl⟩
    exact ⟨base.toList, by simp⟩
  · rintro ⟨base, heq⟩
    refine ⟨String.ofList base, ?_⟩
    rw [← String.toList_inj, ← heq]
    simp

/-- Whether a given path means a file: leading `./` left out and with slashes for backslashes, it
is the path of the file, or one of the two ends in a slash and the other. -/
def Means (given file : String) : Prop :=
  IsAt (Program.comparablePath given) file ∨ IsAt file (Program.comparablePath given)

/-- Two paths agree exactly when the given one means the file. -/
theorem pathsAgree_iff {given file : String} :
    Program.pathsAgree file (Program.comparablePath given) ↔ Means given file := by
  rw [Program.pathsAgree, Bool.or_eq_true, Bool.or_eq_true, beq_iff_eq, Means, isAt_iff, isAt_iff]
  constructor
  · rintro ((heq | hends) | hends)
    · exact .inl (.inl heq)
    · exact .inl (.inr hends)
    · exact .inr (.inr hends)
  · rintro ((heq | hends) | heq | hends)
    · exact .inl (.inl heq)
    · exact .inl (.inr hends)
    · exact .inl (.inl heq.symm)
    · exact .inr hends

/-- Leading `./` are left out up to a slash. -/
theorem dropCurrent_cases (cs : List Char) :
    Program.dropCurrent cs = cs ∨ ∃ base, cs = base ++ '/' :: Program.dropCurrent cs := by
  fun_induction Program.dropCurrent cs with
  | case1 rest ih =>
    rcases ih with heq | ⟨base, hbase⟩
    · exact .inr ⟨['.'], by rw [heq]; rfl⟩
    · exact .inr ⟨'.' :: '/' :: base, by rw [List.cons_append, List.cons_append, ← hbase]⟩
  | case2 => exact .inl rfl

/-- A path without backslashes means the file at it. -/
theorem means_self {path : String} (h : '\\' ∉ path.toList) : Means path path := by
  have heq : Program.comparablePath path =
      withSlashes (String.ofList (Program.dropCurrent path.toList)) := by
    rw [withSlashes, String.toList_ofList]
    rfl
  refine .inl ?_
  rcases dropCurrent_cases path.toList with hall | ⟨base, hbase⟩
  · refine .inl ?_
    rw [heq, hall, String.ofList_toList, withSlashes_of_not_mem h]
  · refine .inr ⟨String.ofList base, ?_⟩
    have hrest : '\\' ∉ Program.dropCurrent path.toList := by
      intro hmem
      rw [hbase] at h
      exact h (List.mem_append_right _ (List.mem_cons_of_mem _ hmem))
    rw [heq, withSlashes_of_not_mem (by rwa [String.toList_ofList]), ← String.toList_inj]
    simpa using hbase

/-! ## Names -/

/-- Whether a function has a name, within its package or in full. -/
def Function.IsCalled (f : Function) (name : String) : Prop :=
  f.localName = name ∨ f.fullName = name

/-- The name of a function that is no method is its declared one. -/
theorem localName_of_receiver_eq_none {f : Function} (h : f.decl.receiver = none) :
    f.localName = f.name := by
  unfold Function.localName Function.name
  rw [h]

/-- A full name has a point. -/
theorem point_mem_fullName (f : Function) : '.' ∈ f.fullName.toList := by
  unfold Function.fullName fullName
  split <;> simp

/-- A name without a point is that of a function which is no method. -/
theorem Function.IsCalled.of_not_mem {f : Function} {name : String} (h : f.IsCalled name)
    (hname : '.' ∉ name.toList) : f.localName = name := by
  rcases h with hlocal | hfull
  · exact hlocal
  · have hpoint := point_mem_fullName f
    rw [hfull] at hpoint
    exact absurd hpoint hname

/-! ## Looking up -/

/-- Whether a path and a name may stand for a function. -/
structure Function.Matches (f : Function) (given name : String) : Prop where
  called : f.IsCalled name
  file : Means given f.file

/-- Whether no function that a path and a name may stand for is in an earlier file. -/
def IsEarliest (p : Program) (given name file : String) : Prop :=
  ∀ f ∈ p.functions, f.Matches given name → file ≤ f.file

/-- Whether a path and a name are resolved to a function. -/
def ResolvesTo (p : Program) (given name : String) (f : Function) : Prop :=
  ∃ n, p.resolveEntry? (some given) name = some n ∧ p.functions[n]? = some f

/-- Whether functions come in the order of their files. -/
def Program.IsFiled (p : Program) : Prop :=
  p.functions.Pairwise fun f g => f.file ≤ g.file

section
variable {p : Program} {given name : String} {f : Function}

/-- A function is called as an entry says when one of its names is the given one and its file
agrees. -/
theorem matches_iff : f.Matches given name ↔
    (f.localName == name || f.fullName == name) &&
      ((some given).map Program.comparablePath).all fun wanted =>
        Program.pathsAgree f.file wanted := by
  rw [Bool.and_eq_true, Bool.or_eq_true, beq_iff_eq, beq_iff_eq, Option.map_some, Option.all_some,
    pathsAgree_iff]
  exact ⟨fun h => ⟨h.called, h.file⟩, fun h => ⟨h.1, h.2⟩⟩

/-- Where a path and a name may stand for a function, they are resolved to one that they may stand
for and that no earlier file has. -/
theorem exists_resolvesTo (hp : p.IsFiled) (hf : f ∈ p.functions) (h : f.Matches given name) :
    ∃ g, ResolvesTo p given name g ∧ g ∈ p.functions ∧ g.Matches given name ∧
      IsEarliest p given name g.file := by
  cases hfound : p.resolveEntry? (some given) name with
  | none =>
    have hnone := List.findIdx?_eq_none_iff.mp hfound f hf
    rw [matches_iff.mp h] at hnone
    cases hnone
  | some n =>
    obtain ⟨hlt, hmatch, hfirst⟩ := List.findIdx?_eq_some_iff_getElem.mp hfound
    refine ⟨p.functions[n], ⟨n, hfound, List.getElem?_eq_getElem hlt⟩, List.getElem_mem hlt,
      matches_iff.mpr hmatch, fun k hk hkmatch => ?_⟩
    obtain ⟨m, hm, rfl⟩ := List.mem_iff_getElem.mp hk
    rcases Nat.lt_trichotomy m n with hmn | rfl | hnm
    · exact absurd (matches_iff.mp hkmatch) (hfirst m hmn)
    · exact le_refl _
    · exact List.pairwise_iff_getElem.mp hp n m hlt hm hnm

/-- A function is in the file that its own path and name stand for exactly when no earlier file
has a function that they may stand for. -/
theorem file_eq_iff {g : Function} (hf : f ∈ p.functions) (h : f.Matches given name)
    (hg : g ∈ p.functions) (hmatch : g.Matches given name)
    (hearliest : IsEarliest p given name g.file) :
    g.file = f.file ↔ IsEarliest p given name f.file := by
  constructor
  · intro heq
    rwa [← heq]
  · intro hearliest'
    exact le_antisymm (hearliest f hf h) (hearliest' g hg hmatch)

end

/-! ## Loaded programs -/

/-- The functions of files come in the order of these. -/
theorem isFiled_ofFiles (modulePath : String) (files : List FileFacts) :
    (Program.ofFiles modulePath files).IsFiled := by
  have hfiles : (files.mergeSort fun a b => decide (a.path ≤ b.path)).Pairwise fun a b =>
      a.path ≤ b.path := by
    refine (List.pairwise_mergeSort ?_ ?_ files).imp of_decide_eq_true
    · intro a b c hab hbc
      exact decide_eq_true (le_trans (of_decide_eq_true hab) (of_decide_eq_true hbc))
    · intro a b
      rw [Bool.or_eq_true, decide_eq_true_eq, decide_eq_true_eq]
      exact le_total a.path b.path
  unfold Program.IsFiled Program.ofFiles
  rw [List.pairwise_flatMap]
  constructor
  · intro file _
    rw [List.pairwise_map]
    exact List.pairwise_of_forall fun _ _ => le_refl _
  · refine hfiles.imp fun hle f hf g hg => ?_
    obtain ⟨_, -, rfl⟩ := List.mem_map.mp hf
    obtain ⟨_, -, rfl⟩ := List.mem_map.mp hg
    exact hle

/-- With slashes for backslashes, no backslash is left. -/
theorem not_mem_withSlashes (s : String) : '\\' ∉ (withSlashes s).toList := by
  rw [withSlashes, String.toList_ofList, List.mem_map]
  rintro ⟨c, -, hc⟩
  split at hc
  · cases hc
  · contradiction

section
variable {shown : String} {root : Option (FileTree Content)} {exclude : List String} {p : Program}

/-- The functions of a loaded program come in the order of their files. -/
theorem isFiled_of_loadProgram (h : loadProgram shown root exclude = .ok p) : p.IsFiled := by
  obtain ⟨module, modulePath, -, rfl⟩ := exists_module_of_loadProgram h
  exact isFiled_ofFiles _ _

/-- The files of a program that is loaded are written without backslashes. -/
theorem not_mem_file_of_loadProgram (h : loadProgram shown root exclude = .ok p) {f : Function}
    (hf : f ∈ p.functions) : '\\' ∉ f.file.toList := by
  obtain ⟨module, modulePath, -, rfl⟩ := exists_module_of_loadProgram h
  obtain ⟨facts, hfacts, decl, -, rfl⟩ := Program.mem_functions_ofFiles.mp hf
  obtain ⟨⟨path, content⟩, -, hfacts⟩ := List.mem_filterMap.mp hfacts
  cases content with
  | binary => cases hfacts
  | text source =>
    cases hfacts
    exact not_mem_withSlashes path.text

/-- A function of a program that is loaded is one that its own file and name may stand for. -/
theorem matches_of_loadProgram (h : loadProgram shown root exclude = .ok p) {f : Function}
    (hf : f ∈ p.functions) {name : String} (hname : f.IsCalled name) : f.Matches f.file name :=
  ⟨hname, means_self (not_mem_file_of_loadProgram h hf)⟩

end

/-! ## Candidates -/

/-- What a candidate tells of its function. -/
def EntryCandidate.key (c : EntryCandidate) : String × String × String :=
  (c.file, c.function, c.package)

/-- The same of a function. -/
def Function.key (f : Function) : String × String × String :=
  (f.file, f.localName, f.package)

/-- A function is a candidate when it starts the program, and the candidate tells of it. -/
theorem map_key_of? (f : Function) : (EntryCandidate.of? f).map EntryCandidate.key =
    if Program.isEntry f then some f.key else none := by
  unfold EntryCandidate.of? Program.isEntry
  cases hreceiver : f.decl.receiver with
  | some r => simp
  | none =>
    have hlocal := localName_of_receiver_eq_none hreceiver
    by_cases hmain : f.name = "main" ∧ f.packageName = "main"
    · simp [hmain, EntryCandidate.key, Function.key, hlocal]
    · by_cases hinit : f.name = "init"
      · simp [hinit, EntryCandidate.key, Function.key, hlocal]
      · simp [hmain, hinit]

/-- The candidates for entries have the keys of the functions that are entries. -/
theorem map_key_filterMap (fs : List Function) :
    (fs.filterMap EntryCandidate.of?).map EntryCandidate.key =
      (fs.filter Program.isEntry).map Function.key := by
  induction fs with
  | nil => rfl
  | cons f fs ih =>
    have hkey := map_key_of? f
    by_cases hentry : Program.isEntry f
    · rw [if_pos hentry] at hkey
      obtain ⟨c, hc, hckey⟩ := Option.map_eq_some_iff.mp hkey
      rw [List.filterMap_cons_some hc, List.filter_cons_of_pos hentry, List.map_cons, List.map_cons,
        ih, hckey]
    · rw [if_neg hentry, Option.map_eq_none_iff] at hkey
      rw [List.filterMap_cons_none hkey, List.filter_cons_of_neg hentry, ih]

/-- The functions that start a program are those of their numbers. -/
theorem map_defaultEntries (p : Program) :
    (p.defaultEntries.map fun n => p.functions[n]?.map Function.key) =
      (p.functions.filter Program.isEntry).map fun f => some f.key := by
  have hzip : (p.functions.zipIdx.filter fun x => Program.isEntry x.1).map (·.1) =
      p.functions.filter Program.isEntry := by
    have hmap := List.filter_map (f := Prod.fst) (p := Program.isEntry) (l := p.functions.zipIdx)
    rw [List.zipIdx_map_fst] at hmap
    exact hmap.symm
  rw [Program.defaultEntries, List.map_map, ← hzip, List.map_map]
  refine List.map_congr_left fun x hx => ?_
  have hget := List.mem_zipIdx_iff_getElem?.mp (List.mem_filter.mp hx).1
  simp [hget]

/-- Candidates and the functions that start a program correspond to each other. -/
theorem entryCandidates_perm (p : Program) :
    (p.entryCandidates.map fun c => some c.key).Perm
      (p.defaultEntries.map fun n => p.functions[n]?.map Function.key) := by
  have hperm := (List.mergeSort_perm (p.functions.filterMap EntryCandidate.of?)
    EntryCandidate.le).map fun c => some c.key
  have hkeys : (p.functions.filterMap EntryCandidate.of?).map (fun c => some c.key) =
      (p.functions.filter Program.isEntry).map fun f => some f.key := by
    have hmap := congrArg (List.map some) (map_key_filterMap p.functions)
    rwa [List.map_map, List.map_map] at hmap
  rw [hkeys, ← map_defaultEntries] at hperm
  exact hperm

/-- A function that starts the program is no method, and it is called `main` or `init`. -/
theorem localName_of_isEntry {f : Function} (h : Program.isEntry f) :
    f.localName = "main" ∨ f.localName = "init" := by
  unfold Program.isEntry at h
  rw [Bool.and_eq_true, Bool.or_eq_true, Bool.and_eq_true, Option.isNone_iff_eq_none, beq_iff_eq,
    beq_iff_eq, beq_iff_eq] at h
  obtain ⟨hreceiver, hname⟩ := h
  rw [localName_of_receiver_eq_none hreceiver]
  exact hname.imp_left And.left

/-- A candidate is that of a function of the program, by a name without a point. -/
theorem exists_function_of_mem {p : Program} {c : EntryCandidate} (h : c ∈ p.entryCandidates) :
    ∃ f ∈ p.functions, f.file = c.file ∧ f.localName = c.function ∧ '.' ∉ c.function.toList := by
  obtain ⟨f, hf, hc⟩ := List.mem_filterMap.mp (List.mem_mergeSort.mp h)
  have hkey := map_key_of? f
  rw [hc, Option.map_some] at hkey
  split at hkey
  · rename_i hentry
    have hkey : c.key = f.key := Option.some.inj hkey
    have hfile : c.file = f.file := congrArg (·.1) hkey
    have hname : c.function = f.localName := congrArg (·.2.1) hkey
    refine ⟨f, hf, hfile.symm, hname.symm, ?_⟩
    rw [hname]
    rcases localName_of_isEntry hentry with hmain | hinit
    · rw [hmain]
      decide
    · rw [hinit]
      decide
  · cases hkey

/-- In every program that is loaded, candidates and the functions that start it correspond one to
one, with file, name and package. By its file and its name each function is resolved to one of
that name in a file that its path means, the earliest such file; so to one of its own file exactly
when no earlier file that its path means has a function of the name. The same holds of each
candidate. -/
theorem scanned_entries {shown : String} {root : Option (FileTree Content)} {exclude : List String}
    {p : Program} (h : loadProgram shown root exclude = .ok p) :
    (∃ candidates, scanEntries shown root exclude = .ok candidates ∧
      (candidates.map fun c => some (c.file, c.function, c.package)).Perm
        (p.defaultEntries.map fun n => p.functions[n]?.map fun f =>
          (f.file, f.localName, f.package)) ∧
      ∀ c ∈ candidates, ∃ g, ResolvesTo p c.file c.function g ∧ g.localName = c.function ∧
        (g.file = c.file ↔ IsEarliest p c.file c.function c.file)) ∧
    ∀ f ∈ p.functions, ∀ name, f.IsCalled name →
      ∃ g, ResolvesTo p f.file name g ∧ g.Matches f.file name ∧ IsEarliest p f.file name g.file ∧
        (g.file = f.file ↔ IsEarliest p f.file name f.file) := by
  have hresolved : ∀ f ∈ p.functions, ∀ name, f.IsCalled name →
      ∃ g, ResolvesTo p f.file name g ∧ g.Matches f.file name ∧ IsEarliest p f.file name g.file ∧
        (g.file = f.file ↔ IsEarliest p f.file name f.file) := by
    intro f hf name hname
    have hmatch := matches_of_loadProgram h hf hname
    obtain ⟨g, hg, hmem, hgmatch, hearliest⟩ :=
      exists_resolvesTo (isFiled_of_loadProgram h) hf hmatch
    exact ⟨g, hg, hgmatch, hearliest, file_eq_iff hf hmatch hmem hgmatch hearliest⟩
  refine ⟨⟨p.entryCandidates, ?_, entryCandidates_perm p, fun c hc => ?_⟩, hresolved⟩
  · unfold scanEntries
    rw [h]
  · obtain ⟨f, hf, hfile, hname, hpoint⟩ := exists_function_of_mem hc
    obtain ⟨g, hg, hgmatch, -, hiff⟩ := hresolved f hf c.function (.inl hname)
    rw [hfile] at hg hiff
    exact ⟨g, hg, hgmatch.called.of_not_mem hpoint, hiff⟩

/-- The text of a program. -/
def mainText : String :=
  "package main\nfunc main(){}"

/-- A module with a program at its root and another one below. -/
def twoMains : FileTree Content :=
  [(["go.mod"], .text "module m\n"), (["main.go"], .text mainText),
    (["svc", "main.go"], .text mainText)].foldl
    (fun t file => t.write file.1 file.2) (.dir [])

/-- The facts of a file with the text. -/
def mainFacts (package path : String) : FileFacts :=
  { path, packageName := "main", packagePath := package
    functions := [{ name := "main", lineStart := 2, lineEnd := 2 }] }

/-- What is read off a file with a main function alone. -/
theorem extractFile_mainText (package path : String) :
    extractFile (Go.parseSource mainText) path package = mainFacts package path := by
  cbv

/-- The function of a file with the text. -/
def mainIn (package file : String) : Function :=
  { package, packageName := "main", file, decl := { name := "main", lineStart := 2, lineEnd := 2 } }

/-- The program of the module. -/
def twoMainsProgram : Program :=
  ⟨"m", [mainIn "m" "main.go", mainIn "m/svc" "svc/main.go"], []⟩

/-- The program of the sample tree has its two main functions. -/
theorem loadProgram_twoMains : loadProgram "." (some twoMains) [] = .ok twoMainsProgram := by
  have hopen : openModule "." (some twoMains) = .ok (([], twoMains), "m") := rfl
  have hsources : moduleSources ([], twoMains) (Exclusions.ofPatterns []) =
      [(["main.go"], .text mainText), (["svc", "main.go"], .text mainText)] := rfl
  have hroot :
      fileFacts? [] "m" (["main.go"], .text mainText) = some (mainFacts "m" "main.go") := by
    unfold fileFacts?
    dsimp only
    rw [extractFile_mainText]
    rfl
  have hbelow : fileFacts? [] "m" (["svc", "main.go"], .text mainText) =
      some (mainFacts "m/svc" "svc/main.go") := by
    unfold fileFacts?
    dsimp only
    rw [extractFile_mainText]
    rfl
  rw [loadProgram_eq hopen, hsources]
  simp only [List.filterMap_cons, List.filterMap_nil, hroot, hbelow]
  cbv

/-- The case of two main functions in files of one name, of which one path ends the other. -/
theorem scanned_entries_twoMains :
    loadProgram "." (some twoMains) [] = .ok twoMainsProgram ∧
    (∃ candidates, scanEntries "." (some twoMains) [] = .ok candidates ∧
      (candidates.map fun c => some (c.file, c.function, c.package)).Perm
        [some ("main.go", "main", "m"), some ("svc/main.go", "main", "m/svc")]) ∧
    mainIn "m" "main.go" ∈ twoMainsProgram.functions ∧ (mainIn "m" "main.go").IsCalled "m.main" ∧
    ∃ g, ResolvesTo twoMainsProgram "main.go" "m.main" g ∧ g.Matches "main.go" "m.main" ∧
      (g.file = "main.go" ↔ IsEarliest twoMainsProgram "main.go" "m.main" "main.go") := by
  obtain ⟨⟨candidates, hscan, hperm, -⟩, hresolved⟩ := scanned_entries loadProgram_twoMains
  have hmem : mainIn "m" "main.go" ∈ twoMainsProgram.functions := List.mem_cons_self
  have hcalled : (mainIn "m" "main.go").IsCalled "m.main" := .inr rfl
  obtain ⟨g, hg, hmatch, -, hiff⟩ := hresolved _ hmem _ hcalled
  exact ⟨loadProgram_twoMains, ⟨candidates, hscan, hperm⟩, hmem, hcalled, g, hg, hmatch, hiff⟩

/-- The candidate of the lower program is resolved to the function of the upper one, whose file
comes first and whose path ends that of the lower one. -/
theorem candidate_misled :
    scanEntries "." (some twoMains) [] = .ok twoMainsProgram.entryCandidates ∧
    twoMainsProgram.entryCandidates.map EntryCandidate.key =
      [("main.go", "main", "m"), ("svc/main.go", "main", "m/svc")] ∧
    mainIn "m/svc" "svc/main.go" ∈ twoMainsProgram.functions ∧
    ResolvesTo twoMainsProgram "svc/main.go" "main" (mainIn "m" "main.go") ∧
    ∀ g, ResolvesTo twoMainsProgram "svc/main.go" "main" g → g.file ≠ "svc/main.go" := by
  have hfound : twoMainsProgram.resolveEntry? (some "svc/main.go") "main" = some 0 := by cbv
  have hcandidates : twoMainsProgram.entryCandidates.map EntryCandidate.key =
      [("main.go", "main", "m"), ("svc/main.go", "main", "m/svc")] := by cbv
  refine ⟨?_, hcandidates, by simp [twoMainsProgram], ⟨0, hfound, rfl⟩, ?_⟩
  · unfold scanEntries
    rw [loadProgram_twoMains]
  · rintro g ⟨n, hn, hg⟩
    rw [hfound] at hn
    obtain rfl := Option.some.inj hn
    obtain rfl : mainIn "m" "main.go" = g := Option.some.inj hg
    decide

end CallImpact
