import CallImpact.Diff.Change
import CallImpact.Proofs.Module
import Mathlib.Data.List.Induction

/-!
# Changed functions of loaded files

The package of a file that was loaded is found again from the file upwards
(`packageOf?_of_mem_moduleSources`): the module file that is nearest above a source is that of the
module that has it. A named change comes from a declaration of the file (`exists_of_mem_found`).
-/

namespace CallImpact.Diff

/-! ## Packages -/

/-- The search goes up through directories without a module file. -/
theorem packageAbove_append {repo : FileTree Content} {base inner : Path}
    (h : ∀ q, q <+: inner → q ≠ [] → repo.hasFile (base ++ q ++ [moduleFile]) = false)
    (down : Path) :
    packageAbove repo (base ++ inner).reverse down =
      packageAbove repo base.reverse (inner ++ down) := by
  induction inner using List.reverseRecOn generalizing down with
  | nil => simp
  | append_singleton inner name ih =>
    have hlast := h (inner ++ [name]) (List.prefix_refl _) (by simp)
    have hup : (base ++ (inner ++ [name])).reverse = name :: (base ++ inner).reverse := by simp
    have hpath : (name :: (base ++ inner).reverse).reverse = base ++ (inner ++ [name]) := by simp
    rw [hup, packageAbove, hpath]
    rw [FileTree.hasFile, FileTree.content?] at hlast
    have hinner := ih (fun q hq => h q (hq.trans (List.prefix_append _ _))) (name :: down)
    split
    · rename_i heq
      rw [heq] at hlast
      cases hlast
    · rename_i heq
      rw [heq] at hlast
      cases hlast
    · rw [hinner]
      simp

/-- The search ends at a directory whose module file can be read. -/
theorem packageAbove_eq {repo : FileTree Content} {base : Path} {text modulePath : String}
    (hfile : repo.content? (base ++ [moduleFile]) = some (.text text))
    (hpath : modulePath? text = some modulePath) (down : Path) :
    packageAbove repo base.reverse down =
      some (packagePath modulePath (withSlashes down.text)) := by
  have hget : repo.get? (base ++ [moduleFile]) = some (.file (.text text)) := by
    unfold FileTree.content? at hfile
    split at hfile
    · cases hfile
      assumption
    · cases hfile
  rw [packageAbove.eq_def]
  dsimp only
  rw [List.reverse_reverse, hget]
  simp [hpath]

/-- The directories on the way to a source have no module file. -/
theorem hasFile_of_isSource {root sub : FileTree Content} {base p : Path} {content : Content}
    (hsub : root.get? base = some sub) (h : IsSource sub p content) {q : Path}
    (hq : q <+: p.dropLast)
    (hp : p ≠ []) : root.hasFile (base ++ q ++ [moduleFile]) = false := by
  have hne : q ≠ p := by
    rintro rfl
    have hlength := hq.length_le
    have hpos := List.length_pos_iff.mpr hp
    rw [List.length_dropLast] at hlength
    omega
  have hway := h.2 q (hq.trans (List.dropLast_prefix p)) hne
  rw [FileTree.hasFile, FileTree.content?] at hway ⊢
  rw [List.append_assoc, FileTree.get?_append, hsub]
  exact hway

/-- A source of the module in a repository has the package above it that it is loaded with. -/
theorem packageAbove_of_mem_moduleSources {root : FileTree Content} {shown modulePath : String}
    {module : Located} {exclusions : Exclusions} {file : Path × Content} (hroot : root.IsProper)
    (hmodule : openModule shown (some root) = .ok (module, modulePath))
    (hfile : file ∈ moduleSources module exclusions) :
    packageAbove root file.1.dropLast.reverse [] =
      some (packagePath modulePath
        (withSlashes (Path.text (file.1.dropLast.drop module.1.length)))) := by
  obtain ⟨text, hfirst, htext, hpath⟩ := openModule_ok hmodule
  have hmod := get?_of_moduleRoot? hroot.hasDistinctNames hfirst
  obtain ⟨name, sub, p, hname, hat, hsource⟩ := exists_of_mem_moduleSources (hroot.get? hmod) hfile
  have hdir : file.1.dropLast = module.1 ++ (name :: p).dropLast := by
    rw [hat, List.dropLast_append_of_ne_nil (by simp)]
  have hclear : ∀ q, q <+: (name :: p).dropLast → q ≠ [] →
      root.hasFile (module.1 ++ q ++ [moduleFile]) = false := by
    intro q hq hne
    cases p with
    | nil => exact absurd (List.prefix_nil.mp hq) hne
    | cons d p =>
      obtain ⟨c, q, rfl⟩ := List.exists_cons_of_ne_nil hne
      obtain ⟨rfl, hq'⟩ := List.cons_prefix_cons.mp hq
      have hsub : root.get? (module.1 ++ [c]) = some sub := by
        rw [FileTree.get?_append, hmod]
        exact hname
      simpa using hasFile_of_isSource hsub hsource hq' (by simp)
  have hmodfile : root.content? (module.1 ++ [moduleFile]) = some (.text text) := by
    rw [FileTree.content?, FileTree.get?_append, hmod]
    exact htext
  rw [hdir, packageAbove_append hclear, packageAbove_eq hmodfile hpath]
  simp

/-- The components of the path of a source are names without backslashes. -/
theorem isName_of_mem_moduleSources {root : FileTree Content} {shown modulePath : String}
    {module : Located} {exclusions : Exclusions} {file : Path × Content} (hroot : root.IsProper)
    (hmodule : openModule shown (some root) = .ok (module, modulePath))
    (hfile : file ∈ moduleSources module exclusions) :
    root.get? file.1 = some (.file file.2) ∧ file.1 ≠ [] ∧
      ∀ c ∈ file.1, IsName c ∧ '\\' ∉ c.toList := by
  obtain ⟨text, hfirst, -, -⟩ := openModule_ok hmodule
  have hmod := get?_of_moduleRoot? hroot.hasDistinctNames hfirst
  obtain ⟨name, sub, p, hname, hat, hsource⟩ := exists_of_mem_moduleSources (hroot.get? hmod) hfile
  have hget : root.get? file.1 = some (.file file.2) := by
    rw [hat, FileTree.get?_append, hmod, Option.bind_some, ← List.singleton_append,
      FileTree.get?_append, hname]
    exact hsource.1
  exact ⟨hget, by simp [hat], hroot.isName hget⟩

/-! ## Changes -/

/-- A change with a name comes from a declaration of the file. -/
theorem exists_of_mem_found {repo : FileTree Content} {file source : String} {hunks : List Hunk}
    {found : List ChangedFunction} (hsource : repo.content? (pathOf file) = some (.text source))
    (hfound : changedInFile repo file hunks = .ok found) {c : ChangedFunction} (hc : c ∈ found)
    (hname : c.fullName ≠ "") :
    ∃ decl ∈ (Go.parseSource source).named, ∃ span,
      spanOf? ((packageOf? repo file).getD "") decl = some span ∧
      change? file ((packageOf? repo file).getD "") hunks span = some c := by
  unfold changedInFile at hfound
  rw [hsource] at hfound
  split at hfound
  · -- placeholders have no names
    cases hfound
    obtain ⟨hunk, -, rfl⟩ := List.mem_map.mp hc
    exact absurd rfl hname
  · rename_i heq _
    cases heq
  · rename_i heq
    cases heq
  · rename_i heq
    cases heq
    dsimp only at hfound
    split at hfound
    · cases hfound
    · cases hfound
      obtain ⟨span, hspan, hchange⟩ := List.mem_filterMap.mp hc
      obtain ⟨decl, hdecl, hspan⟩ := List.mem_filterMap.mp hspan
      exact ⟨decl, hdecl, span, hspan, hchange⟩

/-- A change has the name and the lines of its span. -/
theorem change?_eq_some {file package : String} {hunks : List Hunk} {span : FunctionSpan}
    {c : ChangedFunction} (h : change? file package hunks span = some c) :
    c.fullName = span.qualifiedName ∧ c.lineStart = span.startLine ∧ c.lineEnd = span.endLine := by
  unfold change? at h
  split at h
  · cases h
  · cases h
    exact ⟨rfl, rfl, rfl⟩

end CallImpact.Diff
