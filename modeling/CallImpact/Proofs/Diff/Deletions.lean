import CallImpact.Proofs.Diff.Overlap

/-!
# Functions that lines are removed from

The hunks of a file that is edited in place stand in order in both versions, with as many lines
between them in the one as in the other (`InPlace`). So the hunks before a place shift it by the
lines that they add and remove (`oldFrom_add`). A hunk that only removes lines is placed by their
numbers in the old version, and functions by those in the new one: what is removed inside a
function is reported as long as the shift does not take it out of the lines of the function
(`deletion_reported`), and may be missed otherwise (`deletion_missed`).
-/

namespace CallImpact

/-! ## Places in both versions -/

namespace Hunk

/-- The first line of the old version that a hunk replaces, or else the one that it adds lines
before. -/
def oldFrom (h : Hunk) : Nat :=
  if h.oldCount = 0 then h.oldStart + 1 else h.oldStart

/-- The first line of the new version that a hunk gives, or else the one that it removes lines
before. -/
def newFrom (h : Hunk) : Nat :=
  if h.newCount = 0 then h.newStart + 1 else h.newStart

end Hunk

namespace Diff

/-- Whether hunks are those of a file that is edited in place, from a line of the old version and
the line of the new one that corresponds to it: the hunks stand in order, and between them both
versions have the same number of lines. -/
def InPlace : (old new : Nat) → List Hunk → Prop
  | _, _, [] => True
  | old, new, h :: rest =>
    (h.deleted = false ∧ h.added = false) ∧
      (old ≤ h.oldFrom ∧ h.oldFrom + new = h.newFrom + old) ∧
        InPlace (h.oldFrom + h.oldCount) (h.newFrom + h.newCount) rest

instance decidableInPlace : (old new : Nat) → (hunks : List Hunk) →
    Decidable (InPlace old new hunks)
  | _, _, [] => inferInstanceAs (Decidable True)
  | _, _, h :: rest =>
    have := decidableInPlace (h.oldFrom + h.oldCount) (h.newFrom + h.newCount) rest
    inferInstanceAs (Decidable (_ ∧ _))

/-- How many lines hunks remove. -/
def removed (hunks : List Hunk) : Nat :=
  (hunks.map (·.oldCount)).sum

/-- How many lines hunks add. -/
def added (hunks : List Hunk) : Nat :=
  (hunks.map (·.newCount)).sum

/-- Hunks shift what comes after them by the lines that they add and remove. -/
theorem oldFrom_add {old new : Nat} {before after : List Hunk} {h : Hunk}
    (hplace : InPlace old new (before ++ h :: after)) :
    h.oldFrom + (new + added before) = h.newFrom + (old + removed before) := by
  induction before generalizing old new with
  | nil =>
    obtain ⟨-, ⟨-, hshift⟩, -⟩ := hplace
    simpa [added, removed] using hshift
  | cons b before ih =>
    obtain ⟨-, ⟨-, hshift⟩, hrest⟩ := hplace
    have hlater := ih hrest
    simp only [added, removed, List.map_cons, List.sum_cons] at hlater ⊢
    omega

/-- The place of a hunk that only removes lines, in both versions of a file. -/
theorem oldStart_add {before after : List Hunk} {h : Hunk}
    (hplace : InPlace 1 1 (before ++ h :: after)) (hold : 1 ≤ h.oldCount) (hnew : h.newCount = 0) :
    h.oldStart + added before = h.newStart + 1 + removed before := by
  have hshift := oldFrom_add hplace
  rw [Hunk.oldFrom, if_neg (by omega), Hunk.newFrom, if_pos hnew] at hshift
  omega

/-! ## Reports -/

/-- Whether a function is among those that are reported. -/
def Reports (changes : List ChangedFunction) (s : FunctionSpan) : Prop :=
  ∃ c ∈ changes, c.name = shownName s ∧ c.fullName = s.qualifiedName ∧
    c.lineStart = s.startLine ∧ c.lineEnd = s.endLine

/-- A function that some hunk touches is reported. -/
theorem reports_of_mem_touching (file package : String) {spans : List FunctionSpan}
    {hunks : List Hunk} {s : FunctionSpan} {h : Hunk} (hs : s ∈ spans) (hh : h ∈ touching s hunks) :
    Reports (touchedFunctions file package spans hunks) s := by
  have hchange : ∃ c, change? file package hunks s = some c ∧ c.name = shownName s ∧
      c.fullName = s.qualifiedName ∧ c.lineStart = s.startLine ∧ c.lineEnd = s.endLine := by
    unfold change?
    split
    · rename_i hnil
      rw [hnil] at hh
      cases hh
    · exact ⟨_, rfl, rfl, rfl, rfl, rfl⟩
  obtain ⟨c, hc, hdata⟩ := hchange
  exact ⟨c, List.mem_filterMap.mpr ⟨s, hs, hc⟩, hdata⟩

/-- A hunk that only removes lines touches the functions that have lines with the same numbers. -/
theorem mem_touching_iff_of_newCount {hunks : List Hunk} {s : FunctionSpan} {h : Hunk}
    (hh : h ∈ hunks) (hstart : s.startLine ≤ Text.max32) (hold : 1 ≤ h.oldCount)
    (hnew : h.newCount = 0) :
    h ∈ touching s hunks ↔ s.startLine < h.oldStart + h.oldCount ∧ h.oldStart ≤ s.endLine := by
  have hplace : h.place = (h.oldStart, h.oldCount) := by simp [Hunk.place, hnew]
  rw [touching, List.mem_filter, h.affectedLines_eq, hplace, FunctionSpan.overlaps,
    Bool.and_eq_true, decide_eq_true_eq, decide_eq_true_eq]
  simp only [hh, true_and]
  omega

/-- Lines are removed inside a function. Of the hunks of a file that is edited in place, the one
that removes them touches the function exactly when, after the shift by the hunks before, their
numbers meet its lines; then the function is reported. So it always is when the hunks before
remove as many lines as they add. -/
theorem deletion_reported (file package : String) {spans : List FunctionSpan}
    {before after : List Hunk} {h : Hunk} {s : FunctionSpan}
    (hplace : InPlace 1 1 (before ++ h :: after)) (hbounded : h.IsBounded) (hold : 1 ≤ h.oldCount)
    (hnew : h.newCount = 0) (hs : s ∈ spans) (hstart : s.startLine ≤ h.newStart)
    (hend : h.newStart < s.endLine) :
    (h ∈ touching s (before ++ h :: after) ↔
      s.startLine + added before ≤ h.newStart + removed before + h.oldCount ∧
        h.newStart + 1 + removed before ≤ s.endLine + added before) ∧
    (s.startLine + added before ≤ h.newStart + removed before + h.oldCount →
      h.newStart + 1 + removed before ≤ s.endLine + added before →
      Reports (touchedFunctions file package spans (before ++ h :: after)) s) ∧
    (removed before = added before →
      Reports (touchedFunctions file package spans (before ++ h :: after)) s) := by
  have hshift := oldStart_add hplace hold hnew
  have hmem : h ∈ before ++ h :: after := by simp
  have hiff := mem_touching_iff_of_newCount hmem (hstart.trans hbounded.2.1) hold hnew
  have hmeets : h ∈ touching s (before ++ h :: after) ↔
      s.startLine + added before ≤ h.newStart + removed before + h.oldCount ∧
        h.newStart + 1 + removed before ≤ s.endLine + added before := by
    rw [hiff]
    omega
  refine ⟨hmeets, fun hfirst hlast => ?_, fun hsame => ?_⟩
  · exact reports_of_mem_touching file package hs (hmeets.mpr ⟨hfirst, hlast⟩)
  · exact reports_of_mem_touching file package hs (hmeets.mpr (by omega))

/-- A function at the end of a file. -/
def lateSpan : FunctionSpan :=
  ⟨"m.F", "F", none, 25, 35⟩

/-- A hunk that adds three lines far above the function, and one that removes two lines in it. -/
def nearHunks : List Hunk :=
  [⟨"a.go", 1, 0, 2, 3, false, false⟩, ⟨"a.go", 27, 2, 29, 0, false, false⟩]

/-- The case in which three lines above the function are too few to move it away from its hunk. -/
theorem deletion_reported_nearHunks :
    InPlace 1 1 nearHunks ∧
      Reports (touchedFunctions "a.go" "m" [lateSpan] nearHunks) lateSpan := by
  have hplace : InPlace 1 1 ([⟨"a.go", 1, 0, 2, 3, false, false⟩] ++
      ⟨"a.go", 27, 2, 29, 0, false, false⟩ :: []) := by decide
  obtain ⟨-, hreports, -⟩ := deletion_reported "a.go" "m" hplace (by decide) (by decide) rfl
    (List.mem_singleton_self lateSpan) (by decide) (by decide)
  exact ⟨hplace, hreports (by decide) (by decide)⟩

/-- A hunk that adds twenty lines above the function, and one that removes a line in it. -/
def farAddition : List Hunk :=
  [⟨"a.go", 1, 0, 2, 20, false, false⟩, ⟨"a.go", 10, 1, 29, 0, false, false⟩]

/-- The line that is removed between the lines 29 and 30 of the new version was line 10 of the old
one, which is far above the function. -/
theorem deletion_missed :
    InPlace 1 1 farAddition ∧ (∀ h ∈ farAddition, h.IsBounded) ∧ lateSpan.startLine ≤ 29 ∧
    29 < lateSpan.endLine ∧ touchedFunctions "a.go" "m" [lateSpan] farAddition = [] := by
  decide

end Diff

end CallImpact
