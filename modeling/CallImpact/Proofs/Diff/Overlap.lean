import CallImpact.Diff.Change
import CallImpact.Proofs.Spans
import Mathlib.Data.Finset.Interval
import Mathlib.Order.Interval.Finset.Nat

/-!
# Lines that spans and hunks share

A span and a hunk each stand for a set of lines. The test that decides whether a hunk touches a span
compares the ends of both, and says whether the sets have a line in common (`overlaps_iff`). So what
is reported are the spans that share a line with a hunk, each with the totals of all hunks that it
shares a line with (`touched_by_shared_lines`).
-/

namespace CallImpact

/-! ## Sets of lines -/

/-- The lines of a function. -/
def FunctionSpan.lines (s : FunctionSpan) : Finset Nat :=
  Finset.Icc s.startLine s.endLine

namespace Hunk

/-- Whether the numbers of a hunk have 32 bits. -/
def IsBounded (h : Hunk) : Prop :=
  (h.oldStart ≤ Text.max32 ∧ h.oldCount ≤ Text.max32) ∧
    h.newStart ≤ Text.max32 ∧ h.newCount ≤ Text.max32

instance : DecidablePred IsBounded := fun _ => inferInstanceAs (Decidable (_ ∧ _))

/-- The first line of a hunk and the number of its lines, in the version that it is placed by: the
old one when the new one has nothing of it. -/
def place (h : Hunk) : Nat × Nat :=
  if h.deleted || h.newCount = 0 then (h.oldStart, h.oldCount) else (h.newStart, h.newCount)

/-- The lines that a hunk affects, as far as they have numbers. A hunk without lines stands for the
one where it starts. -/
def lines (h : Hunk) : Finset Nat :=
  {line ∈ Finset.Ico h.place.1 (h.place.1 + max 1 h.place.2) | line ≤ Text.max32}

/-- The affected lines end with the last that has a number. -/
theorem affectedLines_eq (h : Hunk) :
    h.affectedLines = (h.place.1, min Text.max32 (h.place.1 + (h.place.2 - 1))) := rfl

/-- A hunk of which the numbers have 32 bits is placed at a line with a number. -/
theorem IsBounded.place_le {h : Hunk} (hb : h.IsBounded) : h.place.1 ≤ Text.max32 := by
  unfold place
  split
  · exact hb.1.1
  · exact hb.2.1

end Hunk

/-- Whether a function and a hunk have a line in common. -/
def SharesLine (s : FunctionSpan) (h : Hunk) : Prop :=
  (s.lines ∩ h.lines).Nonempty

instance (s : FunctionSpan) : DecidablePred (SharesLine s) := fun _ =>
  inferInstanceAs (Decidable (Finset.Nonempty _))

/-- The ends of a function and of a hunk tell whether they have a line in common. -/
theorem overlaps_iff {s : FunctionSpan} {h : Hunk} (hs : s.startLine ≤ s.endLine)
    (hb : h.IsBounded) : s.overlaps h.affectedLines.1 h.affectedLines.2 ↔ SharesLine s h := by
  have hplace := hb.place_le
  rw [h.affectedLines_eq, FunctionSpan.overlaps, Bool.and_eq_true, decide_eq_true_eq,
    decide_eq_true_eq, SharesLine]
  constructor
  · rintro ⟨hfirst, hlast⟩
    -- the later one of the two starts is a line of both
    refine ⟨max s.startLine h.place.1, ?_⟩
    rw [Finset.mem_inter, FunctionSpan.lines, Hunk.lines, Finset.mem_Icc, Finset.mem_filter,
      Finset.mem_Ico]
    omega
  · rintro ⟨line, hline⟩
    rw [Finset.mem_inter, FunctionSpan.lines, Hunk.lines, Finset.mem_Icc, Finset.mem_filter,
      Finset.mem_Ico] at hline
    dsimp only
    omega

namespace Diff

/-! ## Totals -/

/-- A sum that is bounded after each step is the bounded sum. -/
theorem foldl_bounded (ns : List Nat) (total : Nat) :
    ns.foldl (fun total n => min Text.max32 (total + n)) (min Text.max32 total) =
      min Text.max32 (total + ns.sum) := by
  induction ns generalizing total with
  | nil => simp
  | cons n ns ih =>
    have hstep : min Text.max32 (min Text.max32 total + n) = min Text.max32 (total + n) := by omega
    rw [List.foldl_cons, hstep, ih, List.sum_cons, Nat.add_assoc]

/-- Stopping at the greatest number on the way is stopping there at the end. -/
theorem boundedSum_eq (ns : List Nat) : boundedSum ns = min Text.max32 ns.sum := by
  have h := foldl_bounded ns 0
  rwa [Nat.min_zero, Nat.zero_add] at h

/-- A bounded sum has 32 bits. -/
theorem boundedSum_le (ns : List Nat) : boundedSum ns ≤ Text.max32 :=
  boundedSum_eq ns ▸ Nat.min_le_left _ _

/-! ## Touched functions -/

/-- The hunks that a function has a line in common with. -/
def sharing (s : FunctionSpan) (hunks : List Hunk) : List Hunk :=
  hunks.filter (SharesLine s ·)

/-- The hunks that touch a function are those that it shares a line with. -/
theorem touching_eq_sharing {s : FunctionSpan} {hunks : List Hunk} (hs : s.startLine ≤ s.endLine)
    (hb : ∀ h ∈ hunks, h.IsBounded) : touching s hunks = sharing s hunks :=
  List.filter_congr fun h hh => by
    rw [Bool.eq_iff_iff, decide_eq_true_eq]
    exact overlaps_iff hs (hb h hh)

/-- What is reported about a function: its own data, the kind of the first hunk that it shares a
line with, and the totals of all such hunks. -/
structure IsChangeOf (file package : String) (hunks : List Hunk) (s : FunctionSpan)
    (c : ChangedFunction) : Prop where
  name : c.name = shownName s
  fullName : c.fullName = s.qualifiedName
  package_eq : c.package = package
  file_eq : c.file = file
  lineStart : c.lineStart = s.startLine
  lineEnd : c.lineEnd = s.endLine
  change : (sharing s hunks).head?.map changeOf = some c.change
  linesAdded : c.linesAdded = min Text.max32 ((sharing s hunks).map (·.newCount)).sum
  linesRemoved : c.linesRemoved = min Text.max32 ((sharing s hunks).map (·.oldCount)).sum

/-- A function is reported when it shares a line with a hunk, and with what is said of it. -/
theorem change?_of_sharing (file package : String) {hunks : List Hunk} {s : FunctionSpan}
    (h : touching s hunks = sharing s hunks) :
    (sharing s hunks = [] ∧ change? file package hunks s = none) ∨
    ∃ c, (sharing s hunks ≠ [] ∧ change? file package hunks s = some c) ∧
      IsChangeOf file package hunks s c := by
  unfold change?
  rw [h]
  cases hsharing : sharing s hunks with
  | nil => exact .inl ⟨rfl, rfl⟩
  | cons first rest =>
    refine .inr ⟨_, ⟨by simp, rfl⟩, rfl, rfl, rfl, rfl, rfl, rfl, ?_, ?_, ?_⟩
    · rw [hsharing]
      rfl
    · rw [hsharing]
      exact boundedSum_eq _
    · rw [hsharing]
      exact boundedSum_eq _

/-- The functions that share a line with a hunk are reported, one by one and in order, and no
others; and no number on the way has more than 32 bits. -/
theorem touched_by_shared_lines (file package : String) {spans : List FunctionSpan}
    {hunks : List Hunk} (hspans : ∀ s ∈ spans, s.startLine ≤ s.endLine)
    (hhunks : ∀ h ∈ hunks, h.IsBounded) :
    List.Forall₂ (IsChangeOf file package hunks)
      (spans.filter fun s => ∃ h ∈ hunks, SharesLine s h)
      (touchedFunctions file package spans hunks) ∧
    (∀ h ∈ hunks, h.affectedLines.1 ≤ Text.max32 ∧ h.affectedLines.2 ≤ Text.max32) ∧
    ∀ s ∈ spans, ∀ part, part <+: touching s hunks →
      boundedSum (part.map (·.newCount)) ≤ Text.max32 ∧
        boundedSum (part.map (·.oldCount)) ≤ Text.max32 := by
  refine ⟨?_, fun h hh => ?_, fun s _ part _ => ⟨boundedSum_le _, boundedSum_le _⟩⟩
  · rw [← List.filterMap_eq_filter, touchedFunctions]
    refine forall₂_filterMap fun s hs => ?_
    have hany : (∃ h ∈ hunks, SharesLine s h) ↔ sharing s hunks ≠ [] := by
      simp [sharing, List.filter_eq_nil_iff]
    rcases change?_of_sharing file package (touching_eq_sharing (hspans s hs) hhunks) with
      ⟨hnil, hnone⟩ | ⟨c, ⟨hne, hsome⟩, hc⟩
    · exact .inl ⟨by simp [Option.guard, hany, hnil], hnone⟩
    · exact .inr ⟨s, c, by simp [Option.guard, hany, hne], hsome, hc⟩
  · rw [h.affectedLines_eq]
    exact ⟨(hhunks h hh).place_le, Nat.min_le_left _ _⟩

/-- Two functions with a line between them, and one in the last line that has a number. -/
def farSpans : List FunctionSpan :=
  [⟨"m.F", "F", none, 5, 9⟩, ⟨"m.T.G", "G", some "T", 11, 13⟩,
    ⟨"m.H", "H", none, 4294967295, 4294967295⟩]

/-- Lines of which very many old ones are replaced, lines that are removed, and lines beyond the
last one that has a number. -/
def farHunks : List Hunk :=
  [⟨"a.go", 9, 4294967295, 9, 2, false, false⟩, ⟨"a.go", 5, 3, 4, 0, false, false⟩,
    ⟨"a.go", 0, 0, 4294967295, 2, false, true⟩]

/-- The case of these functions and hunks: two of the functions share lines with hunks, and their
sums stay in bounds. -/
theorem touched_by_shared_lines_farSpans :
    (farSpans.filter fun s => ∃ h ∈ farHunks, SharesLine s h) =
      [⟨"m.F", "F", none, 5, 9⟩, ⟨"m.H", "H", none, 4294967295, 4294967295⟩] ∧
    List.Forall₂ (IsChangeOf "a.go" "m" farHunks)
      (farSpans.filter fun s => ∃ h ∈ farHunks, SharesLine s h)
      [⟨"F", "m.F", "m", "a.go", 5, 9, .modified, 2, 4294967295⟩,
        ⟨"H", "m.H", "m", "a.go", 4294967295, 4294967295, .added, 2, 0⟩] := by
  have hspans : ∀ s ∈ farSpans, s.startLine ≤ s.endLine := by decide
  have hhunks : ∀ h ∈ farHunks, h.IsBounded := by decide
  exact ⟨by decide +kernel, (touched_by_shared_lines "a.go" "m" hspans hhunks).1⟩

end Diff

end CallImpact
